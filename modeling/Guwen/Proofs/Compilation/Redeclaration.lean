/-
**Redeclaration: names declared again in a nested scope.**

A scope may declare a name that a scope around it declares. Code generation writes a name in the
same way wherever it is declared, so a block of the code then declares an identifier that a block
around it declares, which C# refuses in one function.

* `nodesRedeclared` — what the blocks of the code declare again, by the text alone.
* `stmtsRedeclared` — what the scopes of a tree declare again.
* **`compile_keeps_redeclarations`** — the two are the same, in the same order.
* `compile_redeclares` — so the code of an accepted source may declare an identifier again.
-/
import Guwen.Proofs.Code.Blocks

namespace Guwen

open Code

/-! ### Redeclarations in the code -/

namespace Code

/-- The identifiers that a line declares. -/
def lineNames (code : Text) : List Text :=
  match classify (lex code) with
  | .head name _ => [name]
  | .declaration name _ => [name]
  | _ => []

/-- The identifiers that a node declares in the block it stands in. -/
def Node.names : Node → List Text
  | line code => lineNames code
  | block _ _ => []

/-- The identifiers that nodes declare in the block they stand in. -/
def nodeNames (nodes : List Node) : List Text := nodes.flatMap Node.names

mutual

/-- **The identifiers that blocks inside declare again,** when the blocks around in the same
function declare those of `outer`. A function starts with its parameters alone. -/
def Node.redeclared (outer : List Text) : Node → List Text
  | .line _ => []
  | .block head inner =>
    match functionHead? head with
    | some (_, params) => nodesRedeclared (params ++ nodeNames inner) inner
    | none =>
      (nodeNames inner).filter outer.contains ++ nodesRedeclared (outer ++ nodeNames inner) inner

/-- The identifiers that blocks inside declare again. -/
def nodesRedeclared (outer : List Text) : List Node → List Text
  | [] => []
  | node :: nodes => node.redeclared outer ++ nodesRedeclared outer nodes

end

end Code

/-! ### Redeclarations in a tree -/

/-- The names that a statement declares in the scope it stands in. -/
def Stmt.names : Stmt → List Text
  | .declare _ _ name _ | .function _ name _ _ => [name.lexeme]
  | _ => []

/-- The names that statements declare in the scope they stand in. -/
def stmtNames (ss : List Stmt) : List Text := ss.flatMap Stmt.names

/-- One of the names is written as this one is. -/
def writtenIn (outer : List Text) (name : Text) : Bool :=
  outer.any fun other => identifier name == identifier other

mutual

/-- **The names that scopes inside declare again,** when the scopes around in the same function
declare those of `outer`. -/
def Stmt.redeclared (outer : List Text) : Stmt → List Text
  | .function _ _ params body =>
    stmtsRedeclared (params.map (·.name.lexeme) ++ stmtNames body) body
  | .conditional _ _ yes no =>
    (stmtNames yes).filter (writtenIn outer) ++ stmtsRedeclared (outer ++ stmtNames yes) yes ++
      ((stmtNames no).filter (writtenIn outer) ++ stmtsRedeclared (outer ++ stmtNames no) no)
  | .loop _ body =>
    (stmtNames body).filter (writtenIn outer) ++ stmtsRedeclared (outer ++ stmtNames body) body
  | _ => []

/-- The names that scopes inside declare again. -/
def stmtsRedeclared (outer : List Text) : List Stmt → List Text
  | [] => []
  | s :: ss => s.redeclared outer ++ stmtsRedeclared outer ss

end

/-- **The names that the scopes of a program declare again.** -/
def Program.redeclared (p : Program) : List Text := stmtsRedeclared (stmtNames p) p

/-! #### Marks do not matter -/

theorem stmtNames_bare (ss : List Stmt) : stmtNames (bareStmts ss) = stmtNames ss := by
  induction ss with
  | nil => rfl
  | cons s ss ih =>
    have here : s.bare.names = s.names := by cases s <;> rfl
    rw [bareStmts, stmtNames, List.flatMap_cons, here]
    exact congrArg (s.names ++ ·) ih

mutual

theorem Stmt.redeclared_bare : ∀ (outer : List Text) (s : Stmt),
    s.bare.redeclared outer = s.redeclared outer
  | outer, .function _ _ params body => by
    rw [Stmt.bare, Stmt.redeclared, stmtNames_bare, stmtsRedeclared_bare _ body, Stmt.redeclared]
  | outer, .conditional _ _ yes no => by
    rw [Stmt.bare, Stmt.redeclared, stmtNames_bare, stmtNames_bare, stmtsRedeclared_bare _ yes,
      stmtsRedeclared_bare _ no, Stmt.redeclared]
  | outer, .loop _ body => by
    rw [Stmt.bare, Stmt.redeclared, stmtNames_bare, stmtsRedeclared_bare _ body, Stmt.redeclared]
  | _, .declare .. => rfl
  | _, .param _ => rfl
  | _, .print .. => rfl
  | _, .returns .. => rfl
  | _, .assign .. => rfl
  | _, .breaks _ => rfl
  | _, .perform .. => rfl
  | _, .missing => rfl

theorem stmtsRedeclared_bare : ∀ (outer : List Text) (ss : List Stmt),
    stmtsRedeclared outer (bareStmts ss) = stmtsRedeclared outer ss
  | _, [] => rfl
  | outer, s :: ss => by
    rw [bareStmts, stmtsRedeclared, s.redeclared_bare outer, stmtsRedeclared_bare outer ss,
      stmtsRedeclared]

end

/-- Resolution declares nothing and moves nothing. -/
theorem redeclared_resolve (p : Program) :
    Program.redeclared p.resolve.tree = p.redeclared := by
  have same : bareStmts p.resolve.tree = bareStmts p := bare_resolveStmts .initial p
  have names : stmtNames p.resolve.tree = stmtNames p := by
    rw [← stmtNames_bare, same, stmtNames_bare]
  rw [Program.redeclared, names, ← stmtsRedeclared_bare, same, stmtsRedeclared_bare,
    Program.redeclared]

/-! ### From the tree to the code -/

namespace Code

theorem nodeNames_append (nodes more : List Node) :
    nodeNames (nodes ++ more) = nodeNames nodes ++ nodeNames more := List.flatMap_append

theorem nodesRedeclared_append (outer : List Text) (nodes more : List Node) :
    nodesRedeclared outer (nodes ++ more) =
      nodesRedeclared outer nodes ++ nodesRedeclared outer more := by
  induction nodes with
  | nil => rfl
  | cons node nodes ih =>
    rw [List.cons_append, nodesRedeclared, ih, nodesRedeclared, List.append_assoc]

/-- A line that declares nothing. -/
theorem lineNames_of_isStatement {code : Text} (statement : IsStatement code) :
    lineNames code = [] := by
  rw [lineNames, statement]

theorem lineNames_declaration (word name value : Text) :
    lineNames (typeOf word ++ " " ++ identifier name ++ " = " ++ value ++ ";") =
      [identifier name] := by
  rw [lineNames, lex_declaration, classify_declaration]

theorem lineNames_functionHead (name : Token) (params : List Param) :
    lineNames (functionHead name params) = [identifier name.lexeme] := by
  rw [lineNames, functionHead, classify_head]

theorem contains_identifier (outer : List Text) (name : Text) :
    (outer.map identifier).contains (identifier name) = writtenIn outer name := by
  rw [List.contains_eq_any_beq, List.any_map]
  rfl

/-- Names are written as identifiers before or after those of `outer` are picked out. -/
theorem filter_identifier (outer names : List Text) :
    (names.map identifier).filter (outer.map identifier).contains =
      (names.filter (writtenIn outer)).map identifier := by
  rw [List.filter_map]
  congr 2
  funext name
  exact contains_identifier outer name

/-- A block that is no function, with its head. -/
theorem nodesRedeclared_plain {head : Text} (other : functionHead? head = none) {ss : List Stmt}
    {inner : List Node} (names : nodeNames inner = (stmtNames ss).map identifier)
    (inside : ∀ outer : List Text,
      nodesRedeclared (outer.map identifier) inner = (stmtsRedeclared outer ss).map identifier)
    (outer : List Text) :
    nodesRedeclared (outer.map identifier) (Node.headed head inner) =
      ((stmtNames ss).filter (writtenIn outer) ++
        stmtsRedeclared (outer ++ stmtNames ss) ss).map identifier := by
  have block : Node.redeclared (outer.map identifier) (.block head inner) =
      (nodeNames inner).filter (outer.map identifier).contains ++
        nodesRedeclared (outer.map identifier ++ nodeNames inner) inner := by
    rw [Node.redeclared, other]
  have line : Node.redeclared (outer.map identifier) (.line head) = [] := by rw [Node.redeclared]
  rw [Node.headed, nodesRedeclared, nodesRedeclared, nodesRedeclared, line, block, names,
    filter_identifier, ← List.map_append, inside, List.nil_append, List.append_nil,
    List.map_append]

/-- A line that stands for a statement. -/
theorem nodeNames_line {s : Stmt} {ss : List Stmt} {code : Text} {nodes : List Node}
    (here : lineNames code = s.names.map identifier)
    (rest : nodeNames nodes = (stmtNames ss).map identifier) :
    nodeNames (.line code :: nodes) = (stmtNames (s :: ss)).map identifier := by
  rw [nodeNames, List.flatMap_cons, stmtNames, List.flatMap_cons, List.map_append]
  exact congrArg₂ (· ++ ·) here rest

theorem nodeNames_headed (head : Text) (inner nodes : List Node) :
    nodeNames (Node.headed head inner ++ nodes) = nodeNames (.line head :: nodes) := rfl

/-- **The code declares what the statements declare.** -/
theorem Writes.names {ss : List Stmt} {nodes : List Node} (writes : Writes ss nodes) :
    nodeNames nodes = (stmtNames ss).map identifier := by
  induction writes with
  | nil => rfl
  | @declare _ type name _ code _ _ _ _ _ ih =>
    exact nodeNames_line (lineNames_declaration type.lexeme name.lexeme code) ih
  | @function _ name params _ _ _ _ _ _ _ ih =>
    rw [nodeNames_headed]
    exact nodeNames_line (lineNames_functionHead name params) ih
  | @conditional _ _ code _ no _ _ second nodes _ _ _ _ _ _ ih =>
    have condition : IsStatement ("if (" ++ code ++ ")") := by rw [List.append_assoc]; rfl
    have other : nodeNames (elseNodes no second ++ nodes) = nodeNames nodes := by
      unfold elseNodes
      split
      · rfl
      · exact nodeNames_headed "else" _ _
    rw [nodeNames_headed]
    exact nodeNames_line (lineNames_of_isStatement condition) (other.trans ih)
  | loop _ _ _ ih =>
    rw [nodeNames_headed]
    exact nodeNames_line rfl ih
  | @print _ _ code _ _ _ _ ih =>
    have statement : IsStatement ("Console.WriteLine(" ++ code ++ ");") := by
      rw [List.append_assoc]
      rfl
    exact nodeNames_line (lineNames_of_isStatement statement) ih
  | @returns _ _ code _ _ _ _ ih =>
    have statement : IsStatement ("return " ++ code ++ ";") := by
      rw [List.append_assoc]
      rfl
    exact nodeNames_line (lineNames_of_isStatement statement) ih
  | @assign name _ code _ _ _ _ ih =>
    have statement : IsStatement (identifier name.lexeme ++ " = " ++ code ++ ";") := by
      simp only [List.append_assoc]
      exact isStatement_identifier _ (apart_cons rfl) rfl (by decide)
    exact nodeNames_line (lineNames_of_isStatement statement) ih
  | breaks _ ih => exact nodeNames_line rfl ih
  | perform legible written _ ih =>
    exact nodeNames_line (lineNames_of_isStatement (Expr.isStatement_code legible written)) ih

/-- A line declares nothing inside. -/
theorem nodesRedeclared_line (outer : List Text) (code : Text) (nodes : List Node) :
    nodesRedeclared outer (.line code :: nodes) = nodesRedeclared outer nodes := by
  rw [nodesRedeclared, Node.redeclared, List.nil_append]

/-- **The code declares again what the statements declare again.** -/
theorem Writes.redeclared {ss : List Stmt} {nodes : List Node} (writes : Writes ss nodes)
    (outer : List Text) :
    nodesRedeclared (outer.map identifier) nodes = (stmtsRedeclared outer ss).map identifier := by
  induction writes generalizing outer with
  | nil => rfl
  | declare _ _ _ ih => exact (nodesRedeclared_line _ _ _).trans (ih outer)
  | @function _ name params body _ inner _ inside _ ihInner ih =>
    have closing : nodeNames (closingNodes body) = [] ∧
        ∀ outer, nodesRedeclared outer (closingNodes body) = [] := by
      unfold closingNodes
      split
      · exact ⟨rfl, fun _ => rfl⟩
      · exact ⟨rfl, fun _ => nodesRedeclared_line _ _ _⟩
    have block : Node.redeclared (outer.map identifier)
        (.block (functionHead name params) (inner ++ closingNodes body)) =
          (stmtsRedeclared (params.map (·.name.lexeme) ++ stmtNames body) body).map identifier := by
      rw [Node.redeclared, functionHead?_functionHead]
      show nodesRedeclared (_ ++ nodeNames (inner ++ closingNodes body)) _ = _
      rw [nodeNames_append, closing.1, List.append_nil, nodesRedeclared_append, closing.2,
        List.append_nil, inside.names, ← ihInner, List.map_append, List.map_map]
      rfl
    rw [Node.headed, List.cons_append, List.cons_append, List.nil_append, nodesRedeclared_line,
      nodesRedeclared, block, ih, stmtsRedeclared, List.map_append, Stmt.redeclared]
  | @conditional _ _ code yes no _ first second _ _ branch other _ ihYes ihNo ih =>
    have condition : functionHead? ("if (" ++ code ++ ")") = none := by
      rw [List.append_assoc]
      rfl
    have otherwise : nodesRedeclared (outer.map identifier) (elseNodes no second) =
        ((stmtNames no).filter (writtenIn outer) ++
          stmtsRedeclared (outer ++ stmtNames no) no).map identifier := by
      unfold elseNodes
      split
      · rename_i empty
        obtain rfl := List.isEmpty_iff.mp empty
        rfl
      · exact nodesRedeclared_plain rfl other.names ihNo outer
    rw [nodesRedeclared_append, nodesRedeclared_append,
      nodesRedeclared_plain condition branch.names ihYes outer, otherwise, ih, stmtsRedeclared,
      Stmt.redeclared, ← List.map_append, ← List.map_append]
    simp only [List.append_assoc]
  | @loop _ body _ inner _ inside _ ihInner ih =>
    rw [nodesRedeclared_append, nodesRedeclared_plain rfl inside.names ihInner outer, ih,
      stmtsRedeclared, Stmt.redeclared, ← List.map_append]
  | print _ _ ih => exact (nodesRedeclared_line _ _ _).trans (ih outer)
  | returns _ _ ih => exact (nodesRedeclared_line _ _ _).trans (ih outer)
  | assign _ _ ih => exact (nodesRedeclared_line _ _ _).trans (ih outer)
  | breaks _ ih => exact (nodesRedeclared_line _ _ _).trans (ih outer)
  | perform _ _ _ ih => exact (nodesRedeclared_line _ _ _).trans (ih outer)

/-- The unit around a program declares nothing. -/
theorem redeclared_unit (options : Options) (nodes : List Node) :
    nodesRedeclared [] (unitNodes options nodes) = nodesRedeclared (nodeNames nodes) nodes := by
  have plain : ∀ (head : Text) (inner : List Node), functionHead? head = none →
      nodesRedeclared [] (Node.headed head inner) = nodesRedeclared (nodeNames inner) inner := by
    intro head inner other
    have block : Node.redeclared [] (.block head inner) =
        (nodeNames inner).filter (List.contains []) ++
          nodesRedeclared ([] ++ nodeNames inner) inner := by
      rw [Node.redeclared, other]
    have none : (nodeNames inner).filter (List.contains []) = [] :=
      List.filter_eq_nil_iff.mpr fun _ _ => Bool.false_ne_true
    rw [Node.headed, nodesRedeclared_line, nodesRedeclared, nodesRedeclared, block, none,
      List.nil_append, List.nil_append, List.append_nil]
  have space : functionHead? ("namespace " ++ options.space) = none := rfl
  have type : functionHead? ("public class " ++ options.className) = none := rfl
  have typeNames : nodeNames (Node.headed ("public class " ++ options.className)
      (Node.headed "public static void Main()" nodes)) = [] := rfl
  have mainNames : nodeNames (Node.headed "public static void Main()" nodes) = [] := rfl
  rw [unitNodes, nodesRedeclared_line, nodesRedeclared_line, plain _ _ space, typeNames,
    plain _ _ type, mainNames, plain _ _ rfl]

end Code

/-- **Code generation keeps redeclarations.** For every accepted source, the identifiers that blocks
of the code declare although a block around them in the same function does are those of the names
that scopes of the source declare although a scope around them in the same function does. So a code
without any is that of a source without any. -/
theorem compile_keeps_redeclarations {options : Options} {source code : Text}
    (plain : options.Braceless) (tidy : options.Tidy)
    (accepted : (compile options source).outcome = .ok code) :
    ∃ p nodes, Program.ofSource source = .ok p ∧ readBlocks code = some nodes ∧
      nodesRedeclared [] nodes = p.redeclared.map identifier := by
  obtain ⟨p, nodes, read, writes, blocks⟩ := exists_nodes plain tidy accepted
  refine ⟨p, _, read, blocks, ?_⟩
  calc nodesRedeclared [] (unitNodes options.withDefaults nodes)
      = nodesRedeclared (nodeNames nodes) nodes := redeclared_unit _ nodes
    _ = (Program.redeclared p.resolve.tree).map identifier := by
      rw [writes.names, writes.redeclared, Program.redeclared]
    _ = p.redeclared.map identifier := by rw [redeclared_resolve]

/-- A parameter is declared again in a branch and a function in a loop; a parameter does not count
against a name outside of its function. -/
theorem compile_keeps_redeclarations_parameter :
    let source : Text :=
      "吾有一數曰「a」也有術曰「f」必先得一數曰「a」若真者吾有一言曰「a」也吾有一數曰「b」也云云之術也恆為是吾有一列曰「f」也云云"
    ∃ code nodes, Options.blank.Braceless ∧ Options.blank.Tidy ∧
      (compile .blank source).outcome = .ok code ∧ readBlocks code = some nodes ∧
      nodesRedeclared [] nodes = ["a", "f"] := by
  intro source
  have scanned : Token.tokenize source =
      [⟨.declare, "吾有", 1, 1⟩, ⟨.numberType, "一數", 1, 3⟩, ⟨.named, "曰", 1, 5⟩,
       ⟨.string, "a", 1, 6⟩, ⟨.close, "也", 1, 9⟩, ⟨.function, "有術", 1, 10⟩,
       ⟨.named, "曰", 1, 12⟩, ⟨.string, "f", 1, 13⟩, ⟨.params, "必先得", 1, 16⟩,
       ⟨.numberType, "一數", 1, 19⟩, ⟨.named, "曰", 1, 21⟩, ⟨.string, "a", 1, 22⟩,
       ⟨.whether, "若", 1, 25⟩, ⟨.identifier, "真", 1, 26⟩, ⟨.thereupon, "者", 1, 27⟩,
       ⟨.declare, "吾有", 1, 28⟩, ⟨.stringType, "一言", 1, 30⟩, ⟨.named, "曰", 1, 32⟩,
       ⟨.string, "a", 1, 33⟩, ⟨.close, "也", 1, 36⟩, ⟨.declare, "吾有", 1, 37⟩,
       ⟨.numberType, "一數", 1, 39⟩, ⟨.named, "曰", 1, 41⟩, ⟨.string, "b", 1, 42⟩,
       ⟨.close, "也", 1, 45⟩, ⟨.blockEnd, "云云", 1, 46⟩, ⟨.functionEnd, "之術也", 1, 48⟩,
       ⟨.loop, "恆為是", 1, 51⟩, ⟨.declare, "吾有", 1, 54⟩, ⟨.listType, "一列", 1, 56⟩,
       ⟨.named, "曰", 1, 58⟩, ⟨.string, "f", 1, 59⟩, ⟨.close, "也", 1, 62⟩,
       ⟨.blockEnd, "云云", 1, 63⟩, ⟨.eof, [], 1, 65⟩] := by
    decide +kernel
  obtain ⟨p, read, resolved, again⟩ : ∃ p, Program.ofSource source = .ok p ∧
      p.resolve.fault = none ∧ p.redeclared.map identifier = ["a", "f"] := by
    refine ⟨[
      .declare ⟨.declare, "吾有", 1, 1⟩ ⟨.numberType, "一數", 1, 3⟩ ⟨.string, "a", 1, 6⟩ none,
      .function ⟨.function, "有術", 1, 10⟩ ⟨.string, "f", 1, 13⟩
        [⟨⟨.numberType, "一數", 1, 19⟩, ⟨.string, "a", 1, 22⟩⟩]
        [.conditional ⟨.whether, "若", 1, 25⟩ (.use ⟨.identifier, "真", 1, 26⟩ none)
          [.declare ⟨.declare, "吾有", 1, 28⟩ ⟨.stringType, "一言", 1, 30⟩ ⟨.string, "a", 1, 33⟩ none,
           .declare ⟨.declare, "吾有", 1, 37⟩ ⟨.numberType, "一數", 1, 39⟩ ⟨.string, "b", 1, 42⟩ none]
          []],
      .loop ⟨.loop, "恆為是", 1, 51⟩
        [.declare ⟨.declare, "吾有", 1, 54⟩ ⟨.listType, "一列", 1, 56⟩ ⟨.string, "f", 1, 59⟩ none]],
      ?_, ?_, ?_⟩
    · rw [Program.ofSource, scanned]
      with_unfolding_all rfl
    · decide
    · decide
  obtain ⟨code, accepted⟩ := exists_compile .blank read resolved
  obtain ⟨p', nodes, read', blocks, same⟩ :=
    compile_keeps_redeclarations Options.braceless_blank Options.tidy_blank accepted
  obtain rfl : p = p' := Except.ok.inj (read.symm.trans read')
  exact ⟨code, nodes, Options.braceless_blank, Options.tidy_blank, accepted, blocks,
    same.trans again⟩

/-- **An accepted source whose code declares an identifier again:** a name of the program, in a
branch. -/
theorem compile_redeclares :
    ¬ ∀ (source code : Text) (nodes : List Node), (compile .blank source).outcome = .ok code →
      readBlocks code = some nodes → nodesRedeclared [] nodes = [] := by
  intro never
  have scanned : Token.tokenize "吾有一數曰「a」也若真者吾有一數曰「a」也云云" =
      [⟨.declare, "吾有", 1, 1⟩, ⟨.numberType, "一數", 1, 3⟩, ⟨.named, "曰", 1, 5⟩,
       ⟨.string, "a", 1, 6⟩, ⟨.close, "也", 1, 9⟩, ⟨.whether, "若", 1, 10⟩,
       ⟨.identifier, "真", 1, 11⟩, ⟨.thereupon, "者", 1, 12⟩, ⟨.declare, "吾有", 1, 13⟩,
       ⟨.numberType, "一數", 1, 15⟩, ⟨.named, "曰", 1, 17⟩, ⟨.string, "a", 1, 18⟩,
       ⟨.close, "也", 1, 21⟩, ⟨.blockEnd, "云云", 1, 22⟩, ⟨.eof, [], 1, 24⟩] := by
    decide +kernel
  obtain ⟨p, read, resolved, again⟩ : ∃ p,
      Program.ofSource "吾有一數曰「a」也若真者吾有一數曰「a」也云云" = .ok p ∧
        p.resolve.fault = none ∧ Program.redeclared p.resolve.tree = ["a"] := by
    refine ⟨[
      .declare ⟨.declare, "吾有", 1, 1⟩ ⟨.numberType, "一數", 1, 3⟩ ⟨.string, "a", 1, 6⟩ none,
      .conditional ⟨.whether, "若", 1, 10⟩ (.use ⟨.identifier, "真", 1, 11⟩ none)
        [.declare ⟨.declare, "吾有", 1, 13⟩ ⟨.numberType, "一數", 1, 15⟩ ⟨.string, "a", 1, 18⟩ none]
        []], ?_, ?_, ?_⟩
    · rw [Program.ofSource, scanned]
      with_unfolding_all rfl
    · decide
    · decide
  obtain ⟨code, accepted⟩ := exists_compile .blank read resolved
  obtain ⟨p', nodes, read', writes, blocks⟩ :=
    exists_nodes Options.braceless_blank Options.tidy_blank accepted
  obtain rfl : p = p' := Except.ok.inj (read.symm.trans read')
  have none := never _ code _ accepted blocks
  rw [redeclared_unit, writes.names, writes.redeclared] at none
  rw [Program.redeclared] at again
  rw [again] at none
  cases none

end Guwen
