/-
**Blocks: the brace structure of code.**

A reader of the C# text alone. A brace on a line of its own opens or closes a block, and the line
before an opening brace is the head of its block; any other line has to close the braces it opens.
So a text is a list of lines and blocks, with lines and blocks inside (`Node`).

* `readBlocks` reads a text.
* `Shapes` relates laid marks to nodes; **`Shapes.read`** — a text laid out from marks is read as
  the nodes of the marks.
* `Writes` says which nodes stand for which statements; **`exists_nodes`** — the code of an accepted
  source is read as the nodes of its statements, inside the unit around them.
-/
import Guwen.Proofs.Compilation.Nesting

namespace Guwen

namespace Code

/-! ### Reading blocks -/

/-- **A line of code without its indentation, or a block with its head.** The head is also a line of
its own, before the block. -/
inductive Node where
  | line (code : Text)
  | block (head : Text) (inner : List Node)

/-- A line and the block it introduces. -/
def Node.headed (head : Text) (inner : List Node) : List Node := [.line head, .block head inner]

/-- **What has been read so far:** the nodes of the innermost open block, and for each open block
its head and the nodes around it. -/
structure Reader where
  nodes : List Node
  opened : List (Text × List Node)

namespace Reader

/-- Nothing read. -/
def start : Reader := ⟨[], []⟩

/-- The head of a block that opens here. -/
def head? (r : Reader) : Option Text :=
  match r.nodes.getLast? with
  | some (.line code) => some code
  | _ => none

/-- **One more line.** A block needs a head, and a brace that closes needs one to answer. -/
def step (r : Reader) (line : Text) : Option Reader :=
  let code := line.dropWhile isBlankByte
  if code = [] then some r
  else if code = ("\x7b" : Text) then r.head?.map fun head => ⟨[], (head, r.nodes) :: r.opened⟩
  else if code = ("\x7d" : Text) then
    match r.opened with
    | [] => none
    | (head, around) :: opened => some ⟨around ++ [.block head r.nodes], opened⟩
  else if depthAfter? 0 code = some 0 then some { r with nodes := r.nodes ++ [.line code] }
  else none

end Reader

/-- **The nodes of a text,** if its braces stand as they should. -/
def readBlocks (code : Text) : Option (List Node) := do
  let r ← (List.splitOn 10 code).foldlM Reader.step .start
  if r.opened.isEmpty then some r.nodes else none

/-- **The name and the parameters of a function,** by the head of its block. -/
def functionHead? (head : Text) : Option (Text × List Text) :=
  match classify (lex head) with
  | .head name params => some (name, params)
  | _ => none

/-! ### Laid marks -/

/-- **The nodes of marks.** -/
inductive Shapes : List Mark → List Node → Prop where
  | nil : Shapes [] []
  | gap {marks : List Mark} {nodes : List Node} (rest : Shapes marks nodes) :
      Shapes (.line [] :: marks) nodes
  | line {code : Text} {marks : List Mark} {nodes : List Node} (tidy : Tidy code)
      (rest : Shapes marks nodes) : Shapes (.line code :: marks) (.line code :: nodes)
  | block {head : Text} {inner marks : List Mark} {inside nodes : List Node} (tidy : Tidy head)
      (within : Shapes inner inside) (rest : Shapes marks nodes) :
      Shapes (.line head :: (Mark.enclose inner ++ marks)) (Node.headed head inside ++ nodes)

namespace Shapes

variable {marks more : List Mark} {nodes others : List Node}

theorem append (first : Shapes marks nodes) (second : Shapes more others) :
    Shapes (marks ++ more) (nodes ++ others) := by
  induction first with
  | nil => exact second
  | gap _ ih => exact .gap ih
  | line tidy _ ih => exact .line tidy ih
  | block tidy within _ _ ih =>
    rw [List.cons_append, List.append_assoc, List.append_assoc]
    exact .block tidy within ih

theorem single {code : Text} (tidy : Tidy code) : Shapes [.line code] [.line code] :=
  .line tidy .nil

theorem headed {head : Text} (tidy : Tidy head) (inner : Shapes marks nodes) :
    Shapes (.line head :: Mark.enclose marks) (Node.headed head nodes) := by
  have whole := block tidy inner .nil
  rwa [List.append_nil, List.append_nil] at whole

theorem laid (shapes : Shapes marks nodes) : Laid marks := by
  induction shapes with
  | nil => exact .nil
  | gap _ ih => exact .line (.inl rfl) ih
  | line tidy _ ih => exact .line (.inr tidy) ih
  | block tidy _ _ within rest => exact .line (.inr tidy) (.block within rest)

end Shapes

/-! ### Reading laid marks -/

section

variable {before code head : Text} {r : Reader} {nodes around : List Node}
  {opened : List (Text × List Node)}

theorem dropWhile_blank (blank : ∀ b ∈ before, isBlankByte b = true)
    (shows : code.head?.any isBlankByte = false) :
    (before ++ code).dropWhile isBlankByte = code := by
  rw [List.dropWhile_append_of_pos blank]
  cases code with
  | nil => rfl
  | cons b code => exact List.dropWhile_cons_of_neg (by simpa using shows)

theorem not_blank_of_shows (starts : code.head?.any showsByte = true) :
    code.head?.any isBlankByte = false := by
  cases code with
  | nil => rfl
  | cons b code =>
    simp only [List.head?_cons, Option.any_some, showsByte, Bool.or_eq_true, Bool.and_eq_true,
      decide_eq_true_eq, beq_iff_eq, bne_iff_ne, UInt8.le_iff_toNat_le, UInt8.reduceToNat] at starts
    simp only [List.head?_cons, Option.any_some, isBlankByte, Bool.or_eq_false_iff,
      beq_eq_false_iff_ne]
    refine ⟨?_, ?_⟩ <;> rintro rfl <;> simp at starts

namespace Reader

theorem step_gap (blank : ∀ b ∈ before, isBlankByte b = true) : r.step before = some r := by
  have gone : before.dropWhile isBlankByte = [] := by
    have all : (before ++ []).dropWhile isBlankByte = [] := dropWhile_blank blank rfl
    rwa [List.append_nil] at all
  unfold step
  dsimp only
  rw [gone, if_pos rfl]

theorem step_line (blank : ∀ b ∈ before, isBlankByte b = true) (tidy : Tidy code) :
    r.step (before ++ code) = some { r with nodes := r.nodes ++ [.line code] } := by
  obtain ⟨⟨-, balanced⟩, starts⟩ := tidy
  have some_byte : code ≠ [] := by
    rintro rfl
    cases starts
  -- An opening brace would leave its block open.
  have no_open : code ≠ ("\x7b" : Text) := by
    rintro rfl
    exact absurd (balanced 0) (by decide)
  have no_close : code ≠ ("\x7d" : Text) := (shows_of_starts starts).2
  unfold step
  dsimp only
  rw [dropWhile_blank blank (not_blank_of_shows starts), if_neg some_byte, if_neg no_open,
    if_neg no_close, if_pos (balanced 0)]

theorem step_open (blank : ∀ b ∈ before, isBlankByte b = true) :
    step ⟨nodes ++ [.line head], opened⟩ (before ++ ("\x7b" : Text)) =
      some ⟨[], (head, nodes ++ [.line head]) :: opened⟩ := by
  unfold step
  dsimp only
  rw [dropWhile_blank blank (by decide), if_neg (by decide), if_pos rfl, Reader.head?,
    List.getLast?_concat]
  rfl

theorem step_close (blank : ∀ b ∈ before, isBlankByte b = true) :
    step ⟨nodes, (head, around) :: opened⟩ (before ++ ("\x7d" : Text)) =
      some ⟨around ++ [.block head nodes], opened⟩ := by
  unfold step
  dsimp only
  rw [dropWhile_blank blank (by decide), if_neg (by decide), if_neg (by decide), if_pos rfl]

end Reader

end

/-- **The lines of marks are read as the nodes of the marks,** whatever was read before. -/
theorem Shapes.fold {indent : Text} (blank : ∀ b ∈ indent, isBlankByte b = true)
    {marks : List Mark} {nodes : List Node} (shapes : Shapes marks nodes) (level : Nat)
    (before : List Node) (opened : List (Text × List Node)) :
    (Mark.lines indent level marks).foldlM Reader.step ⟨before, opened⟩ =
      some ⟨before ++ nodes, opened⟩ := by
  have margin : ∀ n, ∀ b ∈ Text.replicate n indent, isBlankByte b = true := by
    intro n b member
    obtain ⟨copy, inside, here⟩ := List.mem_flatten.mp member
    exact blank b (List.eq_of_mem_replicate inside ▸ here)
  have written : ∀ {code : Text}, Tidy code → ∀ level,
      Mark.lineOf indent level (.line code) = Text.replicate level indent ++ code := by
    intro code tidy level
    have some : code.isEmpty = false := by
      cases code with
      | nil => cases tidy.starts
      | cons => rfl
    simp [Mark.lineOf, some]
  induction shapes generalizing level before opened with
  | nil => rw [List.append_nil]; rfl
  | gap _ ih =>
    have empty : Mark.lineOf indent level (.line []) = [] := rfl
    rw [Mark.lines, List.foldlM_cons, empty,
      Reader.step_gap fun b member => absurd member List.not_mem_nil]
    exact ih level before opened
  | line tidy _ ih =>
    rw [Mark.lines, List.foldlM_cons, written tidy, Reader.step_line (margin level) tidy]
    refine (ih level _ opened).trans ?_
    rw [List.append_assoc, List.singleton_append]
  | @block head inner marks inside nodes tidy within _ ihInner ihRest =>
    have lines : Mark.lines indent level (.line head :: (Mark.enclose inner ++ marks)) =
        (Text.replicate level indent ++ head) :: (Text.replicate level indent ++ ("\x7b" : Text)) ::
          (Mark.lines indent (level + 1) inner ++
            (Text.replicate level indent ++ ("\x7d" : Text)) :: Mark.lines indent level marks) := by
      rw [Mark.lines, written tidy, Mark.enclose, List.cons_append, List.cons_append,
        List.append_assoc, Mark.lines, lines_append]
      show _ :: _ :: (_ ++ Mark.lines indent (inner.foldl Mark.levelAfter (level + 1)) _) = _
      rw [within.laid.level]
      rfl
    rw [lines, List.foldlM_cons, Reader.step_line (margin level) tidy]
    show List.foldlM Reader.step _ _ = _
    rw [List.foldlM_cons, Reader.step_open (margin level)]
    show List.foldlM Reader.step _ _ = _
    rw [List.foldlM_append, ihInner (level + 1)]
    show List.foldlM Reader.step _ _ = _
    rw [List.foldlM_cons, List.nil_append, Reader.step_close (margin level)]
    refine (ihRest level _ opened).trans ?_
    simp [Node.headed]

/-- **A text laid out from marks is read as the nodes of the marks.** -/
theorem Shapes.read {indent : Text} (blank : ∀ b ∈ indent, isBlankByte b = true)
    {marks : List Mark} {nodes : List Node} (shapes : Shapes marks nodes) :
    readBlocks (Mark.layout indent 0 marks) = some nodes := by
  have plain : IsBraceless indent := by
    intro b member
    have gap := blank b member
    refine ⟨?_, ?_, ?_⟩ <;> rintro rfl <;> exact absurd gap (by decide)
  have single := (shapes.laid.indented plain 0).oneLine
  have lines : List.splitOn 10 (Mark.layout indent 0 marks) =
      Mark.lines indent 0 marks ++ [[]] := by
    rw [layout_eq, split_flatMap,
      List.flatMap_congr fun line member => List.splitOn_eq_singleton (single line member),
      List.flatMap_singleton']
  unfold readBlocks
  rw [lines, List.foldlM_append, Reader.start, shapes.fold blank 0 [] []]
  rfl

/-! ### The nodes of statements -/

/-- The head of a function. -/
def functionHead (name : Token) (params : List Param) : Text :=
  "dynamic " ++ identifier name.lexeme ++ "(" ++ Text.join ", " (params.map Param.code) ++ ")"

theorem functionHead?_functionHead (name : Token) (params : List Param) :
    functionHead? (functionHead name params) =
      some (identifier name.lexeme, params.map fun p => identifier p.name.lexeme) := by
  unfold functionHead? functionHead
  rw [classify_head]

/-- What a function returns when its last statement does not. -/
def closingNodes (body : List Stmt) : List Node :=
  if body.getLast?.any Stmt.isReturn then [] else [.line "return null;"]

/-- The other branch of a conditional, if there is one. -/
def elseNodes (no : List Stmt) (inner : List Node) : List Node :=
  if no.isEmpty then [] else Node.headed "else" inner

/-- **The nodes that stand for statements.** -/
inductive Writes : List Stmt → List Node → Prop where
  | nil : Writes [] []
  | declare {k type name : Token} {value : Option Expr} {code : Text} {ss : List Stmt}
      {nodes : List Node} (legible : optionLegible value)
      (written : optionCode (defaultOf (typeOf type.lexeme)) value = .ok code)
      (rest : Writes ss nodes) :
      Writes (.declare k type name value :: ss)
        (.line (typeOf type.lexeme ++ " " ++ identifier name.lexeme ++ " = " ++ code ++ ";") ::
          nodes)
  | function {k name : Token} {params : List Param} {body ss : List Stmt} {inner nodes : List Node}
      (inside : Writes body inner) (rest : Writes ss nodes) :
      Writes (.function k name params body :: ss)
        (Node.headed (functionHead name params) (inner ++ closingNodes body) ++ nodes)
  | conditional {k : Token} {e : Expr} {code : Text} {yes no ss : List Stmt}
      {first second nodes : List Node} (written : e.code = .ok code) (branch : Writes yes first)
      (other : Writes no second) (rest : Writes ss nodes) :
      Writes (.conditional k e yes no :: ss)
        (Node.headed ("if (" ++ code ++ ")") first ++ (elseNodes no second ++ nodes))
  | loop {k : Token} {body ss : List Stmt} {inner nodes : List Node} (inside : Writes body inner)
      (rest : Writes ss nodes) :
      Writes (.loop k body :: ss) (Node.headed "while (true)" inner ++ nodes)
  | print {k : Token} {e : Expr} {code : Text} {ss : List Stmt} {nodes : List Node}
      (written : e.code = .ok code) (rest : Writes ss nodes) :
      Writes (.print k e :: ss) (.line ("Console.WriteLine(" ++ code ++ ");") :: nodes)
  | returns {k : Token} {value : Option Expr} {code : Text} {ss : List Stmt} {nodes : List Node}
      (written : optionCode "null" value = .ok code) (rest : Writes ss nodes) :
      Writes (.returns k value :: ss) (.line ("return " ++ code ++ ";") :: nodes)
  | assign {name : Token} {e : Expr} {code : Text} {ss : List Stmt} {nodes : List Node}
      (written : e.code = .ok code) (rest : Writes ss nodes) :
      Writes (.assign name e :: ss)
        (.line (identifier name.lexeme ++ " = " ++ code ++ ";") :: nodes)
  | breaks {k : Token} {ss : List Stmt} {nodes : List Node} (rest : Writes ss nodes) :
      Writes (.breaks k :: ss) (.line "break;" :: nodes)
  | perform {k : Token} {e : Expr} {code : Text} {ss : List Stmt} {nodes : List Node}
      (legible : e.Legible) (written : e.code = .ok code) (rest : Writes ss nodes) :
      Writes (.perform k e :: ss) (.line (code ++ ";") :: nodes)

theorem shapes_closing (body : List Stmt) : Shapes (closingReturn body) (closingNodes body) := by
  unfold closingReturn closingNodes
  split
  · exact .nil
  · exact .single (tidy_of_braceless (by decide) rfl)

/-- The first line of laid marks is tidy, if it ends in something. -/
theorem Laid.tidy {code last : Text} {marks : List Mark}
    (laid : Laid (.line (code ++ last) :: marks)) (some : last ≠ []) : Tidy (code ++ last) := by
  generalize whole : Mark.line (code ++ last) :: marks = all at laid
  cases laid with
  | nil => cases whole
  | line tidy _ =>
    cases whole
    exact tidy.resolve_left (List.append_ne_nil_of_right_ne_nil code some)
  | block => cases whole

end Code

section

open Code

mutual

/-- **The nodes of a statement,** and of those that follow it. -/
theorem Stmt.exists_nodes : ∀ s : Stmt, s.Legible → ∀ marks, s.marks = .ok marks →
    ∃ nodes, Shapes marks nodes ∧ ∀ ss more, Writes ss more → Writes (s :: ss) (nodes ++ more)
  | .declare k type name value, legible, marks, written => by
    have laid := Stmt.laid_marks _ legible marks written
    rw [Stmt.marks] at written
    obtain ⟨code, codeWritten, written⟩ := bind_eq_ok.mp written
    cases written
    exact ⟨_, .single (laid.tidy (by decide)), fun _ _ => .declare legible codeWritten⟩
  | .function k name params body, legible, marks, written => by
    have laid := Stmt.laid_marks _ legible marks written
    rw [Stmt.marks] at written
    obtain ⟨inner, innerWritten, written⟩ := bind_eq_ok.mp written
    cases written
    obtain ⟨nodes, shapes, writes⟩ := exists_stmtNodes body legible inner innerWritten
    exact ⟨_, (shapes.append (shapes_closing body)).headed (laid.tidy (by decide)),
      fun _ _ => .function writes⟩
  | .conditional k e yes no, legible, marks, written => by
    obtain ⟨first, second, third⟩ := legible
    rw [Stmt.marks] at written
    obtain ⟨code, codeWritten, written⟩ := bind_eq_ok.mp written
    obtain ⟨yesMarks, yesWritten, written⟩ := bind_eq_ok.mp written
    have head : Tidy ("if (" ++ code ++ ")") :=
      (e.tidy_code first code codeWritten).between (by decide) rfl (by decide)
    obtain ⟨yesNodes, yesShapes, yesWrites⟩ := exists_stmtNodes yes second yesMarks yesWritten
    by_cases empty : no.isEmpty = true
    · rw [if_pos empty] at written
      cases written
      obtain rfl := List.isEmpty_iff.mp empty
      exact ⟨_, yesShapes.headed head, fun ss more => .conditional codeWritten yesWrites .nil⟩
    · rw [if_neg empty] at written
      obtain ⟨noMarks, noWritten, written⟩ := bind_eq_ok.mp written
      cases written
      obtain ⟨noNodes, noShapes, noWrites⟩ := exists_stmtNodes no third noMarks noWritten
      have otherwise : Tidy "else" := tidy_of_braceless (by decide) rfl
      refine ⟨_, (yesShapes.headed head).append (noShapes.headed otherwise), fun ss more rest => ?_⟩
      have whole := Writes.conditional (k := k) codeWritten yesWrites noWrites rest
      rwa [elseNodes, if_neg empty, ← List.append_assoc] at whole
  | .loop k body, legible, marks, written => by
    rw [Stmt.marks] at written
    obtain ⟨inner, innerWritten, written⟩ := bind_eq_ok.mp written
    cases written
    obtain ⟨nodes, shapes, writes⟩ := exists_stmtNodes body legible inner innerWritten
    exact ⟨_, shapes.headed (tidy_of_braceless (by decide) rfl), fun _ _ => .loop writes⟩
  | .print k e, legible, marks, written => by
    have laid := Stmt.laid_marks _ legible marks written
    rw [Stmt.marks] at written
    obtain ⟨code, codeWritten, written⟩ := bind_eq_ok.mp written
    cases written
    exact ⟨_, .single (laid.tidy (by decide)), fun _ _ => .print codeWritten⟩
  | .returns k value, legible, marks, written => by
    have laid := Stmt.laid_marks _ legible marks written
    rw [Stmt.marks] at written
    obtain ⟨code, codeWritten, written⟩ := bind_eq_ok.mp written
    cases written
    exact ⟨_, .single (laid.tidy (by decide)), fun _ _ => .returns codeWritten⟩
  | .assign name e, legible, marks, written => by
    have laid := Stmt.laid_marks _ legible marks written
    rw [Stmt.marks] at written
    obtain ⟨code, codeWritten, written⟩ := bind_eq_ok.mp written
    cases written
    exact ⟨_, .single (laid.tidy (by decide)), fun _ _ => .assign codeWritten⟩
  | .breaks k, _, marks, written => by
    rw [Stmt.marks] at written
    cases written
    exact ⟨_, .single (tidy_of_braceless (by decide) rfl), fun _ _ => .breaks⟩
  | .perform k e, legible, marks, written => by
    have laid := Stmt.laid_marks _ legible marks written
    rw [Stmt.marks] at written
    obtain ⟨code, codeWritten, written⟩ := bind_eq_ok.mp written
    cases written
    exact ⟨_, .single (laid.tidy (by decide)), fun _ _ => .perform legible codeWritten⟩
  | .param _, legible, _, _ => legible.elim
  | .missing, legible, _, _ => legible.elim

/-- **The nodes of statements.** -/
theorem exists_stmtNodes : ∀ ss : List Stmt, stmtsLegible ss → ∀ marks, stmtMarks ss = .ok marks →
    ∃ nodes, Shapes marks nodes ∧ Writes ss nodes
  | [], _, marks, written => by
    cases written
    exact ⟨[], .nil, .nil⟩
  | s :: ss, legible, marks, written => by
    rw [stmtMarks] at written
    obtain ⟨first, firstWritten, written⟩ := bind_eq_ok.mp written
    obtain ⟨rest, restWritten, written⟩ := bind_eq_ok.mp written
    cases written
    obtain ⟨nodes, shapes, writes⟩ := s.exists_nodes legible.1 first firstWritten
    obtain ⟨more, moreShapes, moreWrites⟩ := exists_stmtNodes ss legible.2 rest restWritten
    exact ⟨_, shapes.append moreShapes, writes ss more moreWrites⟩

end

/-! ### The unit around a program -/

/-- The nodes of a unit around those of a program. -/
def Code.unitNodes (options : Options) (inner : List Node) : List Node :=
  .line "using System;" :: .line "using System.Collections.Generic;" ::
    Node.headed ("namespace " ++ options.space)
      (Node.headed ("public class " ++ options.className)
        (Node.headed "public static void Main()" inner))

/-- **The code of an accepted source is read as the nodes of its statements,** inside the unit
around them. -/
theorem exists_nodes {options : Options} {source code : Text} (plain : options.Braceless)
    (tidy : options.Tidy) (accepted : (compile options source).outcome = .ok code) :
    ∃ p nodes, Program.ofSource source = .ok p ∧ Writes p.resolve.tree nodes ∧
      readBlocks code = some (unitNodes options.withDefaults nodes) := by
  obtain ⟨p, inner, read, -, written, -, rfl⟩ := exists_marks accepted
  have legible : stmtsLegible p.resolve.tree := by
    rw [legible_resolve]
    exact legible_of_ofSource read
  obtain ⟨nodes, shapes, writes⟩ := exists_stmtNodes _ legible inner written
  refine ⟨p, nodes, read, writes, Shapes.read tidy.withDefaults.indent ?_⟩
  have main : Tidy "public static void Main()" := tidy_of_braceless (by decide) rfl
  have unit : Tidy ("public class " ++ options.withDefaults.className) :=
    (tidy_of_braceless (by decide) rfl).append plain.withDefaults.className.flat
  have space : Tidy ("namespace " ++ options.withDefaults.space) :=
    (tidy_of_braceless (by decide) rfl).append plain.withDefaults.space.flat
  have first : Tidy "using System;" := tidy_of_braceless (by decide) rfl
  have second : Tidy "using System.Collections.Generic;" := tidy_of_braceless (by decide) rfl
  exact .line first (.line second (.gap (((shapes.headed main).headed unit).headed space)))

end

end Guwen
