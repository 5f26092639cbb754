/-
**The listing shows every declaration, in the order of the source.**

What a program declares can be read off the tree alone: each variable, function and parameter once,
in pre-order, with the regions of the tree that it stands in. The walk finds its symbols on the way,
with the number of open blocks as their depth.

* `Program.declarations` — the declarations of a tree in pre-order: a function before its
  parameters, these before the body, the branch that is taken before the other.
* `along_symbol?` — in a run without a fault the declared symbols hang on the depth alone.
* `declaredFrom_stmtActs` — the acts of a tree declare the declarations of the tree.
* **`listing_shows_declarations`** — the listing of a sound program has one line for each of its
  declarations.
-/
import Guwen.Proofs.Resolution.Marks
import Guwen.Proofs.Resolution.Visibility

namespace Guwen

/-! ### The declarations of a tree -/

/-- **A part of a program with names of its own.** -/
inductive Region where
  /-- The parameters and the body of a function. -/
  | function
  /-- What a conditional does if its condition holds. -/
  | yes
  /-- What a conditional does otherwise. -/
  | no
  /-- The body of a loop. -/
  | loop
deriving DecidableEq, Repr

/-- **A declaration** and the regions around it, the innermost first. -/
structure Declaration where
  name : Token
  type : Text
  kind : SymbolKind
  around : List Region
deriving DecidableEq, Repr

namespace Declaration

/-- The symbol of a declaration. -/
def symbol (d : Declaration) : Symbol :=
  ⟨d.name.lexeme, d.type, d.kind, d.around.length, false, d.name.position⟩

/-- **The line of a declaration in the listing.** -/
def line (d : Declaration) : Text :=
  "[" ++ d.kind.text ++ "] " ++ d.name.lexeme ++ " " ++ d.type ++ " depth "
    ++ Text.ofNat d.around.length ++ " (" ++ Text.ofInt d.name.position.line ++ ":"
    ++ Text.ofInt d.name.position.column ++ ")\n"

end Declaration

/-- A parameter as a declaration. -/
def Param.declaration (around : List Region) (p : Param) : Declaration :=
  ⟨p.name, p.type.lexeme, .parameter, around⟩

mutual

/-- **The declarations of a statement** that stands in some regions, in pre-order. -/
def Stmt.declarations (around : List Region) : Stmt → List Declaration
  | .declare _ type name _ => [⟨name, type.lexeme, .value, around⟩]
  | .param p => [p.declaration around]
  | .function _ name params body =>
    ⟨name, "函數", .function, around⟩ ::
      (params.map (Param.declaration (.function :: around)) ++
        stmtDeclarations (.function :: around) body)
  | .conditional _ _ yes no =>
    stmtDeclarations (.yes :: around) yes ++ stmtDeclarations (.no :: around) no
  | .loop _ body => stmtDeclarations (.loop :: around) body
  | .print .. | .returns .. | .assign .. | .breaks _ | .perform .. | .missing => []

/-- The declarations of statements. -/
def stmtDeclarations (around : List Region) : List Stmt → List Declaration
  | [] => []
  | s :: ss => s.declarations around ++ stmtDeclarations around ss

end

/-- **The declarations of a program.** -/
def Program.declarations (p : Program) : List Declaration := stmtDeclarations [] p

/-! ### The declarations of acts -/

namespace Act

/-- How many blocks are open behind an act. -/
def depthAfter (depth : Nat) : Act → Nat
  | enter => depth + 1
  | leave => depth - 1
  | _ => depth

/-- The symbol that an act declares when so many blocks are open. -/
def symbolAt? (depth : Nat) : Act → Option Symbol
  | declare name type kind => some ⟨name.lexeme, type, kind, depth, false, name.position⟩
  | _ => none

/-- **An act without a fault** leaves the depth it should, and declares what it should. -/
theorem depth_of_run {scope next : Scope} {act : Act} (ran : act.run scope = .ok next) :
    next.depth = act.depthAfter scope.depth ∧ act.symbol? scope = act.symbolAt? scope.depth := by
  cases act with
  | enter =>
    cases ran
    exact ⟨rfl, rfl⟩
  | leave =>
    cases ran
    exact ⟨List.length_tail, rfl⟩
  | declare name type kind =>
    obtain ⟨-, rfl, declared⟩ := eq_of_run_declare ran
    obtain ⟨-, -, -, -, depth⟩ :=
      scope.exists_outer ⟨name.lexeme, type, kind, scope.depth, false, name.position⟩
    exact ⟨depth, declared⟩
  | use | target | call =>
    obtain rfl := eq_of_run_lookup ran
    exact ⟨rfl, rfl⟩

end Act

/-- **The symbols that acts declare,** the first of them with so many blocks open. -/
def declaredFrom (depth : Nat) : List Act → List Symbol
  | [] => []
  | act :: acts => (act.symbolAt? depth).toList ++ declaredFrom (act.depthAfter depth) acts

/-- **In a run without a fault the declared symbols hang on the depth alone.** -/
theorem along_symbol? {scope next : Scope} {acts : List Act} (ran : walk scope acts = .ok next) :
    along Act.symbol? scope acts = declaredFrom scope.depth acts := by
  induction acts generalizing scope with
  | nil => rfl
  | cons act acts ih =>
    rw [walk_cons, bind_eq_ok] at ran
    obtain ⟨middle, one, ran⟩ := ran
    obtain ⟨depth, symbol⟩ := Act.depth_of_run one
    simp only [along, one]
    rw [ih ran, depth, symbol, declaredFrom]

/-! ### The acts of a tree -/

mutual

theorem Expr.declaredFrom_acts (depth : Nat) (rest : List Act) :
    ∀ e : Expr, declaredFrom depth (e.acts ++ rest) = declaredFrom depth rest
  | .binary _ _ left right => by
    rw [Expr.acts, List.append_assoc, left.declaredFrom_acts, right.declaredFrom_acts]
  | .literal .. => rfl
  | .use .. => rfl
  | .call _ _ arguments _ => declaredFrom_exprActs depth rest arguments
  | .list _ elements => declaredFrom_exprActs depth rest elements
  | .missing => rfl

theorem declaredFrom_exprActs (depth : Nat) (rest : List Act) :
    ∀ es : List Expr, declaredFrom depth (exprActs es ++ rest) = declaredFrom depth rest
  | [] => rfl
  | e :: es => by
    rw [exprActs, List.append_assoc, e.declaredFrom_acts, declaredFrom_exprActs depth rest es]

end

theorem declaredFrom_optionActs (depth : Nat) (rest : List Act) (value : Option Expr) :
    declaredFrom depth (optionActs value ++ rest) = declaredFrom depth rest := by
  cases value with
  | none => rfl
  | some e => exact e.declaredFrom_acts depth rest

theorem declaredFrom_params (around : List Region) (rest : List Act) (params : List Param) :
    declaredFrom around.length (params.map Param.act ++ rest) =
      (params.map (Param.declaration around)).map Declaration.symbol ++
        declaredFrom around.length rest := by
  induction params with
  | nil => rfl
  | cons p ps ih => exact congrArg ((p.declaration around).symbol :: ·) ih

theorem declaredFrom_declare (depth : Nat) (name : Token) (type : Text) (kind : SymbolKind)
    (rest : List Act) : declaredFrom depth (.declare name type kind :: rest) =
      ⟨name.lexeme, type, kind, depth, false, name.position⟩ :: declaredFrom depth rest := rfl

/-- A block is one level deeper than what is behind it. -/
theorem declaredFrom_block (depth : Nat) (inner rest : List Act) :
    declaredFrom depth (blockActs inner ++ rest) =
      declaredFrom (depth + 1) (inner ++ .leave :: rest) := by
  rw [blockActs_append]
  rfl

theorem declaredFrom_leave (depth : Nat) (rest : List Act) :
    declaredFrom (depth + 1) (.leave :: rest) = declaredFrom depth rest := rfl

mutual

/-- **The acts of a statement declare its declarations.** -/
theorem Stmt.declaredFrom_acts : ∀ (around : List Region) (rest : List Act) (s : Stmt),
    declaredFrom around.length (s.acts ++ rest) =
      (s.declarations around).map Declaration.symbol ++ declaredFrom around.length rest
  | around, rest, .declare _ type name value => by
    rw [Stmt.acts, List.append_assoc, declaredFrom_optionActs]
    rfl
  | around, rest, .param p => rfl
  | around, rest, .function _ name params body => by
    have inner := declaredFrom_params (.function :: around)
      (stmtActs body ++ .leave :: rest) params
    rw [declaredFrom_stmtActs (.function :: around) (.leave :: rest) body, List.length_cons,
      declaredFrom_leave] at inner
    rw [Stmt.acts, List.cons_append, declaredFrom_declare, declaredFrom_block, List.append_assoc,
      inner, Stmt.declarations, List.map_cons, List.map_append, List.cons_append,
      List.append_assoc]
    rfl
  | around, rest, .conditional _ condition yes no => by
    have second := declaredFrom_stmtActs (.no :: around) (.leave :: rest) no
    have first := declaredFrom_stmtActs (.yes :: around)
      (.leave :: (blockActs (stmtActs no) ++ rest)) yes
    rw [List.length_cons, declaredFrom_leave] at first second
    rw [declaredFrom_block, second] at first
    rw [Stmt.acts, List.append_assoc, condition.declaredFrom_acts, List.append_assoc,
      declaredFrom_block, first, Stmt.declarations, List.map_append, List.append_assoc]
  | around, rest, .loop _ body => by
    have inner := declaredFrom_stmtActs (.loop :: around) (.leave :: rest) body
    rw [List.length_cons, declaredFrom_leave] at inner
    rw [Stmt.acts, declaredFrom_block, inner, Stmt.declarations]
  | around, rest, .print _ value => value.declaredFrom_acts around.length rest
  | around, rest, .returns _ value => declaredFrom_optionActs around.length rest value
  | around, rest, .assign _ value => value.declaredFrom_acts around.length rest
  | around, rest, .breaks _ => rfl
  | around, rest, .perform _ value => value.declaredFrom_acts around.length rest
  | around, rest, .missing => rfl

/-- **The acts of statements declare their declarations.** -/
theorem declaredFrom_stmtActs : ∀ (around : List Region) (rest : List Act) (ss : List Stmt),
    declaredFrom around.length (stmtActs ss ++ rest) =
      (stmtDeclarations around ss).map Declaration.symbol ++ declaredFrom around.length rest
  | around, rest, [] => rfl
  | around, rest, s :: ss => by
    rw [stmtActs, List.append_assoc, s.declaredFrom_acts around,
      declaredFrom_stmtActs around rest ss, stmtDeclarations, List.map_append, List.append_assoc]

end

/-! ### The main result -/

/-- The symbols of a sound program are those of its declarations. -/
theorem declared_of_resolve {p : Program} (resolved : p.resolve.fault = none) :
    p.resolve.declared = p.declarations.map Declaration.symbol := by
  have complete := complete_of_resolve resolved
  have symbols : p.resolve.declared = along Act.symbol? .initial (stmtActs p) :=
    (runs_stmtActs .initial p complete).symbols
  have acts := declaredFrom_stmtActs [] [] p
  rw [List.append_nil] at acts
  rw [symbols, along_symbol? (walk_of_resolve complete resolved)]
  exact acts.trans (List.append_nil _)

theorem render_symbol (d : Declaration) : d.symbol.render ++ "\n" = d.line := by
  simp only [Symbol.render, Declaration.symbol, Declaration.line, Position.render,
    List.append_assoc]
  rfl

/-- **The listing shows every declaration, in the order of the source.** If a program has no fault,
then its symbols are those of its variables, functions and parameters in pre-order, one for each,
and the depth of each is the number of regions around it; the listing has one line for each, with
the kind, the name, the declared type, the depth and the place of the name. -/
theorem listing_shows_declarations {p : Program} (resolved : p.resolve.fault = none) :
    p.resolve.declared = p.declarations.map Declaration.symbol ∧
    p.resolve.listing = .ok (p.declarations.flatMap Declaration.line) := by
  have declared := declared_of_resolve resolved
  refine ⟨declared, ?_⟩
  rw [Resolved.listing, resolved, declared]
  simp only [Symbol.listing, List.flatMap_map, render_symbol]

/-- A function with a parameter, and a variable in each branch of a conditional inside it: the
parameter has depth one and the variables depth two. -/
theorem listing_shows_declarations_branches :
    let word (kind : TokenKind) (text : String) (column : Int) : Token := ⟨kind, text, 1, column⟩
    let number (name : String) (column : Int) : Stmt :=
      .declare (word .declare "吾有" column) (word .numberType "一數" (column + 2))
        (word .string name (column + 5)) none
    let p : Program := [.function (word .function "有術" 1) (word .string "甲" 4)
      [⟨word .stringType "一言" 10, word .string "乙" 13⟩]
      [.conditional (word .whether "若" 16) (.use (word .identifier "乙" 17) none)
        [number "丙" 19] [number "丁" 31]]]
    p.resolve.fault = none ∧ p.resolve.listing = .ok ("[function] 甲 函數 depth 0 (1:4)\n" ++
      "[parameter] 乙 一言 depth 1 (1:13)\n" ++ "[variable] 丙 一數 depth 2 (1:24)\n" ++
      "[variable] 丁 一數 depth 2 (1:36)\n") := by
  intro word number p
  have resolved : p.resolve.fault = none := by decide
  refine ⟨resolved, (listing_shows_declarations resolved).2.trans (congrArg Except.ok ?_)⟩
  decide +kernel

end Guwen
