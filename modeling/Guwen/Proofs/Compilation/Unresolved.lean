/-
**Code without resolution.**

Generation asks a mark one thing only: whether the name was declared by the program. Without a mark
the name alone decides whether it is a builtin. So a program that was never resolved has the code of
the resolved one, as long as no name in use has taken that of a builtin for itself.

* `stmtMarks_bare` — marks that say no more than the names can be left out.
* `Pictures.redundant_marked` — where no builtin is shadowed, the marks of resolution say no more.
* **`code_without_resolution`** — the bare tree and the resolved tree have the same code.
-/
import Guwen.Proofs.Code.Outline
import Guwen.Proofs.Compilation.Preservation

namespace Guwen

open Code

/-! ### Marks that can be left out -/

/-- **The mark says no more than the name:** without it the same builtin is written, or none. -/
def Act.Redundant (act : Act) : Prop := act.bare.builtin? = act.builtin?

mutual

/-- **An expression has the same code without its marks,** if they say no more than the names. -/
theorem Expr.code_bare : ∀ e : Expr, (∀ act ∈ e.acts, act.Redundant) → e.bare.code = e.code
  | .binary token op left right, redundant => by
    rw [Expr.acts, List.forall_mem_append] at redundant
    rw [Expr.bare, Expr.code, left.code_bare redundant.1, right.code_bare redundant.2, Expr.code]
  | .literal .., _ => rfl
  | .use name mark, redundant => by
    have stands : Builtin.standsFor? name.lexeme none .value =
        Builtin.standsFor? name.lexeme mark .value := redundant _ List.mem_cons_self
    rw [Expr.bare, Expr.code, stands, Expr.code]
  | .call keyword callee arguments mark, redundant => by
    rw [Expr.acts, List.forall_mem_cons] at redundant
    have stands : Builtin.standsFor? callee.lexeme none .function =
        Builtin.standsFor? callee.lexeme mark .function := redundant.1
    rw [Expr.bare, Expr.code, exprCodes_bare arguments redundant.2, stands, Expr.code]
  | .list start elements, redundant => by
    rw [Expr.bare, Expr.code, exprCodes_bare elements redundant, Expr.code]
  | .missing, _ => rfl

theorem exprCodes_bare : ∀ es : List Expr, (∀ act ∈ exprActs es, act.Redundant) →
    exprCodes (bareExprs es) = exprCodes es
  | [], _ => rfl
  | e :: es, redundant => by
    rw [exprActs, List.forall_mem_append] at redundant
    rw [bareExprs, exprCodes, e.code_bare redundant.1, exprCodes_bare es redundant.2, exprCodes]

end

theorem optionCode_bare (absent : Text) (value : Option Expr)
    (redundant : ∀ act ∈ optionActs value, act.Redundant) :
    optionCode absent (value.map Expr.bare) = optionCode absent value := by
  cases value with
  | none => rfl
  | some e => exact e.code_bare redundant

theorem closingReturn_bare (body : List Stmt) :
    closingReturn (bareStmts body) = closingReturn body := by
  have same : (fun s : Stmt => s.bare.isReturn) = Stmt.isReturn := by
    funext s
    cases s <;> rfl
  unfold closingReturn
  rw [bareStmts_eq_map, List.getLast?_map, Option.any_map, same]

theorem isEmpty_bareStmts (ss : List Stmt) : (bareStmts ss).isEmpty = ss.isEmpty := by
  rw [bareStmts_eq_map, List.isEmpty_map]

/-- What holds of the acts of a block holds of those inside. -/
theorem forall_mem_of_block {P : Act → Prop} {inner : List Act}
    (each : ∀ act ∈ blockActs inner, P act) : ∀ act ∈ inner, P act :=
  fun act member => each act (by simp [blockActs, member])

mutual

/-- **A statement is written the same without its marks,** if they say no more than the names. -/
theorem Stmt.marks_bare : ∀ s : Stmt, (∀ act ∈ s.acts, act.Redundant) → s.bare.marks = s.marks
  | .declare _ type name value, redundant => by
    rw [Stmt.acts, List.forall_mem_append] at redundant
    rw [Stmt.bare, Stmt.marks, optionCode_bare _ value redundant.1, Stmt.marks]
  | .param _, _ => rfl
  | .function _ name params body, redundant => by
    rw [Stmt.acts, List.forall_mem_cons] at redundant
    have inner := forall_mem_of_block redundant.2
    rw [List.forall_mem_append] at inner
    rw [Stmt.bare, Stmt.marks, stmtMarks_bare body inner.2, closingReturn_bare, Stmt.marks]
  | .conditional _ condition yes no, redundant => by
    rw [Stmt.acts, List.forall_mem_append, List.forall_mem_append] at redundant
    obtain ⟨test, first, second⟩ := redundant
    rw [Stmt.bare, Stmt.marks, condition.code_bare test,
      stmtMarks_bare yes (forall_mem_of_block first),
      stmtMarks_bare no (forall_mem_of_block second), isEmpty_bareStmts, Stmt.marks]
  | .loop _ body, redundant => by
    rw [Stmt.bare, Stmt.marks, stmtMarks_bare body (forall_mem_of_block redundant), Stmt.marks]
  | .print _ value, redundant => by
    rw [Stmt.bare, Stmt.marks, value.code_bare redundant, Stmt.marks]
  | .returns _ value, redundant => by
    rw [Stmt.bare, Stmt.marks, optionCode_bare _ value redundant, Stmt.marks]
  | .assign name value, redundant => by
    rw [Stmt.acts, List.forall_mem_cons] at redundant
    rw [Stmt.bare, Stmt.marks, value.code_bare redundant.2, Stmt.marks]
  | .breaks _, _ => rfl
  | .perform _ value, redundant => by
    rw [Stmt.bare, Stmt.marks, value.code_bare redundant, Stmt.marks]
  | .missing, _ => rfl

/-- **Statements are written the same without their marks,** if these say no more than the names. -/
theorem stmtMarks_bare : ∀ ss : List Stmt, (∀ act ∈ stmtActs ss, act.Redundant) →
    stmtMarks (bareStmts ss) = stmtMarks ss
  | [], _ => rfl
  | s :: ss, redundant => by
    rw [stmtActs, List.forall_mem_append] at redundant
    rw [bareStmts, stmtMarks, s.marks_bare redundant.1, stmtMarks_bare ss redundant.2, stmtMarks]

end

/-! ### Marks of resolution -/

/-- **The symbol shadows a builtin:** the program declares it with the name of one. -/
def Symbol.shadows (symbol : Symbol) : Bool :=
  !symbol.builtin && Builtin.all.any fun b => b.name == symbol.name

/-- A name whose own symbol shadows no builtin is written as if it had no symbol. -/
theorem Builtin.standsFor?_of_not_shadows {symbol : Symbol} (plain : symbol.shadows = false)
    (kind : SymbolKind) :
    standsFor? symbol.name none kind = standsFor? symbol.name (some symbol) kind := by
  cases builtin : symbol.builtin with
  | true => simp [standsFor?, builtin]
  | false =>
    have unknown : find? symbol.name = none := by
      refine List.find?_eq_none.mpr fun b known named => ?_
      have shadowed : symbol.shadows = true := by
        simp only [Symbol.shadows, builtin, Bool.not_false, Bool.true_and, List.any_eq_true]
        exact ⟨b, known, named⟩
      rw [plain] at shadowed
      cases shadowed
    rw [standsFor?_user builtin, standsFor?, unknown]
    simp

/-- **A mark that resolution gives says no more than the name,** if it shadows no builtin. -/
theorem Pictures.redundant_marked {before : List Act} {scope next : Scope} {act : Act}
    (pictures : Pictures before scope) (inside : StaysOpen before)
    (ran : act.run scope = .ok next)
    (plain : ∀ symbol ∈ (act.marked scope).mark?, symbol.shadows = false) :
    (act.marked scope).Redundant := by
  cases refers : act.reference? with
  | none =>
    cases act with
    | enter | leave | declare => rfl
    | use | target | call => cases refers
  | some name =>
    obtain ⟨symbol, found, marked⟩ := marked_eq_withMark refers ran
    have named : symbol.name = name.lexeme :=
      ((pictures.find?_eq_some_iff inside _ _).mp found).2.1
    rw [marked] at plain ⊢
    cases act with
    | enter | leave | declare => cases refers
    | target => rfl
    | use _ mark =>
      cases refers
      have stands := Builtin.standsFor?_of_not_shadows (plain symbol rfl) .value
      rwa [named] at stands
    | call _ count mark =>
      cases refers
      have stands := Builtin.standsFor?_of_not_shadows (plain symbol rfl) .function
      rwa [named] at stands

/-! ### The main result -/

/-- **A program needs no resolution to be written, unless a builtin is shadowed.** If a program has
no fault, and no name that it uses or calls stands for a declaration of its own with the name of a
builtin, then its tree without any marks and its resolved tree have the same code. -/
theorem code_without_resolution {p : Program} (resolved : p.resolve.fault = none)
    (plain : ∀ act ∈ stmtActs p.resolve.tree, ∀ symbol ∈ act.mark?, symbol.shadows = false)
    (options : Options) :
    ∃ code, Program.code options (bareStmts p) = .ok code ∧
      Program.code options p.resolve.tree = .ok code := by
  have complete := complete_of_resolve resolved
  have redundant : ∀ act ∈ stmtActs p.resolve.tree, act.Redundant := by
    intro act member
    refine forall_acts_resolve (P := fun act =>
      (∀ symbol ∈ act.mark?, symbol.shadows = false) → act.Redundant) complete resolved ?_
      act member (plain act member)
    intro before act scope next _ pictures within ran
    exact pictures.redundant_marked within ran
  obtain ⟨code, written, -⟩ :=
    Program.exists_code options p.resolve.tree (by rw [complete_resolve, complete])
  refine ⟨code, ?_, written⟩
  have same : bareStmts p.resolve.tree = bareStmts p := bare_resolveStmts .initial p
  rw [← same, Program.code, stmtMarks_bare _ redundant, ← written, Program.code]

/-- A function calls a builtin with its parameter, and a variable outside starts as another. -/
theorem code_without_resolution_call :
    let word (kind : TokenKind) (text : String) (column : Int) : Token := ⟨kind, text, 1, column⟩
    let p : Program := [.function (word .function "有術" 1) (word .string "甲" 4)
        [⟨word .stringType "一言" 10, word .string "乙" 13⟩]
        [.returns (word .returns "乃得" 16) (some (.call (word .apply "施" 18)
          (word .string "長度" 19) [.use (word .identifier "乙" 24) none] none))],
      .declare (word .declare "吾有" 28) (word .numberType "一數" 30) (word .string "丙" 33)
        (some (.use (word .identifier "真" 38) none))]
    p.resolve.fault = none ∧
      (∀ act ∈ stmtActs p.resolve.tree, ∀ symbol ∈ act.mark?, symbol.shadows = false) ∧
      ∃ code, Program.code .blank (bareStmts p) = .ok code ∧
        Program.code .blank p.resolve.tree = .ok code := by
  intro word p
  have resolved : p.resolve.fault = none := by decide
  have plain : ∀ act ∈ stmtActs p.resolve.tree, ∀ symbol ∈ act.mark?, symbol.shadows = false := by
    decide
  exact ⟨resolved, plain, code_without_resolution resolved plain .blank⟩

end Guwen
