/-
**Resolution asked again.**

Resolution reads a tree and writes marks into it, so whoever asks next finds the marks of those who
asked before, also of one who was refused. None of that shows in the answers.

* `declared_of_bare`, `fault_of_bare` — trees that differ only in marks are answered alike.
* `resolve_tree_resolve` — a second resolution changes nothing, whether or not the first one had a
  fault.
* `inquire` — inquiries one after another, each into the tree that the last one left.
* **`resolve_ignores_marks`** — old marks change no answer, and the answers are always those of the
  first inquiry.
-/
import Guwen.Proofs.Resolution.Marks

namespace Guwen

/-! ### Trees that differ only in marks -/

theorem Resolved.fault_eq_of_outcome {α : Type} {r r' : Resolved α}
    (same : r.outcome = r'.outcome) : r.fault = r'.fault := by
  unfold Resolved.outcome at same
  cases fault : r.fault with
  | none =>
    cases fault' : r'.fault with
    | none => rfl
    | some stop => rw [fault, fault'] at same; cases same
  | some stop =>
    cases fault' : r'.fault with
    | none => rw [fault, fault'] at same; cases same
    | some stop' =>
      rw [fault, fault'] at same
      exact congrArg some (Except.error.inj same)

section Bare

variable {p q : Program}

theorem complete_of_bare (complete : stmtsComplete p = true) (same : bareStmts p = bareStmts q) :
    stmtsComplete q = true := by
  rw [← stmtsComplete_bare, ← same, stmtsComplete_bare, complete]

/-- The acts differ only in marks, too. -/
theorem acts_of_bare (same : bareStmts p = bareStmts q) :
    (stmtActs p).map Act.bare = (stmtActs q).map Act.bare := by
  rw [← stmtActs_bare, same, stmtActs_bare]

theorem walk_of_bare (same : bareStmts p = bareStmts q) (scope : Scope) :
    walk scope (stmtActs p) = walk scope (stmtActs q) := by
  rw [← walk_bare, acts_of_bare same, walk_bare]

theorem fault_of_bare (complete : stmtsComplete p = true) (same : bareStmts p = bareStmts q) :
    p.resolve.fault = q.resolve.fault := by
  have ends : walk .initial (stmtActs p) = p.resolve.outcome :=
    (runs_stmtActs .initial p complete).ends
  have ends' : walk .initial (stmtActs q) = q.resolve.outcome :=
    (runs_stmtActs .initial q (complete_of_bare complete same)).ends
  exact Resolved.fault_eq_of_outcome (ends.symm.trans ((walk_of_bare same _).trans ends'))

theorem declared_of_bare (complete : stmtsComplete p = true) (same : bareStmts p = bareStmts q) :
    p.resolve.declared = q.resolve.declared := by
  have symbols : p.resolve.declared = along Act.symbol? .initial (stmtActs p) :=
    (runs_stmtActs .initial p complete).symbols
  have symbols' : q.resolve.declared = along Act.symbol? .initial (stmtActs q) :=
    (runs_stmtActs .initial q (complete_of_bare complete same)).symbols
  rw [symbols, symbols', ← along_bare, acts_of_bare same, along_bare]

theorem listing_of_bare (complete : stmtsComplete p = true) (same : bareStmts p = bareStmts q) :
    p.resolve.listing = q.resolve.listing := by
  unfold Resolved.listing
  rw [fault_of_bare complete same, declared_of_bare complete same]

/-- **Without a fault all marks are new.** -/
theorem tree_of_bare (complete : stmtsComplete p = true) (same : bareStmts p = bareStmts q)
    (resolved : p.resolve.fault = none) : p.resolve.tree = q.resolve.tree := by
  have marks : stmtActs p.resolve.tree = markActs .initial (stmtActs p) :=
    (runs_stmtActs .initial p complete).marks
  have marks' : stmtActs q.resolve.tree = markActs .initial (stmtActs q) :=
    (runs_stmtActs .initial q (complete_of_bare complete same)).marks
  have ran := walk_of_resolve complete resolved
  have ran' : walk .initial (stmtActs q) = .ok p.resolve.scope := by
    rw [← walk_of_bare same, ran]
  refine eq_of_bare_of_acts ?_ ?_
  · exact (bare_resolveStmts _ p).trans (same.trans (bare_resolveStmts _ q).symm)
  · rw [marks, marks', ← markActs_bare ran, acts_of_bare same, markActs_bare ran']

/-- **A second resolution changes nothing,** also behind a fault. -/
theorem resolve_tree_resolve (complete : stmtsComplete p = true) :
    (Program.resolve p.resolve.tree).tree = p.resolve.tree := by
  have marks : stmtActs p.resolve.tree = markActs .initial (stmtActs p) :=
    (runs_stmtActs .initial p complete).marks
  have again : stmtActs (Program.resolve p.resolve.tree).tree =
      markActs .initial (stmtActs p.resolve.tree) :=
    (runs_stmtActs .initial p.resolve.tree (by rw [complete_resolve, complete])).marks
  refine eq_of_bare_of_acts (bare_resolveStmts _ p.resolve.tree) ?_
  rw [again, marks, markActs_markActs]

end Bare

/-! ### One inquiry after another -/

/-- **What is asked of a program:** whether it has a fault, or the listing of its symbols. -/
inductive Inquiry where
  | check
  | listing
deriving DecidableEq, Repr

/-- What an inquiry is told. -/
inductive Answer where
  | verdict (fault : Option Fault)
  | symbols (listing : Except Fault Text)

/-- The answer to an inquiry, from a resolution. -/
def Inquiry.answer (r : Resolved Program) : Inquiry → Answer
  | check => .verdict r.fault
  | listing => .symbols r.listing

/-- **Inquiries one after another,** each into the tree that the one before it left: the answers,
and the tree that is left in the end. -/
def inquire (p : Program) : List Inquiry → List Answer × Program
  | [] => ([], p)
  | inquiry :: later =>
    let (answers, last) := inquire p.resolve.tree later
    (inquiry.answer p.resolve :: answers, last)

theorem answer_of_bare {p q : Program} (complete : stmtsComplete p = true)
    (same : bareStmts p = bareStmts q) (inquiry : Inquiry) :
    inquiry.answer p.resolve = inquiry.answer q.resolve := by
  cases inquiry with
  | check => exact congrArg Answer.verdict (fault_of_bare complete same)
  | listing => exact congrArg Answer.symbols (listing_of_bare complete same)

/-- Behind a resolution every inquiry finds the answers and the tree of that resolution. -/
theorem inquire_tree_resolve {p : Program} (complete : stmtsComplete p = true)
    (inquiries : List Inquiry) :
    inquire p.resolve.tree inquiries =
      (inquiries.map (Inquiry.answer p.resolve), p.resolve.tree) := by
  induction inquiries with
  | nil => rfl
  | cons inquiry later ih =>
    have same : bareStmts p = bareStmts p.resolve.tree := (bare_resolveStmts _ p).symm
    rw [inquire, resolve_tree_resolve complete, ih, ← answer_of_bare complete same]
    rfl

/-! ### The main result -/

/-- **Resolution does not see the marks it finds.** Of two trees without missing nodes that differ
only in marks, both are sound or both have the same fault, both have the same listing, and if they
are sound they are the same once resolved. So the answers to any inquiries one after another are
those of the first resolution, and the first one leaves the tree as all later ones leave it. -/
theorem resolve_ignores_marks {p q : Program} (complete : stmtsComplete p = true)
    (same : bareStmts p = bareStmts q) :
    p.resolve.fault = q.resolve.fault ∧ p.resolve.listing = q.resolve.listing ∧
    (p.resolve.fault = none → p.resolve.tree = q.resolve.tree) ∧
    ∀ inquiries, (inquire p inquiries).1 = inquiries.map (Inquiry.answer p.resolve) ∧
      (inquiries ≠ [] → (inquire p inquiries).2 = p.resolve.tree) := by
  refine ⟨fault_of_bare complete same, listing_of_bare complete same, tree_of_bare complete same,
    ?_⟩
  intro inquiries
  cases inquiries with
  | nil => exact ⟨rfl, (absurd rfl ·)⟩
  | cons inquiry later =>
    rw [inquire, inquire_tree_resolve complete]
    exact ⟨rfl, fun _ => rfl⟩

/-- A use of 甲 has a mark from elsewhere, which says it is a function at depth three. It is marked
anew with the variable, and the listing that is asked for behind the first check is as if there had
been no mark. -/
theorem resolve_ignores_marks_stale :
    let word (kind : TokenKind) (text : String) (column : Int) : Token := ⟨kind, text, 1, column⟩
    let p (mark : Option Symbol) : Program :=
      [.declare (word .declare "吾有" 1) (word .numberType "一數" 3) (word .string "甲" 6) none,
       .print (word .print "云" 10) (.use (word .identifier "甲" 11) mark)]
    let stale : Symbol := ⟨"甲", "函數", .function, 3, false, ⟨9, 9⟩⟩
    stmtsComplete (p (some stale)) = true ∧ bareStmts (p (some stale)) = bareStmts (p none) ∧
      (p (some stale)).resolve.fault = none ∧
      (p (some stale)).resolve.tree = (p none).resolve.tree ∧
      inquire (p (some stale)) [.check, .listing] =
        ([.verdict none, .symbols (p none).resolve.listing], (p none).resolve.tree) := by
  intro word p stale
  have complete : stmtsComplete (p (some stale)) = true := rfl
  have same : bareStmts (p (some stale)) = bareStmts (p none) := rfl
  have resolved : (p (some stale)).resolve.fault = none := by decide
  obtain ⟨-, listing, trees, inquiries⟩ := resolve_ignores_marks complete same
  obtain ⟨answers, left⟩ := inquiries [.check, .listing]
  refine ⟨complete, same, resolved, trees resolved, Prod.ext ?_ ?_⟩
  · rw [answers, ← listing, ← resolved]
    rfl
  · rw [left (List.cons_ne_nil _ _), trees resolved]

end Guwen
