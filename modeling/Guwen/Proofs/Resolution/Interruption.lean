/-
**What a refused program keeps.**

Resolution writes its marks as it goes and takes none back, so a refused program is left with some
marks new and the others old. Where the line runs is said by the walk: the acts before the one that
breaks a rule are marked, that one and all behind it are as they were.

* `Annotates before acts marked` — the acts, behind `before`, with each name marked with its
  innermost declaration.
* `Pictures.annotates` — a run without a fault marks its acts so.
* `exists_stop` — the act at which a refused program stops, and the marks around it.
* **`resolve_marks_to_fault`** — a refused program is left with the acts before the fault marked and
  all else unchanged; and what stands behind sound statements does not change their marks.
-/
import Guwen.Proofs.Resolution.Discipline

namespace Guwen

/-! ### Marks in the order of the walk -/

/-- **The acts with their names marked:** a use and a call have the innermost declaration of the
name at their place, and all else is as it was. `before` are the acts in front of them. -/
inductive Annotates : List Act → List Act → List Act → Prop where
  | nil {before : List Act} : Annotates before [] []
  | plain {before acts marked : List Act} {act : Act} : act.reference? = none →
      Annotates (before ++ [act]) acts marked → Annotates before (act :: acts) (act :: marked)
  | named {before acts marked : List Act} {act : Act} {name : Token} {symbol : Symbol} :
      act.reference? = some name → Innermost before name.lexeme symbol →
      Annotates (before ++ [act]) acts marked →
      Annotates before (act :: acts) (act.withMark symbol :: marked)

theorem marked_of_plain {act : Act} (plain : act.reference? = none) (scope : Scope) :
    act.marked scope = act := by
  cases act with
  | enter | leave | declare => rfl
  | use | target | call => cases plain

/-- **A run without a fault marks every name with its innermost declaration.** -/
theorem Pictures.annotates {before acts : List Act} {scope next : Scope}
    (pictures : Pictures before scope) (inside : StaysOpen (before ++ acts))
    (ran : Guwen.walk scope acts = .ok next) : Annotates before acts (markActs scope acts) := by
  induction acts generalizing before scope with
  | nil => exact .nil
  | cons act acts ih =>
    have split : before ++ act :: acts = before ++ [act] ++ acts := by simp
    rw [split] at inside
    have first := inside.of_prefix (List.prefix_append _ acts)
    have within := first.of_prefix (List.prefix_append before _)
    rw [walk_cons, bind_eq_ok] at ran
    obtain ⟨middle, one, ran⟩ := ran
    have rest := ih (pictures.step first one) inside ran
    simp only [markActs, one]
    cases refers : act.reference? with
    | none =>
      rw [marked_of_plain refers]
      exact .plain refers rest
    | some name =>
      obtain ⟨symbol, found, marked⟩ := marked_eq_withMark refers one
      rw [marked]
      exact .named refers ((pictures.find?_eq_some_iff within _ _).mp found) rest

/-! ### The act at fault -/

/-- **An act that meets a fault is left as it was.** -/
theorem marked_of_fault {act : Act} {scope : Scope} {fault : Fault}
    (failed : act.run scope = .error fault) : act.marked scope = act := by
  cases act with
  | enter | leave | declare | target => rfl
  | use name mark =>
    cases found : scope.lookup name with
    | ok symbol =>
      rw [Act.run, found] at failed
      cases failed
    | error fault' => rw [Act.marked, found]; rfl
  | call callee count mark =>
    cases found : scope.lookupCallee callee count with
    | ok symbol =>
      rw [Act.run, found] at failed
      cases failed
    | error fault' => rw [Act.marked, found]; rfl

/-- The acts before a fault are marked, the others are not. -/
theorem markActs_of_fault {scope middle : Scope} {before after : List Act} {act : Act}
    {fault : Fault} (start : walk scope before = .ok middle)
    (stop : act.run middle = .error fault) :
    markActs scope (before ++ act :: after) = markActs scope before ++ act :: after := by
  rw [markActs_append, start]
  simp only [markActs, stop, marked_of_fault stop]

theorem length_resolveStmts (scope : Scope) (ss : List Stmt) :
    (resolveStmts scope ss).tree.length = ss.length := by
  have same := congrArg List.length (bare_resolveStmts scope ss)
  rwa [bareStmts_eq_map, bareStmts_eq_map, List.length_map, List.length_map] at same

/-- **Where a refused program stops:** the acts before that place ran and are marked. -/
theorem exists_stop {p : Program} {d : Diagnostic} (refused : p.resolve.fault = some (.refused d)) :
    ∃ before act after middle, stmtActs p = before ++ act :: after ∧
      walk .initial before = .ok middle ∧ act.run middle = .error (.refused d) ∧
      stmtActs p.resolve.tree = markActs .initial before ++ act :: after := by
  have refusal : p.resolve.fault.all Fault.isRefusal = true := by
    rw [refused]
    rfl
  have runs := runs_of_refusal .initial p refusal
  have ends : walk .initial (stmtActs p) = p.resolve.outcome := runs.ends
  have marks : stmtActs p.resolve.tree = markActs .initial (stmtActs p) := runs.marks
  rw [Resolved.outcome, refused] at ends
  obtain ⟨before, act, after, middle, split, start, stop⟩ := walk_eq_error ends
  rw [split, markActs_of_fault start stop] at marks
  exact ⟨before, act, after, middle, split, start, stop, marks⟩

/-! ### The main result -/

/-- **A refused program keeps the marks up to its fault.** There is a first act that breaks a rule;
the refusal says which. The resolved tree is the one that has the shape of the program, on the acts
before that one the marks of their innermost declarations, and from that act on the marks that were
there. If the first statements of any program have no fault by themselves, they are marked in it as
they are alone, whatever becomes of the rest. -/
theorem resolve_marks_to_fault (p : Program) :
    (∀ d, p.resolve.fault = some (.refused d) →
      ∃ before act after marked name cause, stmtActs p = before ++ act :: after ∧
        Disciplined before ∧ Breaks before act name cause ∧
        d = .atToken .semantic cause (.scope (level before)) name ∧ Annotates [] before marked ∧
        ∀ q, q = p.resolve.tree ↔
          bareStmts q = bareStmts p ∧ stmtActs q = marked ++ act :: after) ∧
    ∀ first rest, p = first ++ rest → (Program.resolve first).fault = none →
      p.resolve.tree.take first.length = (Program.resolve first).tree := by
  constructor
  · intro d refused
    obtain ⟨before, act, after, middle, split, start, stop, marks⟩ := exists_stop refused
    have inside := (balanced_stmtActs p).inside
    rw [split] at inside
    have within := inside.of_prefix (List.prefix_append before _)
    obtain ⟨name, cause, broken, said⟩ := (pictures_initial.walk within start).breaks within stop
    refine ⟨before, act, after, markActs .initial before, name, cause, split,
      disciplined_of_walk within start, broken, Fault.refused.inj said,
      pictures_initial.annotates within start, fun q => ⟨?_, ?_⟩⟩
    · rintro rfl
      exact ⟨bare_resolveStmts _ p, marks⟩
    · rintro ⟨same, acts⟩
      exact eq_of_bare_of_acts (same.trans (bare_resolveStmts _ p).symm) (acts.trans marks.symm)
  · rintro first rest rfl sound
    have trees : (Program.resolve (first ++ rest)).tree = (Program.resolve first).tree ++ _ :=
      congrArg Resolved.tree (resolveStmts_append sound rest)
    rw [trees]
    exact List.take_left' (length_resolveStmts .initial first)

/-- The second argument of a call is not declared, and a statement is missing further down. The call
and its first argument are marked, the second argument keeps a mark from elsewhere, and the next
statement has none. -/
theorem resolve_marks_to_fault_argument :
    let word (kind : TokenKind) (text : String) (column : Int) : Token := ⟨kind, text, 1, column⟩
    let stale : Symbol := ⟨"甲", "一數", .value, 0, false, ⟨9, 9⟩⟩
    let p : Program := [.print (word .print "云" 1) (.call (word .apply "施" 2) (word .string "輸出" 3)
        [.use (word .identifier "真" 8) none, .use (word .identifier "甲" 10) (some stale)] none),
      .print (word .print "云" 11) (.use (word .identifier "真" 12) none), .missing]
    p.resolve.fault = some (.refused ⟨.semantic, .undeclared, ⟨1, 10⟩, "甲", .scope 0⟩) ∧
      stmtActs p.resolve.tree = [.call (word .string "輸出" 3) 2 (Scope.initial.find? "輸出"),
        .use (word .identifier "真" 8) (Scope.initial.find? "真"),
        .use (word .identifier "甲" 10) (some stale), .use (word .identifier "真" 12) none] ∧
      ∃ before act after marked, stmtActs p = before ++ act :: after ∧ Annotates [] before marked ∧
        stmtActs p.resolve.tree = marked ++ act :: after := by
  intro word stale p
  have refused : p.resolve.fault =
      some (.refused ⟨.semantic, .undeclared, ⟨1, 10⟩, "甲", .scope 0⟩) := by decide
  obtain ⟨before, act, after, marked, -, -, split, -, -, -, annotates, tree⟩ :=
    (resolve_marks_to_fault p).1 _ refused
  exact ⟨refused, by decide, before, act, after, marked, split, annotates, ((tree _).mp rfl).2⟩

end Guwen
