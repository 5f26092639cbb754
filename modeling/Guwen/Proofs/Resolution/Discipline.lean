/-
**Resolution decides the scoping discipline.**

* `Allowed before act` — the rules for one act, said of the acts before it: no block declares a name
  twice, every name has a visible declaration, a callee's innermost one is a function, a target's is
  neither a function nor a builtin, and a builtin gets no more arguments than it takes.
* `Breaks before act name cause` — the rule that an act breaks first, and the name it is about.
* **`resolve_disciplined`** — resolution of a tree without a missing node succeeds just when all its
  acts are allowed; then every use and call is marked with its innermost declaration and nothing
  else changes; else the fault names the first act that is not allowed.
-/
import Guwen.Proofs.Resolution.Marks
import Guwen.Proofs.Resolution.Visibility
import Mathlib.Tactic.ByContra

namespace Guwen

/-! ### The rules -/

namespace Act

/-- The name that an act refers to. -/
def reference? : Act → Option Token
  | use name _ => some name
  | target name => some name
  | call callee _ _ => some callee
  | _ => none

/-- The act with a mark, if its node can have one. -/
def withMark (symbol : Symbol) : Act → Act
  | use name _ => use name (some symbol)
  | call callee count _ => call callee count (some symbol)
  | act => act

/-- A mark leaves the name that an act refers to. -/
theorem reference?_withMark {act : Act} {name : Token} (refers : act.reference? = some name)
    (symbol : Symbol) : (act.withMark symbol).reference? = some name := by
  cases act with
  | enter | leave | declare => cases refers
  | use | target | call => exact refers

end Act

/-- **The act keeps the rules** behind the acts `before`. -/
structure Allowed (before : List Act) (act : Act) : Prop where
  /-- No block declares a name twice; the outermost one has the builtins. -/
  once : ∀ name type kind, act = .declare name type kind →
    ∀ symbol, Visible before symbol → symbol.name = name.lexeme → symbol.depth ≠ level before
  /-- Every name that is used, assigned to or called has a declaration that can be seen. -/
  declared : ∀ name, act.reference? = some name →
    ∃ symbol, Visible before symbol ∧ symbol.name = name.lexeme
  /-- A callee is a function. -/
  callable : ∀ callee count mark, act = .call callee count mark →
    ∀ symbol, Innermost before callee.lexeme symbol → symbol.kind = .function
  /-- Neither a function nor a builtin is assigned to. -/
  assignable : ∀ name, act = .target name →
    ∀ symbol, Innermost before name.lexeme symbol → symbol.kind ≠ .function ∧ symbol.builtin = false
  /-- A builtin gets no more arguments than it takes. -/
  bounded : ∀ callee count mark, act = .call callee count mark →
    ∀ symbol, Innermost before callee.lexeme symbol → symbol.builtin = true →
      ∀ b ∈ Builtin.all, b.name = callee.lexeme → ∀ most, b.arity = some most → count ≤ most

/-- **Every act keeps the rules** behind those before it. -/
def Disciplined (acts : List Act) : Prop :=
  ∀ before act after, acts = before ++ act :: after → Allowed before act

/-- **The act breaks a rule:** the name it is about and the cause that is reported. A missing
declaration comes before a wrong kind, a wrong kind before too many arguments. -/
inductive Breaks (before : List Act) : Act → Token → Diagnostic.Cause → Prop where
  | redeclared {name : Token} {type : Text} {kind : SymbolKind} {symbol : Symbol} :
      Visible before symbol → symbol.name = name.lexeme → symbol.depth = level before →
      Breaks before (.declare name type kind) name .redeclared
  | undeclared {act : Act} {name : Token} : act.reference? = some name →
      (∀ symbol, Visible before symbol → symbol.name ≠ name.lexeme) →
      Breaks before act name .undeclared
  | notCallable {callee : Token} {count : Nat} {mark : Option Symbol} {symbol : Symbol} :
      Innermost before callee.lexeme symbol → symbol.kind ≠ .function →
      Breaks before (.call callee count mark) callee .notCallable
  | tooManyArguments {callee : Token} {count most : Nat} {mark : Option Symbol} {symbol : Symbol}
      {b : Builtin} : Innermost before callee.lexeme symbol → symbol.kind = .function →
      symbol.builtin = true → b ∈ Builtin.all → b.name = callee.lexeme → b.arity = some most →
      most < count → Breaks before (.call callee count mark) callee .tooManyArguments
  | notAssignable {name : Token} {symbol : Symbol} : Innermost before name.lexeme symbol →
      (symbol.kind = .function ∨ symbol.builtin = true) →
      Breaks before (.target name) name .notAssignable

/-- What breaks a rule is not allowed. -/
theorem Breaks.not_allowed {before : List Act} {act : Act} {name : Token} {cause : Diagnostic.Cause}
    (broken : Breaks before act name cause) : ¬ Allowed before act := by
  intro allowed
  cases broken with
  | redeclared visible named deep => exact allowed.once _ _ _ rfl _ visible named deep
  | undeclared refers absent =>
    obtain ⟨symbol, visible, named⟩ := allowed.declared _ refers
    exact absent symbol visible named
  | notCallable innermost kind => exact kind (allowed.callable _ _ _ rfl _ innermost)
  | tooManyArguments innermost _ builtin known named most more =>
    exact Nat.not_lt_of_le (allowed.bounded _ _ _ rfl _ innermost builtin _ known named _ most) more
  | notAssignable innermost wrong =>
    obtain ⟨kind, builtin⟩ := allowed.assignable _ rfl _ innermost
    rcases wrong with function | known
    · exact kind function
    · rw [builtin] at known
      cases known

/-- The bound of the builtin with this name is exceeded. -/
theorem exceedsArity_iff (name : Text) (count : Nat) :
    Scope.exceedsArity name count = true ↔
      ∃ b ∈ Builtin.all, b.name = name ∧ ∃ most, b.arity = some most ∧ most < count := by
  have distinct : (Builtin.all.map Builtin.name).Nodup := by decide
  have found := find?_named_eq_some_iff distinct name
  unfold Scope.exceedsArity Builtin.find?
  rw [Option.any_eq_true]
  constructor
  · rintro ⟨most, bound, more⟩
    obtain ⟨b, hit, arity⟩ := Option.bind_eq_some_iff.mp bound
    obtain ⟨known, named⟩ := (found b).mp hit
    exact ⟨b, known, named, most, arity, of_decide_eq_true more⟩
  · rintro ⟨b, known, named, most, arity, more⟩
    have hit := (found b).mpr ⟨known, named⟩
    exact ⟨most, Option.bind_eq_some_iff.mpr ⟨b, hit, arity⟩, decide_eq_true more⟩

/-! ### One act -/

namespace Pictures

variable {before : List Act} {scope next : Scope} {act : Act}

/-- **An act that meets a fault breaks a rule,** and the fault says which. -/
theorem breaks {fault : Fault} (pictures : Pictures before scope) (inside : StaysOpen before)
    (failed : act.run scope = .error fault) :
    ∃ name cause, Breaks before act name cause ∧
      fault = .refused (.atToken .semantic cause (.scope (level before)) name) := by
  have deep : ∀ cause name, scope.refuse cause name =
      .refused (.atToken .semantic cause (.scope (level before)) name) := by
    intro cause name
    rw [Scope.refuse, pictures.depth]
  -- A name that is looked up in vain has no visible declaration.
  have absent : ∀ name, act.reference? = some name → scope.find? name.lexeme = none →
      Breaks before act name .undeclared := fun name refers missing =>
    .undeclared refers ((pictures.find?_eq_none_iff inside _).mp missing)
  cases act with
  | enter => cases failed
  | leave => cases failed
  | declare name type kind =>
    rw [Act.run_declare] at failed
    cases found : scope.current.find? name.lexeme with
    | none => simp [found] at failed
    | some symbol =>
      simp only [found, Except.error.injEq] at failed
      obtain ⟨visible, named, depth⟩ := (pictures.current_find?_eq_some_iff _ _).mp found
      exact ⟨name, _, .redeclared visible named depth, by rw [← failed, deep]⟩
  | use name mark =>
    rw [Act.run_use] at failed
    cases found : scope.find? name.lexeme with
    | some symbol => simp [found] at failed
    | none =>
      simp only [found, Except.error.injEq] at failed
      exact ⟨name, _, absent name rfl found, by rw [← failed, deep]⟩
  | target name =>
    rw [Act.run_target] at failed
    cases found : scope.find? name.lexeme with
    | none =>
      simp only [found, Except.error.injEq] at failed
      exact ⟨name, _, absent name rfl found, by rw [← failed, deep]⟩
    | some symbol =>
      have innermost := (pictures.find?_eq_some_iff inside _ _).mp found
      simp only [found] at failed
      split at failed
      · rename_i wrong
        rw [Except.error.injEq] at failed
        refine ⟨name, _, .notAssignable innermost ?_, by rw [← failed, deep]⟩
        simpa using wrong
      · cases failed
  | call callee count mark =>
    rw [Act.run_call] at failed
    cases found : scope.find? callee.lexeme with
    | none =>
      simp only [found, Except.error.injEq] at failed
      exact ⟨callee, _, absent callee rfl found, by rw [← failed, deep]⟩
    | some symbol =>
      have innermost := (pictures.find?_eq_some_iff inside _ _).mp found
      simp only [found] at failed
      split at failed
      · rename_i wrong
        rw [Except.error.injEq] at failed
        exact ⟨callee, _, .notCallable innermost wrong, by rw [← failed, deep]⟩
      · rename_i function
        split at failed
        · rename_i more
          rw [Except.error.injEq] at failed
          rw [Bool.and_eq_true, exceedsArity_iff] at more
          obtain ⟨builtin, b, known, named, most, arity, more⟩ := more
          exact ⟨callee, _, .tooManyArguments innermost (Decidable.not_not.mp function) builtin
            known named arity more, by rw [← failed, deep]⟩
        · cases failed

/-- **An act that breaks a rule meets a fault.** -/
theorem fails {name : Token} {cause : Diagnostic.Cause} (pictures : Pictures before scope)
    (inside : StaysOpen before) (broken : Breaks before act name cause) :
    act.run scope ≠ .ok next := by
  intro ran
  have found : ∀ {name symbol}, Innermost before name symbol → scope.find? name = some symbol :=
    fun innermost => (pictures.find?_eq_some_iff inside _ _).mpr innermost
  cases broken with
  | redeclared visible named depth =>
    have found := (pictures.current_find?_eq_some_iff _ _).mpr ⟨visible, named, depth⟩
    rw [Act.run_declare, found] at ran
    cases ran
  | undeclared refers absent =>
    have missing := (pictures.find?_eq_none_iff inside _).mpr absent
    cases act <;> cases refers
    · rw [Act.run_use, missing] at ran
      cases ran
    · rw [Act.run_target, missing] at ran
      cases ran
    · rw [Act.run_call, missing] at ran
      cases ran
  | notCallable innermost kind =>
    rw [Act.run_call, found innermost] at ran
    simp [kind] at ran
  | tooManyArguments innermost kind builtin known named arity more =>
    have exceeds := (exceedsArity_iff _ _).mpr ⟨_, known, named, _, arity, more⟩
    rw [Act.run_call, found innermost] at ran
    simp [kind, builtin, exceeds] at ran
  | notAssignable innermost wrong =>
    rw [Act.run_target, found innermost] at ran
    simp [wrong] at ran

/-- **An act that runs keeps the rules.** -/
theorem allowed (pictures : Pictures before scope) (inside : StaysOpen before)
    (ran : act.run scope = .ok next) : Allowed before act := by
  have unbroken : ∀ {name cause}, ¬ Breaks before act name cause :=
    fun broken => pictures.fails inside broken ran
  constructor
  · rintro name type kind rfl symbol visible named depth
    exact unbroken (.redeclared visible named depth)
  · intro name refers
    by_contra absent
    exact unbroken (.undeclared refers fun symbol visible named => absent ⟨symbol, visible, named⟩)
  · rintro callee count mark rfl symbol innermost
    by_contra kind
    exact unbroken (.notCallable innermost kind)
  · rintro name rfl symbol innermost
    constructor
    · intro function
      exact unbroken (.notAssignable innermost (.inl function))
    · by_contra builtin
      exact unbroken (.notAssignable innermost (.inr (Bool.not_eq_false _ ▸ builtin)))
  · rintro callee count mark rfl symbol innermost builtin b known named most arity
    by_contra more
    by_cases function : symbol.kind = .function
    · exact unbroken (.tooManyArguments innermost function builtin known named arity
        (Nat.lt_of_not_le more))
    · exact unbroken (.notCallable innermost function)

end Pictures

/-! ### The whole walk -/

/-- A run that fails stops at one act, and the acts before it ran. -/
theorem walk_eq_error {scope : Scope} {acts : List Act} {fault : Fault}
    (failed : walk scope acts = .error fault) :
    ∃ before act after middle, acts = before ++ act :: after ∧ walk scope before = .ok middle ∧
      act.run middle = .error fault := by
  induction acts generalizing scope with
  | nil => cases failed
  | cons act acts ih =>
    cases ran : act.run scope with
    | error fault' =>
      rw [walk_cons, ran] at failed
      obtain rfl := Except.error.inj failed
      exact ⟨[], act, acts, scope, rfl, rfl, ran⟩
    | ok next =>
      rw [walk_cons, ran] at failed
      obtain ⟨before, other, after, middle, rfl, start, stop⟩ := ih failed
      refine ⟨act :: before, other, after, middle, rfl, ?_, stop⟩
      rw [walk_cons, ran]
      exact start

/-- In a run that succeeds every act runs. -/
theorem walk_split {scope next : Scope} {before after : List Act} {act : Act}
    (ran : walk scope (before ++ act :: after) = .ok next) :
    ∃ middle behind, walk scope before = .ok middle ∧ act.run middle = .ok behind := by
  rw [walk_append, bind_eq_ok] at ran
  obtain ⟨middle, start, more⟩ := ran
  rw [walk_cons, bind_eq_ok] at more
  obtain ⟨behind, one, -⟩ := more
  exact ⟨middle, behind, start, one⟩

section Walk

variable {acts : List Act} {scope : Scope} {fault : Fault}

/-- **In a run without a fault every act keeps the rules.** -/
theorem disciplined_of_walk (inside : StaysOpen acts) (ran : walk .initial acts = .ok scope) :
    Disciplined acts := by
  rintro before act after rfl
  obtain ⟨middle, behind, start, one⟩ := walk_split ran
  have within := inside.of_prefix (List.prefix_append before _)
  exact (pictures_initial.walk within start).allowed within one

/-- **A run with a fault stops at the first act that breaks a rule.** -/
theorem breaks_of_walk (inside : StaysOpen acts) (failed : walk .initial acts = .error fault) :
    ∃ before act after name cause, acts = before ++ act :: after ∧ Disciplined before ∧
      Breaks before act name cause ∧
      fault = .refused (.atToken .semantic cause (.scope (level before)) name) := by
  obtain ⟨before, act, after, middle, rfl, start, stop⟩ := walk_eq_error failed
  have within := inside.of_prefix (List.prefix_append before _)
  obtain ⟨name, cause, broken, said⟩ := (pictures_initial.walk within start).breaks within stop
  exact ⟨before, act, after, name, cause, rfl, disciplined_of_walk within start, broken, said⟩

end Walk

/-! ### Marks -/

theorem length_markActs (scope : Scope) (acts : List Act) :
    (markActs scope acts).length = acts.length := by
  induction acts generalizing scope with
  | nil => rfl
  | cons act acts ih =>
    unfold markActs
    cases act.run scope with
    | ok next => exact congrArg (· + 1) (ih next)
    | error fault => rfl

/-- The act at a place is marked from the scope there. -/
theorem getElem?_markActs {scope middle : Scope} {before : List Act}
    (start : walk scope before = .ok middle) (act : Act) (after : List Act) :
    (markActs scope (before ++ act :: after))[before.length]? = some (act.marked middle) := by
  rw [markActs_append, start, ← length_markActs scope before,
    List.getElem?_append_right (Nat.le_refl _), Nat.sub_self]
  rfl

theorem find?_of_lookupCallee {scope : Scope} {callee : Token} {count : Nat} {symbol : Symbol}
    (looked : scope.lookupCallee callee count = .ok symbol) :
    scope.find? callee.lexeme = some symbol := by
  cases found : scope.find? callee.lexeme with
  | none => simp [Scope.lookupCallee, Scope.lookup, found, bind, Except.bind] at looked
  | some other =>
    simp only [Scope.lookupCallee, Scope.lookup, found, bind, Except.bind] at looked
    split at looked
    · cases looked
    · split at looked
      · cases looked
      · exact congrArg some (Except.ok.inj looked)

/-- **An act that runs is marked with what its name stands for.** -/
theorem marked_eq_withMark {scope next : Scope} {act : Act} {name : Token}
    (refers : act.reference? = some name) (ran : act.run scope = .ok next) :
    ∃ symbol, scope.find? name.lexeme = some symbol ∧ act.marked scope = act.withMark symbol := by
  cases act <;> cases refers
  case use mark =>
    rw [Act.run_use] at ran
    cases found : scope.find? name.lexeme with
    | none => simp [found] at ran
    | some symbol =>
      refine ⟨symbol, rfl, ?_⟩
      simp [Act.marked, Act.withMark, Scope.lookup, found, Except.toOption]
  case target =>
    rw [Act.run_target] at ran
    cases found : scope.find? name.lexeme with
    | none => simp [found] at ran
    | some symbol => exact ⟨symbol, rfl, rfl⟩
  case call count mark =>
    cases looked : scope.lookupCallee name count with
    | error fault =>
      rw [Act.run, looked] at ran
      cases ran
    | ok symbol =>
      refine ⟨symbol, find?_of_lookupCallee looked, ?_⟩
      rw [Act.marked, looked]
      rfl

/-! ### The main result -/

/-- **Resolution decides the scoping discipline.** On a tree without a missing node it succeeds just
when every act of the walk keeps the rules. Then each use and each call is marked with the innermost
declaration of its name, and nothing else changes. Otherwise the fault is a refusal that names the
first act to break a rule, with the depth of the block it stands in. -/
theorem resolve_disciplined (p : Program) (complete : stmtsComplete p = true) :
    (p.resolve.fault = none ↔ Disciplined (stmtActs p)) ∧
    (p.resolve.fault = none → bareStmts p.resolve.tree = bareStmts p ∧
      ∀ before act after name, stmtActs p = before ++ act :: after → act.reference? = some name →
        ∃ symbol, Innermost before name.lexeme symbol ∧
          (stmtActs p.resolve.tree)[before.length]? = some (act.withMark symbol)) ∧
    ∀ fault, p.resolve.fault = some fault →
      ∃ before act after name cause, stmtActs p = before ++ act :: after ∧ Disciplined before ∧
        Breaks before act name cause ∧
        fault = .refused (.atToken .semantic cause (.scope (level before)) name) := by
  have inside := (balanced_stmtActs p).inside
  have runs := runs_stmtActs .initial p complete
  have ends : walk .initial (stmtActs p) = p.resolve.outcome := runs.ends
  have marks : stmtActs p.resolve.tree = markActs .initial (stmtActs p) := runs.marks
  unfold Resolved.outcome at ends
  cases stopped : p.resolve.fault with
  | none =>
    rw [stopped] at ends
    have disciplined := disciplined_of_walk inside ends
    refine ⟨⟨fun _ => disciplined, fun _ => rfl⟩, fun _ => ⟨bare_resolveStmts _ p, ?_⟩, ?_⟩
    · intro before act after name split refers
      rw [marks, split]
      rw [split] at ends inside
      obtain ⟨middle, behind, start, one⟩ := walk_split ends
      obtain ⟨symbol, found, marked⟩ := marked_eq_withMark refers one
      have within := inside.of_prefix (List.prefix_append before _)
      have pictures := pictures_initial.walk within start
      refine ⟨symbol, (pictures.find?_eq_some_iff within _ _).mp found, ?_⟩
      rw [getElem?_markActs start, marked]
    · intro fault present
      cases present
  | some fault =>
    rw [stopped] at ends
    obtain ⟨before, act, after, name, cause, split, first, broken, said⟩ :=
      breaks_of_walk inside ends
    refine ⟨⟨(nomatch ·), fun disciplined => ?_⟩, (nomatch ·), ?_⟩
    · exact absurd (disciplined before act after split) broken.not_allowed
    · intro fault' same
      obtain rfl := Option.some.inj same
      exact ⟨before, act, after, name, cause, split, first, broken, said⟩

/-- A loop may declare 真 anew, with the builtin as its initial value, and assign to it from then on:
the name stands for the builtin in the first place and for the variable in the others. -/
theorem resolve_disciplined_shadowing :
    let word (kind : TokenKind) (lexeme : String) (column : Int) : Token := ⟨kind, lexeme, 1, column⟩
    let p : Program := [.loop (word .loop "恆為是" 1)
      [.declare (word .declare "吾有" 4) (word .stringType "一言" 6) (word .string "真" 9)
        (some (.use (word .identifier "真" 14) none)),
       .assign (word .identifier "真" 16) (.use (word .identifier "真" 19) none)]]
    stmtsComplete p = true ∧ p.resolve.fault = none ∧ Disciplined (stmtActs p) := by
  intro word p
  have complete : stmtsComplete p = true := rfl
  have resolved : p.resolve.fault = none := by decide
  exact ⟨complete, resolved, (resolve_disciplined p complete).1.mp resolved⟩

end Guwen
