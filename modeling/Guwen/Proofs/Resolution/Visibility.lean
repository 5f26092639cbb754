/-
**Which declarations can be seen at a place of the walk.**

Visibility is said of the acts before the place alone: a declaration is seen as long as the block it
stands in has not been closed, and the builtins are seen everywhere. Nothing here keeps a stack.

* `Visible before symbol` — the symbol can be seen behind the acts `before`.
* `Innermost before name symbol` — of all declarations of the name that can be seen, the symbol's is
  the deepest.
* **`Pictures`** — the frames of a scope hold just the visible symbols, each at its depth;
  `Pictures.walk`: a run without a fault keeps that.
* **`Pictures.find?_eq_some_iff`** — looking a name up finds its innermost declaration.
-/
import Guwen.Proofs.Resolution.Walk

namespace Guwen

/-! ### What one act does -/

namespace Act

variable {scope : Scope}

theorem run_declare (name : Token) (type : Text) (kind : SymbolKind) :
    run scope (declare name type kind) =
      match scope.current.find? name.lexeme with
      | some _ => .error (scope.refuse .redeclared name)
      | none => .ok (scope.push ⟨name.lexeme, type, kind, scope.depth, false, name.position⟩) := by
  simp only [run, Scope.declare, Scope.define]
  cases scope.current.find? name.lexeme <;> rfl

/-- **A declaration that runs** finds its name free and adds its symbol. -/
theorem eq_of_run_declare {next : Scope} {name : Token} {type : Text} {kind : SymbolKind}
    (ran : run scope (declare name type kind) = .ok next) :
    scope.current.find? name.lexeme = none ∧
      next = scope.push ⟨name.lexeme, type, kind, scope.depth, false, name.position⟩ ∧
      symbol? scope (declare name type kind) =
        some ⟨name.lexeme, type, kind, scope.depth, false, name.position⟩ := by
  rw [run_declare] at ran
  cases found : scope.current.find? name.lexeme with
  | some symbol => simp [found] at ran
  | none =>
    simp only [found, Except.ok.injEq] at ran
    refine ⟨rfl, ran.symm, ?_⟩
    simp [symbol?, Scope.declare, Scope.define, found, Except.toOption]

/-- A lookup leaves the scope. -/
theorem eq_of_run_lookup {next : Scope} {found : Except Fault Symbol}
    (ran : found.map (fun _ => scope) = .ok next) : next = scope := by
  cases found with
  | ok symbol => exact (Except.ok.inj ran).symm
  | error fault => cases ran

theorem run_use (name : Token) (mark : Option Symbol) :
    run scope (use name mark) =
      match scope.find? name.lexeme with
      | none => .error (scope.refuse .undeclared name)
      | some _ => .ok scope := by
  simp only [run, Scope.lookup]
  cases scope.find? name.lexeme <;> rfl

theorem run_target (name : Token) :
    run scope (target name) =
      match scope.find? name.lexeme with
      | none => .error (scope.refuse .undeclared name)
      | some symbol =>
        if symbol.kind = .function || symbol.builtin then
          .error (scope.refuse .notAssignable name)
        else .ok scope := by
  simp only [run, Scope.lookupTarget, Scope.lookup]
  cases scope.find? name.lexeme with
  | none => rfl
  | some symbol => exact apply_ite (Except.map fun _ => scope) _ _ _

theorem run_call (callee : Token) (count : Nat) (mark : Option Symbol) :
    run scope (call callee count mark) =
      match scope.find? callee.lexeme with
      | none => .error (scope.refuse .undeclared callee)
      | some symbol =>
        if symbol.kind ≠ .function then .error (scope.refuse .notCallable callee)
        else if symbol.builtin && Scope.exceedsArity callee.lexeme count then
          .error (scope.refuse .tooManyArguments callee)
        else .ok scope := by
  simp only [run, Scope.lookupCallee, Scope.lookup]
  cases scope.find? callee.lexeme with
  | none => rfl
  | some symbol =>
    have inner := apply_ite (Except.map fun _ => scope)
      (symbol.builtin && Scope.exceedsArity callee.lexeme count)
      (.error (scope.refuse .tooManyArguments callee)) (pure symbol)
    exact (apply_ite (Except.map fun _ => scope) _ _ _).trans (congrArg _ inner)

end Act

/-! ### Blocks -/

/-- **The block around these acts is not closed by them:** no beginning of them closes more blocks
than it opens. -/
def StaysOpen (acts : List Act) : Prop :=
  ∀ first, first <+: acts → first.count .leave ≤ first.count .enter

/-- How many blocks are open behind the acts. -/
def level (acts : List Act) : Nat := acts.count .enter - acts.count .leave

/-- **Every block that the acts open is closed by them, and no other.** -/
structure Balanced (acts : List Act) : Prop where
  inside : StaysOpen acts
  even : acts.count .leave = acts.count .enter

theorem StaysOpen.count_le {acts : List Act} (inside : StaysOpen acts) :
    acts.count .leave ≤ acts.count .enter :=
  inside acts (List.prefix_refl acts)

theorem StaysOpen.of_prefix {first acts : List Act} (inside : StaysOpen acts)
    (start : first <+: acts) : StaysOpen first :=
  fun _ part => inside _ (part.trans start)

theorem staysOpen_nil : StaysOpen [] := by
  intro first start
  rw [List.prefix_nil.mp start]
  exact Nat.le_refl _

theorem staysOpen_append {first rest : List Act} (start : Balanced first)
    (inside : StaysOpen rest) : StaysOpen (first ++ rest) := by
  intro part isPart
  rcases List.prefix_or_prefix_of_prefix isPart (List.prefix_append first rest) with
    within | ⟨more, rfl⟩
  · exact start.inside part within
  · have here := inside more ((List.prefix_append_right_inj first).mp isPart)
    have even := start.even
    rw [List.count_append, List.count_append]
    omega

/-- One more act keeps the block open, unless it closes it. -/
theorem staysOpen_concat_iff {acts : List Act} {act : Act} :
    StaysOpen (acts ++ [act]) ↔
      StaysOpen acts ∧ (act = .leave → acts.count .leave < acts.count .enter) := by
  constructor
  · intro inside
    refine ⟨inside.of_prefix (List.prefix_append acts [act]), ?_⟩
    rintro rfl
    show acts.count .leave + 1 ≤ acts.count .enter
    simpa using inside.count_le
  · rintro ⟨inside, more⟩ part isPart
    rcases List.prefix_concat_iff.mp isPart with rfl | within
    · have here := inside.count_le
      by_cases closes : act = .leave
      · have room : acts.count .leave + 1 ≤ acts.count .enter := more closes
        subst closes
        simpa using room
      · by_cases opens : act = .enter
        · subst opens
          simpa using Nat.le_succ_of_le here
        · simpa [List.count_singleton, closes, opens] using here
    · exact inside part within

namespace Balanced

theorem nil : Balanced [] := ⟨staysOpen_nil, rfl⟩

theorem append {first rest : List Act} (start : Balanced first) (more : Balanced rest) :
    Balanced (first ++ rest) := by
  refine ⟨staysOpen_append start more.inside, ?_⟩
  rw [List.count_append, List.count_append, start.even, more.even]

/-- An act that neither opens nor closes. -/
theorem single {act : Act} (opens : act ≠ .enter) (closes : act ≠ .leave) : Balanced [act] := by
  refine ⟨?_, ?_⟩
  · have first : StaysOpen ([] ++ [act]) :=
      staysOpen_concat_iff.mpr ⟨staysOpen_nil, fun closed => absurd closed closes⟩
    exact first
  · simp [opens, closes]

theorem block {inner : List Act} (inside : Balanced inner) : Balanced (blockActs inner) := by
  have even := inside.even
  have opened : StaysOpen (.enter :: inner) := by
    intro part isPart
    rcases List.prefix_cons_iff.mp isPart with rfl | ⟨more, rfl, within⟩
    · exact Nat.le_refl _
    · have here := inside.inside more within
      simp only [List.count_cons_self, List.count_cons_of_ne, ne_eq, reduceCtorEq,
        not_false_eq_true]
      omega
  unfold blockActs
  refine ⟨staysOpen_concat_iff.mpr ⟨opened, fun _ => ?_⟩, ?_⟩
  · simp [even]
  · simp [List.count_append, even]

end Balanced

mutual

theorem Expr.balanced_acts : ∀ e : Expr, Balanced e.acts
  | .binary _ _ left right => left.balanced_acts.append right.balanced_acts
  | .literal .. => .nil
  | .use .. => .single Act.noConfusion Act.noConfusion
  | .call _ _ arguments _ =>
    (Balanced.single Act.noConfusion Act.noConfusion).append (balanced_exprActs arguments)
  | .list _ elements => balanced_exprActs elements
  | .missing => .nil

theorem balanced_exprActs : ∀ es : List Expr, Balanced (exprActs es)
  | [] => .nil
  | e :: es => e.balanced_acts.append (balanced_exprActs es)

end

theorem balanced_optionActs (value : Option Expr) : Balanced (optionActs value) := by
  cases value with
  | none => exact .nil
  | some e => exact e.balanced_acts

theorem balanced_params (params : List Param) : Balanced (params.map Param.act) := by
  induction params with
  | nil => exact .nil
  | cons p ps ih => exact (Balanced.single Act.noConfusion Act.noConfusion).append ih

mutual

theorem Stmt.balanced_acts : ∀ s : Stmt, Balanced s.acts
  | .declare _ _ _ value =>
    (balanced_optionActs value).append (.single Act.noConfusion Act.noConfusion)
  | .param _ => .single Act.noConfusion Act.noConfusion
  | .function _ _ params body =>
    (Balanced.single Act.noConfusion Act.noConfusion).append
      ((balanced_params params).append (balanced_stmtActs body)).block
  | .conditional _ condition yes no =>
    condition.balanced_acts.append
      ((balanced_stmtActs yes).block.append (balanced_stmtActs no).block)
  | .loop _ body => (balanced_stmtActs body).block
  | .print _ value => value.balanced_acts
  | .returns _ value => balanced_optionActs value
  | .assign _ value =>
    (Balanced.single Act.noConfusion Act.noConfusion).append value.balanced_acts
  | .breaks _ => .nil
  | .perform _ value => value.balanced_acts
  | .missing => .nil

/-- **The walk closes every block it opens, and no other.** -/
theorem balanced_stmtActs : ∀ ss : List Stmt, Balanced (stmtActs ss)
  | [] => .nil
  | s :: ss => s.balanced_acts.append (balanced_stmtActs ss)

end

/-! ### Visible declarations -/

/-- **The symbol can be seen behind the acts `before`:** it is a builtin, or it was declared by one
of them in a block that is still open. Its depth is the number of blocks around the declaration. -/
inductive Visible (before : List Act) : Symbol → Prop where
  | builtin {b : Builtin} : b ∈ Builtin.all → Visible before b.symbol
  | declared {earlier later : List Act} {name : Token} {type : Text} {kind : SymbolKind} :
      before = earlier ++ .declare name type kind :: later → StaysOpen later →
      Visible before ⟨name.lexeme, type, kind, level earlier, false, name.position⟩

/-- **The deepest visible declaration of a name.** -/
def Innermost (before : List Act) (name : Text) (symbol : Symbol) : Prop :=
  Visible before symbol ∧ symbol.name = name ∧
    ∀ other, Visible before other → other.name = name → other.depth ≤ symbol.depth

/-- The present depth, counted from a declaration whose block is still open. -/
theorem level_declared {earlier later : List Act} {name : Token} {type : Text} {kind : SymbolKind}
    (inside : StaysOpen (earlier ++ .declare name type kind :: later)) (opened : StaysOpen later) :
    level (earlier ++ .declare name type kind :: later) =
      level earlier + (later.count .enter - later.count .leave) := by
  have first := (inside.of_prefix (List.prefix_append earlier _)).count_le
  have second := opened.count_le
  unfold level
  simp only [List.count_append, List.count_cons_of_ne, ne_eq, reduceCtorEq, not_false_eq_true]
  omega

/-- Nothing is seen from a block deeper than the present one. -/
theorem Visible.depth_le {before : List Act} {symbol : Symbol} (visible : Visible before symbol)
    (inside : StaysOpen before) : symbol.depth ≤ level before := by
  cases visible with
  | builtin _ => exact Nat.zero_le _
  | declared split opened =>
    subst split
    rw [level_declared inside opened]
    exact Nat.le_add_right _ _

/-- **Behind one more act:** the act itself may be a declaration; an older one is still seen unless
the act closes its block. -/
theorem visible_concat_iff {before : List Act} {act : Act} {symbol : Symbol}
    (inside : StaysOpen (before ++ [act])) :
    Visible (before ++ [act]) symbol ↔
      (∃ name type kind, act = .declare name type kind ∧
        symbol = ⟨name.lexeme, type, kind, level before, false, name.position⟩) ∨
      (Visible before symbol ∧ (act = .leave → symbol.depth < level before)) := by
  obtain ⟨within, room⟩ := staysOpen_concat_iff.mp inside
  constructor
  · intro visible
    cases visible with
    | builtin known =>
      refine .inr ⟨.builtin known, fun closes => ?_⟩
      exact Nat.sub_pos_of_lt (room closes)
    | @declared earlier later name type kind split opened =>
      -- The declaration is the new act, or stands among the older ones.
      rcases List.eq_nil_or_concat later with rfl | ⟨later, last, rfl⟩
      · obtain ⟨rfl, same⟩ := List.append_inj' split rfl
        exact .inl ⟨name, type, kind, List.head_eq_of_cons_eq same, rfl⟩
      · rw [List.concat_eq_append, ← List.cons_append, ← List.append_assoc] at split
        obtain ⟨rfl, same⟩ := List.append_inj' split rfl
        obtain rfl := List.head_eq_of_cons_eq same
        rw [List.concat_eq_append] at opened
        obtain ⟨opened, left⟩ := staysOpen_concat_iff.mp opened
        refine .inr ⟨.declared rfl opened, fun closes => ?_⟩
        have room := left closes
        rw [level_declared within opened]
        dsimp only
        omega
  · rintro (⟨name, type, kind, rfl, rfl⟩ | ⟨visible, deeper⟩)
    · exact .declared rfl staysOpen_nil
    · cases visible with
      | builtin known => exact .builtin known
      | @declared earlier later name type kind split opened =>
        subst split
        refine .declared (List.append_assoc ..)
          (staysOpen_concat_iff.mpr ⟨opened, fun closes => ?_⟩)
        have above := deeper closes
        rw [level_declared within opened] at above
        dsimp only at above
        omega

theorem level_enter {acts : List Act} (inside : StaysOpen acts) :
    level (acts ++ [.enter]) = level acts + 1 := by
  have room := inside.count_le
  simp [level]
  omega

theorem level_leave {acts : List Act} : level (acts ++ [.leave]) = level acts - 1 := by
  simp [level]
  omega

theorem level_plain {acts : List Act} {act : Act} (opens : act ≠ .enter) (closes : act ≠ .leave) :
    level (acts ++ [act]) = level acts := by
  simp [level, opens, closes]

/-! ### Scopes picture what is visible -/

/-- Frames, the innermost first, that hold just the visible symbols, each at its depth. -/
def FramesShow (visible : Symbol → Prop) : List Frame → Prop
  | [] => True
  | frame :: outer =>
    (∀ name symbol, frame.find? name = some symbol ↔
      visible symbol ∧ symbol.name = name ∧ symbol.depth = outer.length) ∧
    FramesShow visible outer

/-- Only symbols from the depths of the frames matter. -/
theorem FramesShow.congr {visible visible' : Symbol → Prop} {frames : List Frame}
    (same : ∀ symbol, symbol.depth < frames.length → (visible symbol ↔ visible' symbol))
    (shows : FramesShow visible frames) : FramesShow visible' frames := by
  induction frames with
  | nil => trivial
  | cons frame outer ih =>
    refine ⟨fun name symbol => ?_, ih (fun symbol below => same symbol (Nat.lt_succ_of_lt below))
      shows.2⟩
    rw [shows.1 name symbol]
    constructor
    · rintro ⟨seen, named, deep⟩
      exact ⟨(same symbol (by rw [deep]; exact Nat.lt_succ_self _)).mp seen, named, deep⟩
    · rintro ⟨seen, named, deep⟩
      exact ⟨(same symbol (by rw [deep]; exact Nat.lt_succ_self _)).mpr seen, named, deep⟩

/-- **The first frame that holds the name holds its deepest declaration.** -/
theorem FramesShow.findSome?_eq_some_iff {visible : Symbol → Prop} {frames : List Frame}
    (shows : FramesShow visible frames) (name : Text) (symbol : Symbol) :
    frames.findSome? (·.find? name) = some symbol ↔
      (visible symbol ∧ symbol.name = name ∧ symbol.depth < frames.length) ∧
      ∀ other, visible other → other.name = name → other.depth < frames.length →
        other.depth ≤ symbol.depth := by
  induction frames with
  | nil => simp
  | cons frame outer ih =>
    rw [List.findSome?_cons]
    cases found : frame.find? name with
    | some hit =>
      obtain ⟨seen, named, deep⟩ := (shows.1 name hit).mp found
      constructor
      · intro same
        obtain rfl := Option.some.inj same
        exact ⟨⟨seen, named, by rw [deep]; exact Nat.lt_succ_self _⟩,
          fun other _ _ below => by rw [deep]; exact Nat.le_of_lt_succ below⟩
      · rintro ⟨⟨seen', named', below⟩, deepest⟩
        have above := deepest hit seen named (by rw [deep]; exact Nat.lt_succ_self _)
        have deep' : symbol.depth = outer.length := by
          rw [List.length_cons] at below
          omega
        have hit' := (shows.1 name symbol).mpr ⟨seen', named', deep'⟩
        exact found.symm.trans hit'
    | none =>
      have absent : ∀ other, visible other → other.name = name → other.depth ≠ outer.length := by
        intro other seen named deep
        have present := (shows.1 name other).mpr ⟨seen, named, deep⟩
        rw [found] at present
        cases present
      have narrow : ∀ other, visible other → other.name = name →
          (other.depth < outer.length + 1 ↔ other.depth < outer.length) := by
        intro other seen named
        have apart := absent other seen named
        omega
      dsimp only
      rw [ih shows.2, List.length_cons]
      constructor
      · rintro ⟨⟨seen, named, below⟩, deepest⟩
        exact ⟨⟨seen, named, Nat.lt_succ_of_lt below⟩, fun other seen' named' below' =>
          deepest other seen' named' ((narrow other seen' named').mp below')⟩
      · rintro ⟨⟨seen, named, below⟩, deepest⟩
        exact ⟨⟨seen, named, (narrow symbol seen named).mp below⟩, fun other seen' named' below' =>
          deepest other seen' named' (Nat.lt_succ_of_lt below')⟩

theorem FramesShow.findSome?_eq_none_iff {visible : Symbol → Prop} {frames : List Frame}
    (shows : FramesShow visible frames) (name : Text) :
    frames.findSome? (·.find? name) = none ↔
      ∀ symbol, visible symbol → symbol.name = name → ¬ symbol.depth < frames.length := by
  constructor
  · intro absent symbol seen named below
    induction frames with
    | nil => exact Nat.not_lt_zero _ below
    | cons frame outer ih =>
      rw [List.findSome?_cons] at absent
      cases found : frame.find? name with
      | some hit =>
        rw [found] at absent
        cases absent
      | none =>
        rw [found] at absent
        have apart : symbol.depth ≠ outer.length := by
          intro deep
          have present := (shows.1 name symbol).mpr ⟨seen, named, deep⟩
          rw [found] at present
          cases present
        rw [List.length_cons] at below
        exact ih shows.2 absent (by omega)
  · intro absent
    cases found : frames.findSome? (·.find? name) with
    | none => rfl
    | some symbol =>
      obtain ⟨⟨seen, named, below⟩, _⟩ := (shows.findSome?_eq_some_iff name symbol).mp found
      exact absurd below (absent symbol seen named)

/-- One more symbol in the innermost frame shows just that one besides. -/
theorem FramesShow.push {visible visible' : Symbol → Prop} {frame : Frame} {outer : List Frame}
    {symbol : Symbol} (shows : FramesShow visible (frame :: outer))
    (fresh : frame.find? symbol.name = none) (deep : symbol.depth = outer.length)
    (seen : ∀ other, visible' other ↔ other = symbol ∨ visible other) :
    FramesShow visible' ((symbol :: frame) :: outer) := by
  refine ⟨fun name other => ?_, shows.2.congr fun other below => ?_⟩
  · rw [seen]
    by_cases named : symbol.name = name
    · have found : Frame.find? (symbol :: frame) name = some symbol :=
        List.find?_cons_of_pos (by simpa using named)
      rw [found]
      constructor
      · intro same
        obtain rfl := Option.some.inj same
        exact ⟨.inl rfl, named, deep⟩
      · rintro ⟨rfl | old, named', deep'⟩
        · rfl
        · have there := (shows.1 name other).mpr ⟨old, named', deep'⟩
          rw [← named, fresh] at there
          cases there
    · have found : Frame.find? (symbol :: frame) name = frame.find? name :=
        List.find?_cons_of_neg (by simpa using named)
      rw [found, shows.1]
      constructor
      · rintro ⟨old, rest⟩
        exact ⟨.inr old, rest⟩
      · rintro ⟨rfl | old, named', deep'⟩
        · exact absurd named' named
        · exact ⟨old, named', deep'⟩
  · rw [seen]
    constructor
    · exact .inr
    · rintro (rfl | old)
      · omega
      · exact old

/-- The innermost frame comes first, and a new symbol heads it. -/
theorem Scope.exists_outer (scope : Scope) (symbol : Symbol) :
    ∃ outer, scope.blocks ++ [scope.globals] = scope.current :: outer ∧
      (scope.push symbol).blocks ++ [(scope.push symbol).globals] =
        (symbol :: scope.current) :: outer ∧
      scope.depth = outer.length ∧ (scope.push symbol).depth = scope.depth := by
  obtain ⟨_ | ⟨frame, blocks⟩, globals⟩ := scope
  · exact ⟨[], rfl, rfl, rfl, rfl⟩
  · have length : (blocks ++ [globals]).length = blocks.length + 1 := List.length_append
    exact ⟨blocks ++ [globals], rfl, rfl, length.symm, rfl⟩

/-- **The scope holds what is visible behind the acts.** -/
structure Pictures (before : List Act) (scope : Scope) : Prop where
  depth : scope.depth = level before
  frames : FramesShow (Visible before) (scope.blocks ++ [scope.globals])

/-- Where the names of the items differ, a name finds just the item that has it. -/
theorem find?_named_eq_some_iff {α : Type} {named : α → Text} {items : List α}
    (distinct : (items.map named).Nodup) (name : Text) (item : α) :
    items.find? (named · == name) = some item ↔ item ∈ items ∧ named item = name := by
  induction items with
  | nil => simp
  | cons first rest ih =>
    rw [List.map_cons, List.nodup_cons] at distinct
    by_cases hit : named first = name
    · rw [List.find?_cons_of_pos (by simpa using hit)]
      constructor
      · intro same
        obtain rfl := Option.some.inj same
        exact ⟨List.mem_cons_self, hit⟩
      · rintro ⟨member, hit'⟩
        rcases List.mem_cons.mp member with rfl | later
        · rfl
        · have again : named first ∈ rest.map named :=
            List.mem_map.mpr ⟨item, later, hit'.trans hit.symm⟩
          exact absurd again distinct.1
    · rw [List.find?_cons_of_neg (by simpa using hit), ih distinct.2, List.mem_cons]
      constructor
      · rintro ⟨member, hit'⟩
        exact ⟨.inr member, hit'⟩
      · rintro ⟨rfl | member, hit'⟩
        · exact absurd hit' hit
        · exact ⟨member, hit'⟩

/-- Before any act just the builtins are seen. -/
theorem visible_nil_iff {symbol : Symbol} : Visible [] symbol ↔ symbol ∈ Scope.initial.globals := by
  constructor
  · intro visible
    cases visible with
    | builtin known => exact List.mem_map_of_mem known
    | declared split _ => exact absurd split (by simp)
  · intro member
    obtain ⟨b, known, rfl⟩ := List.mem_map.mp member
    exact .builtin known

theorem pictures_initial : Pictures [] .initial := by
  have distinct : (Scope.initial.globals.map Symbol.name).Nodup := by decide
  have shallow : ∀ symbol ∈ Scope.initial.globals, symbol.depth = 0 := by decide
  refine ⟨rfl, fun name symbol => ?_, trivial⟩
  show List.find? (Symbol.name · == name) Scope.initial.globals = some symbol ↔ _
  rw [find?_named_eq_some_iff distinct, visible_nil_iff]
  constructor
  · rintro ⟨member, named⟩
    exact ⟨member, named, shallow symbol member⟩
  · rintro ⟨member, named, _⟩
    exact ⟨member, named⟩

namespace Pictures

variable {before : List Act} {scope next : Scope} {act : Act}

/-- Neither a declaration nor a bracket of a block changes what is seen. -/
theorem plain (pictures : Pictures before scope) (inside : StaysOpen (before ++ [act]))
    (declares : ∀ name type kind, act ≠ .declare name type kind) (closes : act ≠ .leave)
    (opens : act ≠ .enter) : Pictures (before ++ [act]) scope := by
  refine ⟨?_, pictures.frames.congr fun symbol _ => ?_⟩
  · rw [level_plain opens closes]
    exact pictures.depth
  · rw [visible_concat_iff inside]
    simp [declares, closes]

theorem enter (pictures : Pictures before scope) (inside : StaysOpen (before ++ [.enter])) :
    Pictures (before ++ [.enter]) scope.enter := by
  have within := inside.of_prefix (List.prefix_append before _)
  have seen : ∀ symbol, Visible (before ++ [.enter]) symbol ↔ Visible before symbol := by
    intro symbol
    rw [visible_concat_iff inside]
    simp
  refine ⟨?_, fun name symbol => ?_, pictures.frames.congr fun symbol _ => (seen symbol).symm⟩
  · rw [level_enter within]
    exact congrArg (· + 1) pictures.depth
  · -- The new frame is empty, and nothing is declared so deep.
    constructor
    · intro found
      cases found
    · rintro ⟨visible, _, depth⟩
      have bound := ((seen symbol).mp visible).depth_le within
      have length : symbol.depth = scope.depth + 1 := depth.trans List.length_append
      rw [← pictures.depth] at bound
      omega

theorem leave (pictures : Pictures before scope) (inside : StaysOpen (before ++ [.leave])) :
    Pictures (before ++ [.leave]) scope.leave := by
  have room := (staysOpen_concat_iff.mp inside).2 rfl
  have deep := pictures.depth
  obtain ⟨_ | ⟨frame, outer⟩, globals⟩ := scope
  · have none_open : 0 = level before := deep
    unfold level at none_open
    omega
  · refine ⟨?_, pictures.frames.2.congr fun symbol below => ?_⟩
    · rw [level_leave, ← deep]
      rfl
    · have above : symbol.depth < level before := by
        rw [← deep]
        exact Nat.lt_of_lt_of_eq below List.length_append
      rw [visible_concat_iff inside]
      simp [above]

theorem declare {name : Token} {type : Text} {kind : SymbolKind}
    (pictures : Pictures before scope) (inside : StaysOpen (before ++ [.declare name type kind]))
    (fresh : scope.current.find? name.lexeme = none) :
    Pictures (before ++ [.declare name type kind])
      (scope.push ⟨name.lexeme, type, kind, scope.depth, false, name.position⟩) := by
  have deep := pictures.depth
  have seen : ∀ other, Visible (before ++ [.declare name type kind]) other ↔
      other = ⟨name.lexeme, type, kind, scope.depth, false, name.position⟩ ∨
        Visible before other := by
    intro other
    rw [visible_concat_iff inside, deep]
    constructor
    · rintro (⟨_, _, _, same, rfl⟩ | ⟨visible, _⟩)
      · cases same
        exact .inl rfl
      · exact .inr visible
    · rintro (rfl | visible)
      · exact .inl ⟨name, type, kind, rfl, rfl⟩
      · exact .inr ⟨visible, Act.noConfusion⟩
  obtain ⟨outer, split, pushed, length, depth⟩ :=
    scope.exists_outer ⟨name.lexeme, type, kind, scope.depth, false, name.position⟩
  have frames := pictures.frames
  rw [split] at frames
  refine ⟨?_, ?_⟩
  · rw [level_plain Act.noConfusion Act.noConfusion, depth, deep]
  · rw [pushed]
    exact frames.push fresh length seen

/-- **One act without a fault keeps the picture.** -/
theorem step (pictures : Pictures before scope) (inside : StaysOpen (before ++ [act]))
    (ran : act.run scope = .ok next) : Pictures (before ++ [act]) next := by
  cases act with
  | enter =>
    obtain rfl := Except.ok.inj ran
    exact pictures.enter inside
  | leave =>
    obtain rfl := Except.ok.inj ran
    exact pictures.leave inside
  | declare name type kind =>
    obtain ⟨fresh, rfl, -⟩ := Act.eq_of_run_declare ran
    exact pictures.declare inside fresh
  | use name mark =>
    obtain rfl := Act.eq_of_run_lookup ran
    exact pictures.plain inside (fun _ _ _ => Act.noConfusion) Act.noConfusion Act.noConfusion
  | target name =>
    obtain rfl := Act.eq_of_run_lookup ran
    exact pictures.plain inside (fun _ _ _ => Act.noConfusion) Act.noConfusion Act.noConfusion
  | call callee count mark =>
    obtain rfl := Act.eq_of_run_lookup ran
    exact pictures.plain inside (fun _ _ _ => Act.noConfusion) Act.noConfusion Act.noConfusion

/-- **A run without a fault keeps the picture.** -/
theorem walk {more : List Act} (pictures : Pictures before scope)
    (inside : StaysOpen (before ++ more)) (ran : walk scope more = .ok next) :
    Pictures (before ++ more) next := by
  induction more generalizing before scope with
  | nil =>
    obtain rfl := Except.ok.inj ran
    rwa [List.append_nil]
  | cons act more ih =>
    have split : before ++ act :: more = before ++ [act] ++ more := by simp
    rw [split] at inside ⊢
    have first := inside.of_prefix (List.prefix_append _ more)
    rw [walk_cons, bind_eq_ok] at ran
    obtain ⟨middle, one, ran⟩ := ran
    exact ih (pictures.step first one) inside ran

/-- All that is seen lies in one of the frames. -/
theorem depth_lt (pictures : Pictures before scope) (inside : StaysOpen before) {symbol : Symbol}
    (visible : Visible before symbol) :
    symbol.depth < (scope.blocks ++ [scope.globals]).length := by
  have bound := visible.depth_le inside
  rw [← pictures.depth] at bound
  rw [List.length_append]
  exact Nat.lt_succ_of_le bound

/-- **Looking a name up finds its innermost declaration.** -/
theorem find?_eq_some_iff (pictures : Pictures before scope) (inside : StaysOpen before)
    (name : Text) (symbol : Symbol) :
    scope.find? name = some symbol ↔ Innermost before name symbol := by
  unfold Scope.find? Innermost
  rw [pictures.frames.findSome?_eq_some_iff]
  constructor
  · rintro ⟨⟨visible, named, _⟩, deepest⟩
    exact ⟨visible, named, fun other seen named' =>
      deepest other seen named' (pictures.depth_lt inside seen)⟩
  · rintro ⟨visible, named, deepest⟩
    exact ⟨⟨visible, named, pictures.depth_lt inside visible⟩, fun other seen named' _ =>
      deepest other seen named'⟩

/-- Looking a name up fails just when no declaration of it is seen. -/
theorem find?_eq_none_iff (pictures : Pictures before scope) (inside : StaysOpen before)
    (name : Text) :
    scope.find? name = none ↔ ∀ symbol, Visible before symbol → symbol.name ≠ name := by
  unfold Scope.find?
  rw [pictures.frames.findSome?_eq_none_iff]
  constructor
  · intro absent symbol visible named
    exact absent symbol visible named (pictures.depth_lt inside visible)
  · intro absent symbol visible named _
    exact absent symbol visible named

/-- **The innermost frame holds what was declared at the present depth.** -/
theorem current_find?_eq_some_iff (pictures : Pictures before scope) (name : Text)
    (symbol : Symbol) :
    scope.current.find? name = some symbol ↔
      Visible before symbol ∧ symbol.name = name ∧ symbol.depth = level before := by
  have deep := pictures.depth
  have frames := pictures.frames
  obtain ⟨_ | ⟨frame, outer⟩, globals⟩ := scope
  · rw [← deep]
    exact frames.1 name symbol
  · have length : (outer ++ [globals]).length = level before := List.length_append.trans deep
    rw [← length]
    exact frames.1 name symbol

end Pictures

end Guwen
