/-
**Operations on a scope, in any order.**

A scope is entered and left, names are defined and looked up, and it is reset, in whatever order and
as often as one likes; leaving at the top level is allowed. Frames are numbered from the global one,
which is frame 0.

* `Scope.held? i name` — the symbol that frame `i` holds under a name.
* `Scope.Operation`, `Scope.perform` — the operations, and a run of them.
* **`Orderly`** — each symbol is held under its name in the frame of its depth, and the builtins are
  held by the global frame; `Orderly.step`, `orderly_perform`: every run keeps that.
* `define_eq_none_iff`, `held?_of_define` — when a name is refused, and what a definition changes.
* `find?_eq_some_iff` — a lookup gives the entry of the innermost frame that holds the name.
* `perform_bracketed` — what stands between an entry and its leaving is gone behind it.
* **`perform_disciplined`** — all of it, over any run.
-/
import Guwen.Proofs.Resolution.Visibility
import Mathlib.Data.List.Infix

namespace Guwen

namespace Scope

/-! ### Frames by their number -/

/-- The frames from the outermost inwards: the global one has the number 0. -/
def frames (scope : Scope) : List Frame := (scope.blocks ++ [scope.globals]).reverse

/-- **What frame `i` holds under a name.** -/
def held? (scope : Scope) (i : Nat) (name : Text) : Option Symbol :=
  scope.frames[i]?.bind (·.find? name)

/-- The last frame is the current one, its number is the depth, and a new symbol goes there. -/
theorem exists_frames (scope : Scope) (symbol : Symbol) :
    ∃ outer, scope.frames = outer ++ [scope.current] ∧ outer.length = scope.depth ∧
      (scope.push symbol).frames = outer ++ [symbol :: scope.current] ∧
      (scope.push symbol).depth = scope.depth := by
  obtain ⟨outer, all, pushed, depth, same⟩ := scope.exists_outer symbol
  refine ⟨outer.reverse, ?_, by rw [List.length_reverse, depth], ?_, same⟩
  · rw [frames, all, List.reverse_cons]
  · rw [frames, pushed, List.reverse_cons]

theorem frames_enter (scope : Scope) : scope.enter.frames = scope.frames ++ [[]] :=
  List.reverse_cons

/-- Leaving drops the last frame, unless it is the global one. -/
theorem frames_of_leave (scope : Scope) :
    scope.leave = scope ∨ ∃ last, scope.frames = scope.leave.frames ++ [last] := by
  obtain ⟨_ | ⟨frame, blocks⟩, globals⟩ := scope
  · exact .inl rfl
  · exact .inr ⟨frame, List.reverse_cons⟩

theorem held?_depth (scope : Scope) (name : Text) :
    scope.held? scope.depth name = scope.current.find? name := by
  obtain ⟨outer, all, length, -⟩ := scope.exists_frames ⟨name, [], .value, 0, false, .nowhere⟩
  rw [held?, all, ← length, List.getElem?_concat_length]
  rfl

/-! ### Operations -/

/-- **One operation on a scope.** -/
inductive Operation where
  | enter
  | leave
  | define (name type : Text) (kind : SymbolKind) (position : Position)
  | lookup (name : Text)
  /-- Back to the builtins alone. -/
  | reset
deriving DecidableEq

/-- The scope after an operation. A definition that is refused and a lookup leave it as it is. -/
def Operation.step (scope : Scope) : Operation → Scope
  | .enter => scope.enter
  | .leave => scope.leave
  | .define name type kind position =>
    ((scope.define name type kind position).map Prod.fst).getD scope
  | .lookup _ => scope
  | .reset => .initial

/-- **The scope after operations, one behind another.** -/
def perform (scope : Scope) (operations : List Operation) : Scope :=
  operations.foldl Operation.step scope

/-! ### Definitions -/

variable {scope next : Scope} {symbol : Symbol} {name type : Text} {kind : SymbolKind}
  {position : Position}

/-- **A name is refused just when the current frame holds it.** -/
theorem define_eq_none_iff :
    scope.define name type kind position = none ↔
      (scope.held? scope.depth name).isSome = true := by
  rw [held?_depth, define]
  cases scope.current.find? name with
  | none =>
    constructor
    · intro refused
      cases refused
    · intro held
      cases held
  | some found => exact ⟨fun _ => rfl, fun _ => rfl⟩

theorem step_of_define_eq_none (refused : scope.define name type kind position = none) :
    (Operation.define name type kind position).step scope = scope := by
  rw [Operation.step, refused]
  rfl

/-- **A definition finds the name free and pushes its symbol.** -/
theorem eq_of_define (defined : scope.define name type kind position = some (next, symbol)) :
    scope.current.find? name = none ∧ symbol = ⟨name, type, kind, scope.depth, false, position⟩ ∧
      next = scope.push symbol := by
  rw [define] at defined
  cases free : scope.current.find? name with
  | some found =>
    rw [free] at defined
    cases defined
  | none =>
    rw [free] at defined
    cases defined
    exact ⟨rfl, rfl, rfl⟩

theorem find?_cons (symbol : Symbol) (frame : Frame) (name : Text) :
    Frame.find? (symbol :: frame) name =
      if symbol.name = name then some symbol else frame.find? name := by
  rw [Frame.find?, List.find?_cons]
  by_cases same : symbol.name = name
  · rw [if_pos same, beq_iff_eq.mpr same]
  · rw [if_neg same, beq_eq_false_iff_ne.mpr same]
    rfl

/-- **A definition changes one entry,** that of its name in the current frame. -/
theorem held?_of_define (defined : scope.define name type kind position = some (next, symbol))
    (i : Nat) (other : Text) :
    next.held? i other =
      if i = scope.depth ∧ other = name then some symbol else scope.held? i other := by
  obtain ⟨-, built, rfl⟩ := eq_of_define defined
  have named : symbol.name = name := by rw [built]
  obtain ⟨outer, before, length, after, -⟩ := scope.exists_frames symbol
  rw [held?, held?, before, after, ← length]
  rcases Nat.lt_trichotomy i outer.length with inside | rfl | beyond
  · rw [if_neg (fun here => absurd here.1 (Nat.ne_of_lt inside)),
      List.getElem?_append_left inside, List.getElem?_append_left inside]
  · rw [List.getElem?_concat_length, List.getElem?_concat_length, Option.bind_some,
      Option.bind_some, find?_cons, named]
    by_cases same : name = other
    · rw [if_pos same, if_pos ⟨rfl, same.symm⟩]
    · rw [if_neg same, if_neg (fun here => same here.2.symm)]
  · have outside : ∀ last : Frame, (outer ++ [last])[i]? = none := by
      intro last
      rw [List.getElem?_eq_none_iff, List.length_append]
      exact beyond
    rw [if_neg (fun here => absurd here.1 (Nat.ne_of_gt beyond)), outside, outside]

/-! ### Lookups -/

/-- **A lookup gives the entry of the innermost frame that holds the name.** -/
theorem find?_eq_some_iff :
    scope.find? name = some symbol ↔
      ∃ i, scope.held? i name = some symbol ∧ ∀ j, i < j → scope.held? j name = none := by
  have all : scope.blocks ++ [scope.globals] = scope.frames.reverse :=
    (List.reverse_reverse _).symm
  rw [find?, List.findSome?_eq_some_iff]
  constructor
  · rintro ⟨inner, frame, outer, split, holds, absent⟩
    have numbered : scope.frames = outer.reverse ++ frame :: inner.reverse := by
      rw [frames, split, List.reverse_append, List.reverse_cons, List.append_assoc]
      rfl
    refine ⟨outer.reverse.length, ?_, fun j later => ?_⟩
    · rw [held?, numbered, List.getElem?_append_right (Nat.le_refl _), Nat.sub_self]
      exact holds
    · rw [held?, numbered, Option.bind_eq_none_iff]
      intro other place
      rw [List.getElem?_append_right (Nat.le_of_lt later)] at place
      obtain ⟨k, step⟩ := Nat.exists_eq_add_of_lt later
      have behind : j - outer.reverse.length = k + 1 := by omega
      rw [behind, List.getElem?_cons_succ] at place
      exact absent other (List.mem_reverse.mp (List.mem_of_getElem? place))
  · rintro ⟨i, holds, absent⟩
    obtain ⟨frame, place, found⟩ := Option.bind_eq_some_iff.mp holds
    obtain ⟨below, same⟩ := List.getElem?_eq_some_iff.mp place
    refine ⟨(scope.frames.drop (i + 1)).reverse, frame, (scope.frames.take i).reverse, ?_, found,
      fun other member => ?_⟩
    · rw [all, ← List.singleton_append, ← List.append_assoc, ← List.reverse_singleton,
        ← List.reverse_append, ← List.reverse_append, List.singleton_append, ← same,
        List.getElem_cons_drop, List.take_append_drop]
    · obtain ⟨k, later⟩ := List.mem_iff_getElem?.mp (List.mem_reverse.mp member)
      rw [List.getElem?_drop] at later
      have free := absent (i + 1 + k) (by omega)
      rwa [held?, later] at free

/-- A lookup gives nothing just when no frame holds the name. -/
theorem find?_eq_none_iff : scope.find? name = none ↔ ∀ i, scope.held? i name = none := by
  rw [find?, List.findSome?_eq_none_iff]
  constructor
  · intro absent i
    rw [held?, Option.bind_eq_none_iff]
    intro frame member
    exact absent frame (List.mem_reverse.mp (List.mem_of_getElem? member))
  · intro absent frame member
    obtain ⟨i, place⟩ := List.mem_iff_getElem?.mp (List.mem_reverse.mpr member)
    have here := absent i
    rwa [held?, frames, place] at here

/-! ### What every operation keeps -/

/-- Frame `i` is in order: its symbols have that depth, and each is found under its own name. -/
def InOrder (i : Nat) (frame : Frame) : Prop :=
  ∀ symbol ∈ frame, symbol.depth = i ∧ frame.find? symbol.name = some symbol

/-- **The scope is in order:** each of its frames is, and the global one holds the builtins. -/
structure Orderly (scope : Scope) : Prop where
  inOrder : ∀ i frame, scope.frames[i]? = some frame → InOrder i frame
  builtins : ∀ b ∈ Builtin.all, scope.globals.find? b.name = some b.symbol

theorem InOrder.push {i : Nat} {frame : Frame} (inOrder : InOrder i frame)
    (deep : symbol.depth = i) (free : frame.find? symbol.name = none) :
    InOrder i (symbol :: frame) := by
  intro other member
  rcases List.mem_cons.mp member with rfl | inside
  · exact ⟨deep, by rw [find?_cons, if_pos rfl]⟩
  · obtain ⟨depth, found⟩ := inOrder other inside
    refine ⟨depth, ?_⟩
    -- The new name was free, so it hides none that is held.
    rw [find?_cons, if_neg, found]
    intro same
    rw [same, found] at free
    cases free

/-- Frames are in order when all but the last and the last are. -/
theorem inOrder_append_iff {outer : List Frame} {last : Frame} :
    (∀ i frame, (outer ++ [last])[i]? = some frame → InOrder i frame) ↔
      (∀ i frame, outer[i]? = some frame → InOrder i frame) ∧ InOrder outer.length last := by
  constructor
  · intro all
    refine ⟨fun i frame place => all i frame ?_, all _ _ (List.getElem?_concat_length ..)⟩
    rwa [List.getElem?_append_left (List.getElem?_eq_some_iff.mp place).1]
  · rintro ⟨before, at_end⟩ i frame place
    rcases Nat.lt_trichotomy i outer.length with below | rfl | above
    · rw [List.getElem?_append_left below] at place
      exact before i frame place
    · rw [List.getElem?_concat_length] at place
      cases place
      exact at_end
    · have length := (List.getElem?_eq_some_iff.mp place).1
      rw [List.length_append, List.length_singleton] at length
      omega

theorem orderly_initial : Orderly initial := by
  have inOrder : ∀ symbol ∈ initial.globals,
      symbol.depth = 0 ∧ initial.globals.find? symbol.name = some symbol := by decide
  refine ⟨(@inOrder_append_iff [] _).mpr ⟨fun i frame place => ?_, inOrder⟩, by decide⟩
  cases place

theorem builtins_push (builtins : ∀ b ∈ Builtin.all, scope.globals.find? b.name = some b.symbol)
    (free : scope.current.find? symbol.name = none) :
    ∀ b ∈ Builtin.all, (scope.push symbol).globals.find? b.name = some b.symbol := by
  obtain ⟨_ | ⟨frame, blocks⟩, globals⟩ := scope
  · intro b known
    have held : globals.find? b.name = some b.symbol := builtins b known
    show Frame.find? (symbol :: globals) b.name = some b.symbol
    rw [find?_cons, if_neg, held]
    intro same
    have absent : globals.find? symbol.name = none := free
    rw [same, held] at absent
    cases absent
  · exact builtins

/-- **Every operation keeps a scope in order.** -/
theorem Orderly.step (orderly : Orderly scope) (operation : Operation) :
    Orderly (operation.step scope) := by
  cases operation with
  | enter =>
    refine ⟨?_, orderly.builtins⟩
    rw [Operation.step, frames_enter, inOrder_append_iff]
    exact ⟨orderly.inOrder, fun _ member => absurd member List.not_mem_nil⟩
  | leave =>
    rcases scope.frames_of_leave with same | ⟨last, split⟩
    · rw [Operation.step, same]
      exact orderly
    · have inOrder := orderly.inOrder
      rw [split, inOrder_append_iff] at inOrder
      exact ⟨inOrder.1, orderly.builtins⟩
  | define name type kind position =>
    cases defined : scope.define name type kind position with
    | none =>
      rw [step_of_define_eq_none defined]
      exact orderly
    | some result =>
      obtain ⟨next, symbol⟩ := result
      rw [Operation.step, defined]
      obtain ⟨free, built, rfl⟩ := eq_of_define defined
      obtain ⟨outer, before, length, after, -⟩ := scope.exists_frames symbol
      have named : symbol.name = name := by rw [built]
      have deep : symbol.depth = outer.length := by rw [built, length]
      rw [← named] at free
      have inOrder := orderly.inOrder
      rw [before, inOrder_append_iff] at inOrder
      refine ⟨?_, builtins_push orderly.builtins free⟩
      show ∀ i frame, (scope.push symbol).frames[i]? = some frame → InOrder i frame
      rw [after, inOrder_append_iff]
      exact ⟨inOrder.1, inOrder.2.push deep free⟩
  | lookup => exact orderly
  | reset => exact orderly_initial

/-- **Every run keeps a scope in order.** -/
theorem Orderly.perform (orderly : Orderly scope) (operations : List Operation) :
    Orderly (scope.perform operations) := by
  induction operations generalizing scope with
  | nil => exact orderly
  | cons operation operations ih => exact ih (orderly.step operation)

theorem Orderly.held (orderly : Orderly scope) {i : Nat} (held : scope.held? i name = some symbol) :
    symbol.depth = i ∧ symbol.name = name := by
  obtain ⟨frame, place, found⟩ := Option.bind_eq_some_iff.mp held
  have named : symbol.name = name :=
    beq_iff_eq.mp (List.find?_some (p := fun s : Symbol => s.name == name) found)
  exact ⟨(orderly.inOrder i frame place symbol (List.mem_of_find?_eq_some found)).1, named⟩

theorem held?_zero (scope : Scope) (name : Text) :
    scope.held? 0 name = scope.globals.find? name := by
  rw [held?, frames, List.reverse_append, List.reverse_singleton, List.singleton_append,
    List.getElem?_cons_zero, Option.bind_some]

/-! ### Brackets -/

/-- **Every leaving matches an entry among the operations, and every entry is left again.** -/
structure Bracketed (operations : List Operation) : Prop where
  inside : ∀ first, first <+: operations → first.count .leave ≤ first.count .enter
  even : operations.count .leave = operations.count .enter

instance (operations : List Operation) : Decidable (Bracketed operations) :=
  decidable_of_iff
    ((∀ first ∈ operations.inits, first.count .leave ≤ first.count .enter) ∧
      operations.count .leave = operations.count .enter)
    ⟨fun both => ⟨fun first start => both.1 first ((List.mem_inits first operations).mpr start),
      both.2⟩, fun bracketed => ⟨fun first member =>
      bracketed.inside first ((List.mem_inits first operations).mp member), bracketed.even⟩⟩

/-- In an open block a definition changes that block and nothing else. -/
theorem exists_step_define (frame : Frame) (blocks : List Frame) (globals : Frame)
    (name type : Text) (kind : SymbolKind) (position : Position) :
    ∃ frame', (Operation.define name type kind position).step ⟨frame :: blocks, globals⟩ =
      ⟨frame' :: blocks, globals⟩ := by
  cases defined : define ⟨frame :: blocks, globals⟩ name type kind position with
  | none => exact ⟨frame, step_of_define_eq_none defined⟩
  | some result =>
    obtain ⟨next, symbol⟩ := result
    obtain ⟨-, -, rfl⟩ := eq_of_define defined
    exact ⟨symbol :: frame, by rw [Operation.step, defined]; rfl⟩

/-- Operations that leave at least one of the inner blocks open touch no block further out. -/
theorem perform_inside {operations : List Operation} (kept : .reset ∉ operations)
    (inner : List Frame)
    (inside : ∀ first, first <+: operations →
      first.count .leave < inner.length + first.count .enter) (outer : Scope) :
    ∃ inner', perform ⟨inner ++ outer.blocks, outer.globals⟩ operations =
        ⟨inner' ++ outer.blocks, outer.globals⟩ ∧
      inner'.length + operations.count .leave = inner.length + operations.count .enter := by
  induction operations generalizing inner with
  | nil => exact ⟨inner, rfl, rfl⟩
  | cons operation operations ih =>
    obtain ⟨other, kept⟩ := not_or.mp (mt List.mem_cons.mpr kept)
    -- What is asked of the rest, when the operation turns the inner blocks into `next`.
    have rest (next : List Frame)
        (count : next.length + [operation].count .leave =
          inner.length + [operation].count .enter) :
        ∃ inner', perform ⟨next ++ outer.blocks, outer.globals⟩ operations =
            ⟨inner' ++ outer.blocks, outer.globals⟩ ∧
          inner'.length + (operation :: operations).count .leave =
            inner.length + (operation :: operations).count .enter := by
      have counts : ∀ bracket first, (operation :: first).count bracket =
          [operation].count bracket + first.count bracket := by
        intro bracket first
        rw [← List.count_append, List.singleton_append]
      obtain ⟨inner', ran, length⟩ := ih kept next fun first start => by
        have here := inside (operation :: first) (List.cons_prefix_cons.mpr ⟨rfl, start⟩)
        rw [counts .leave first, counts .enter first] at here
        omega
      refine ⟨inner', ran, ?_⟩
      rw [counts .leave operations, counts .enter operations]
      omega
    have first := inside [operation] (List.cons_prefix_cons.mpr ⟨rfl, List.nil_prefix⟩)
    cases operation with
    | enter => exact rest ([] :: inner) rfl
    | leave =>
      cases inner with
      | nil => exact absurd first (Nat.not_lt_zero _)
      | cons frame inner => exact rest inner rfl
    | define name type kind position =>
      cases inner with
      | nil => exact absurd first (Nat.not_lt_zero _)
      | cons frame inner =>
        obtain ⟨frame', defined⟩ :=
          exists_step_define frame (inner ++ outer.blocks) outer.globals name type kind position
        obtain ⟨inner', ran, length⟩ := rest (frame' :: inner) rfl
        refine ⟨inner', ?_, length⟩
        rw [perform, List.foldl_cons, List.cons_append, defined]
        exact ran
    | lookup name => exact rest inner rfl
    | reset => exact absurd rfl other

/-- **What stands between an entry and its leaving is gone behind it.** -/
theorem perform_bracketed (scope : Scope) {operations : List Operation}
    (kept : .reset ∉ operations) (bracketed : Bracketed operations) :
    scope.perform (.enter :: (operations ++ [.leave])) = scope := by
  obtain ⟨inner, ran, length⟩ := perform_inside kept [[]] (fun first start => by
    have here := bracketed.inside first start
    rw [List.length_singleton]
    omega) scope
  obtain ⟨frame, rfl⟩ : ∃ frame, inner = [frame] := by
    rw [← List.length_eq_one_iff]
    rw [bracketed.even, List.length_singleton] at length
    omega
  calc scope.perform (.enter :: (operations ++ [.leave]))
      = Operation.leave.step (perform ⟨[[]] ++ scope.blocks, scope.globals⟩ operations) :=
        by rw [perform, List.foldl_cons, List.foldl_append]; rfl
    _ = scope := by rw [ran]; rfl

/-! ### The main result -/

/-- **The discipline of a scope, over any run.** Whatever is done to a fresh scope, each symbol is
held under its own name in the frame of its depth and the builtins stay in the global frame; a name
is refused just when the current frame holds it, which changes nothing, and otherwise its entry is
the only one that changes; a lookup gives the entry of the innermost frame that holds the name. And
from any scope, entering, then anything bracketed without a reset, then leaving gives that scope
back. -/
theorem perform_disciplined :
    (∀ operations : List Operation,
      let scope := initial.perform operations
      (∀ i frame, scope.frames[i]? = some frame → ∀ symbol ∈ frame,
        symbol.depth = i ∧ scope.held? i symbol.name = some symbol) ∧
      (∀ i name symbol, scope.held? i name = some symbol →
        symbol.depth = i ∧ symbol.name = name) ∧
      (∀ b ∈ Builtin.all, scope.held? 0 b.name = some b.symbol) ∧
      (∀ name type kind position,
        (scope.define name type kind position = none ↔
          (scope.held? scope.depth name).isSome = true) ∧
        (scope.define name type kind position = none →
          (Operation.define name type kind position).step scope = scope) ∧
        (∀ next symbol, scope.define name type kind position = some (next, symbol) →
          (Operation.define name type kind position).step scope = next ∧
          symbol = ⟨name, type, kind, scope.depth, false, position⟩ ∧
          next.depth = scope.depth ∧
          ∀ i other, next.held? i other =
            if i = scope.depth ∧ other = name then some symbol else scope.held? i other)) ∧
      (∀ name symbol, scope.find? name = some symbol ↔
        ∃ i, scope.held? i name = some symbol ∧ ∀ j, i < j → scope.held? j name = none) ∧
      (∀ name, scope.find? name = none ↔ ∀ i, scope.held? i name = none)) ∧
    (∀ (scope : Scope) (operations : List Operation), .reset ∉ operations → Bracketed operations →
      scope.perform (.enter :: (operations ++ [.leave])) = scope) := by
  refine ⟨fun operations => ?_,
    fun scope _ kept bracketed => scope.perform_bracketed kept bracketed⟩
  intro scope
  have orderly : Orderly scope := orderly_initial.perform operations
  refine ⟨fun i frame place symbol member => ?_, fun _ _ _ held => orderly.held held,
    fun b known => ?_, fun name type kind position => ⟨define_eq_none_iff, step_of_define_eq_none,
      fun next symbol defined => ?_⟩, fun _ _ => find?_eq_some_iff, fun _ => find?_eq_none_iff⟩
  · obtain ⟨deep, found⟩ := orderly.inOrder i frame place symbol member
    exact ⟨deep, by rw [held?, place]; exact found⟩
  · rw [held?_zero]
    exact orderly.builtins b known
  · obtain ⟨-, built, pushed⟩ := eq_of_define defined
    obtain ⟨-, -, -, -, depth⟩ := scope.exists_frames symbol
    refine ⟨by rw [Operation.step, defined]; rfl, built, by rw [pushed, depth],
      held?_of_define defined⟩

/-- A name declared in two nested blocks, looked up, and declared a third time beside the inner
block; from a scope that has been left once too often. -/
theorem perform_disciplined_nested :
    let declare : Operation := .define "甲" "一數" .value .start
    let operations : List Operation :=
      [declare, .enter, declare, .lookup "甲", .leave, .enter, .leave, declare]
    let scope := initial.perform [.leave, declare]
    .reset ∉ operations ∧ Bracketed operations ∧
      scope.held? 0 "甲" = some ⟨"甲", "一數", .value, 0, false, .start⟩ ∧
      scope.perform (.enter :: (operations ++ [.leave])) = scope := by
  intro declare operations scope
  have kept : .reset ∉ operations := by decide
  have bracketed : Bracketed operations := by decide
  exact ⟨kept, bracketed, by decide, perform_disciplined.2 scope operations kept bracketed⟩

end Scope

end Guwen
