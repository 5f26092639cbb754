/-
**The names that are read mirror the scope.**

The blocks of a text that is read hold the declarations of the program as the frames of the scope
do, each known by its number among all declarations. A run of acts keeps this when they are
replayed.

* `Shows done frame block` — the block holds the declarations of the frame.
* **`Mirrors`** — the blocks show the frames, and nothing was declared twice in one of them.
* `Mirrors.find?_eq` — an identifier stands for the declaration of what its name stands for.
* **`Mirrors.step`**, **`Mirrors.run`** — one act, and a run without a fault, keep the mirror, and
  the names in use meet the declarations that resolution finds.
-/
import Guwen.Proofs.Code.Replay

namespace Guwen

open Code

/-- The name that an act refers to and what it stands for, unless it is a builtin. -/
def Act.userReference? (scope : Scope) (act : Act) : Option (Token × Symbol) :=
  act.reference?.bind fun name =>
    ((scope.find? name.lexeme).filter (!·.builtin)).map fun symbol => (name, symbol)

/-! ### What stands for a name -/

namespace Act

/-- A name in use is not the name of a builtin function. -/
def Apt (act : Act) : Prop :=
  ∀ name mark, act = .use name mark → ∀ b ∈ Builtin.all, b.name = name.lexeme → b.kind = .value

end Act

/-- A builtin stands for its own name. -/
theorem Builtin.standsFor?_symbol {b : Builtin} (known : b ∈ all) :
    standsFor? b.name (some b.symbol) b.kind = some b := by
  have names : (all.map Builtin.name).Nodup := by decide
  have found : find? b.name = some b := (find?_named_eq_some_iff names b.name b).mpr ⟨known, rfl⟩
  unfold standsFor?
  rw [if_neg (by simp [Builtin.symbol]), found]
  simp

theorem Builtin.standsFor?_user {symbol : Symbol} (user : symbol.builtin = false) (name : Text)
    (kind : SymbolKind) : standsFor? name (some symbol) kind = none := by
  unfold standsFor?
  rw [if_pos (by simp [user])]

namespace Pictures

variable {before : List Act} {scope next : Scope} {act : Act} {name : Token}

/-- A builtin that can be seen is one of the table. -/
theorem builtin_of_visible {symbol : Symbol} (visible : Visible before symbol)
    (builtin : symbol.builtin = true) : ∃ b ∈ Builtin.all, symbol = b.symbol := by
  cases visible with
  | builtin known => exact ⟨_, known, rfl⟩
  | declared => cases builtin

/-- **A name is written as a builtin just when it stands for one,** and then as that one. -/
theorem rendered (pictures : Pictures before scope) (inside : StaysOpen before)
    (ran : act.run scope = .ok next) (refers : act.reference? = some name) (apt : act.Apt) :
    ∃ symbol, scope.find? name.lexeme = some symbol ∧ act.marked scope = act.withMark symbol ∧
      (act.withMark symbol).builtin?.map Builtin.symbol =
        if symbol.builtin then some symbol else none := by
  obtain ⟨symbol, found, marked⟩ := marked_eq_withMark refers ran
  have innermost := (pictures.find?_eq_some_iff inside _ _).mp found
  have allowed := pictures.allowed inside ran
  refine ⟨symbol, found, marked, ?_⟩
  cases builtin : symbol.builtin with
  | false =>
    cases act with
    | enter | leave | declare => cases refers
    | target => rfl
    | use | call => exact congrArg _ (Builtin.standsFor?_user builtin _ _)
  | true =>
    obtain ⟨b, known, rfl⟩ := builtin_of_visible innermost.1 builtin
    have named : b.name = name.lexeme := innermost.2.1
    have stands := Builtin.standsFor?_symbol known
    rw [named] at stands
    cases act with
    | enter | leave | declare => cases refers
    | use _ mark =>
      cases refers
      rw [apt name mark rfl b known named] at stands
      exact congrArg _ stands
    | target =>
      cases refers
      have user := (allowed.assignable name rfl _ innermost).2
      cases user
    | call _ count mark =>
      cases refers
      have kind : b.kind = .function := allowed.callable name count mark rfl _ innermost
      rw [kind] at stands
      exact congrArg _ stands

/-- A builtin that is called gets no more arguments than it takes. -/
theorem fits_marked (pictures : Pictures before scope) (inside : StaysOpen before)
    (ran : act.run scope = .ok next) : (act.marked scope).Fits := by
  intro callee count mark same b found limit bound
  cases act with
  | enter | leave | declare | use | target => cases same
  | call callee' count' mark' =>
    have refers : (Act.call callee' count' mark').reference? = some callee' := rfl
    obtain ⟨symbol, looked, marked⟩ := marked_eq_withMark refers ran
    have innermost := (pictures.find?_eq_some_iff inside _ _).mp looked
    rw [marked] at same found
    cases same
    obtain ⟨known, named, -⟩ := Builtin.eq_of_standsFor? found
    have builtin : symbol.builtin = true := by
      by_contra user
      have absent := Builtin.standsFor?_user (Bool.not_eq_true _ ▸ user) callee.lexeme .function
      cases absent.symm.trans found
    exact (pictures.allowed inside ran).bounded callee count mark' rfl symbol innermost builtin b
      known named limit bound

end Pictures

/-! ### Blocks and frames -/

/-- The entry is the declaration of the symbol, by its number. -/
def Declares (done : List Symbol) (symbol : Symbol) (entry : Text × Nat) : Prop :=
  entry.1 = identifier symbol.name ∧ done[entry.2]? = some symbol

/-- **The block holds the declarations of the frame.** -/
def Shows (done : List Symbol) (frame : Frame) (block : List (Text × Nat)) : Prop :=
  List.Forall₂ (Declares done) (frame.filter (!·.builtin)) block

/-- Later declarations keep the numbers of the earlier ones. -/
theorem getElem?_later {done : List Symbol} {k : Nat} {symbol : Symbol}
    (here : done[k]? = some symbol) (more : List Symbol) : (done ++ more)[k]? = some symbol := by
  obtain ⟨bound, -⟩ := List.getElem?_eq_some_iff.mp here
  rw [List.getElem?_append_left bound, here]

theorem Shows.later {done : List Symbol} {frame : Frame} {block : List (Text × Nat)}
    (shows : Shows done frame block) (more : List Symbol) : Shows (done ++ more) frame block :=
  shows.imp fun _ _ ⟨named, here⟩ => ⟨named, getElem?_later here more⟩

/-- A new declaration heads the block of its frame. -/
theorem Shows.push {done : List Symbol} {frame : Frame} {block : List (Text × Nat)}
    (shows : Shows done frame block) {symbol : Symbol} (user : symbol.builtin = false) :
    Shows (done ++ [symbol]) (symbol :: frame)
      ((identifier symbol.name, done.length) :: block) := by
  unfold Shows
  rw [List.filter_cons_of_pos (by simp [user])]
  exact .cons ⟨rfl, List.getElem?_concat_length⟩ (shows.later [symbol])

theorem exists_of_forall₂ {α β : Type} {R : α → β → Prop} {as : List α} {bs : List β}
    (all : List.Forall₂ R as bs) {a : α} (member : a ∈ as) : ∃ b ∈ bs, R a b := by
  induction all with
  | nil => cases member
  | cons here _ ih =>
    rcases List.mem_cons.mp member with rfl | later
    · exact ⟨_, List.mem_cons_self, here⟩
    · obtain ⟨b, inside, related⟩ := ih later
      exact ⟨b, List.mem_cons_of_mem _ inside, related⟩

/-- A name that stands for no builtin is found among the declarations of the program alone. -/
theorem find?_users {frame : Frame} {name : Text}
    (plain : ∀ symbol, frame.find? name = some symbol → symbol.builtin = false) :
    (frame.filter (!·.builtin)).find? (·.name == name) = frame.find? name := by
  induction frame with
  | nil => rfl
  | cons first frame ih =>
    by_cases hit : first.name = name
    · have found : Frame.find? (first :: frame) name = some first :=
        List.find?_cons_of_pos (by simpa using hit)
      have kept : first.builtin = false := plain first found
      rw [found, List.filter_cons_of_pos (by simp [kept]),
        List.find?_cons_of_pos (by simpa using hit)]
    · have passed : Frame.find? (first :: frame) name = Frame.find? frame name :=
        List.find?_cons_of_neg (by simpa using hit)
      have rest := ih fun symbol found => plain symbol (passed.trans found)
      rw [passed, ← rest]
      by_cases builtin : first.builtin = true
      · rw [List.filter_cons_of_neg (by simp [builtin])]
      · rw [List.filter_cons_of_pos (by simpa using builtin),
          List.find?_cons_of_neg (by simpa using hit)]

/-- **The name in use meets the declaration** of what it refers to. -/
def Meets (done : List Symbol) (reference : Token × Symbol) (use : Text × Option Nat) : Prop :=
  use.1 = identifier reference.1.lexeme ∧
    ∃ k, use.2 = some k ∧ done[k]? = some reference.2

section Mirror

variable {Good : Text → Prop}

/-- **The names that are read mirror the scope:** the blocks show the frames, and what was declared
so far is `done`. All names of `done` are among the `Good` ones. -/
structure Mirrors (Good : Text → Prop) (done : List Symbol) (scope : Scope) (names : Names) :
    Prop where
  blocks : ∃ inner outer, names.blocks = inner ++ outer ∧ (∀ block ∈ outer, block = []) ∧
    List.Forall₂ (Shows done) (scope.blocks ++ [scope.globals]) inner
  pending : names.pending = []
  declared : names.declared = done.map fun symbol => identifier symbol.name
  doubles : names.doubles = []
  good : ∀ symbol ∈ done, Good symbol.name

variable {done : List Symbol} {scope next : Scope} {names : Names} {name : Text}

/-- Good names are told apart by their identifiers. -/
def Distinct (Good : Text → Prop) : Prop :=
  ∀ a b, Good a → Good b → identifier a = identifier b → a = b

/-- **In a block an identifier stands for what its name stands for in the frame.** -/
theorem Shows.lookup_eq (distinct : Distinct Good) (good : ∀ symbol ∈ done, Good symbol.name)
    (named : Good name) {frame : Frame} {block : List (Text × Nat)} (shows : Shows done frame block)
    (plain : ∀ symbol, frame.find? name = some symbol → symbol.builtin = false) :
    (block.lookup (identifier name)).map (fun k => done[k]?) = (frame.find? name).map some := by
  rw [← find?_users plain]
  unfold Shows at shows
  generalize frame.filter (!·.builtin) = users at shows ⊢
  induction shows with
  | nil => rfl
  | @cons symbol entry symbols block here _ ih =>
    obtain ⟨x, k⟩ := entry
    obtain ⟨rfl, numbered⟩ : x = identifier symbol.name ∧ done[k]? = some symbol := here
    rw [List.lookup_cons]
    by_cases hit : symbol.name = name
    · rw [List.find?_cons_of_pos (by simpa using hit), hit, beq_self_eq_true]
      exact congrArg some numbered
    · have apart : (identifier name == identifier symbol.name) = false := by
        rw [beq_eq_false_iff_ne]
        intro same
        have declared := good symbol (List.mem_of_getElem? numbered)
        exact hit (distinct _ _ named declared same).symm
      rw [List.find?_cons_of_neg (by simpa using hit), apart]
      exact ih

/-- A name that the frame does not hold has no declaration in the block. -/
theorem Shows.lookup_eq_none (distinct : Distinct Good) (good : ∀ symbol ∈ done, Good symbol.name)
    (named : Good name) {frame : Frame} {block : List (Text × Nat)} (shows : Shows done frame block)
    (absent : frame.find? name = none) : block.lookup (identifier name) = none := by
  have same := shows.lookup_eq distinct good named (by simp [absent])
  rwa [absent, Option.map_none, Option.map_eq_none_iff] at same

namespace Mirrors

/-- What a name of the program stands for was declared by it. -/
theorem mem_of_find? (mirrors : Mirrors Good done scope names) {symbol : Symbol}
    (found : scope.find? name = some symbol) (user : symbol.builtin = false) :
    symbol ∈ done ∧ symbol.name = name := by
  obtain ⟨inner, outer, -, -, frames⟩ := mirrors.blocks
  obtain ⟨frame, inside, here⟩ := List.exists_of_findSome?_eq_some found
  obtain ⟨block, -, shows⟩ := exists_of_forall₂ frames inside
  have member : symbol ∈ frame.filter (!·.builtin) :=
    List.mem_filter.mpr ⟨List.mem_of_find?_eq_some here, by simp [user]⟩
  obtain ⟨entry, -, -, numbered⟩ := exists_of_forall₂ shows member
  exact ⟨List.mem_of_getElem? numbered, by simpa using List.find?_some here⟩

/-- **An identifier stands for the declaration of what its name stands for.** -/
theorem find?_eq (mirrors : Mirrors Good done scope names) (distinct : Distinct Good)
    {symbol : Symbol} (found : scope.find? name = some symbol) (user : symbol.builtin = false) :
    ∃ k, names.find? (identifier name) = some k ∧ done[k]? = some symbol := by
  obtain ⟨member, rfl⟩ := mirrors.mem_of_find? found user
  have named := mirrors.good symbol member
  obtain ⟨inner, outer, shape, -, frames⟩ := mirrors.blocks
  unfold Names.find?
  unfold Scope.find? at found
  rw [shape, List.findSome?_append]
  -- By the frames from the innermost one outwards.
  generalize scope.blocks ++ [scope.globals] = all at frames found
  clear shape
  induction frames with
  | nil => cases found
  | @cons frame block frames inner shows _ ih =>
    rw [List.findSome?_cons] at found ⊢
    cases here : frame.find? symbol.name with
    | none =>
      rw [here] at found
      rw [shows.lookup_eq_none distinct mirrors.good named here]
      exact ih found
    | some hit =>
      rw [here] at found
      obtain rfl := Option.some.inj found
      have present := shows.lookup_eq distinct mirrors.good named
        (fun other same => by rw [here] at same; cases same; exact user)
      rw [here, Option.map_some, Option.map_eq_some_iff] at present
      obtain ⟨k, looked, numbered⟩ := present
      rw [looked]
      exact ⟨k, rfl, numbered⟩

/-! ### One act -/

/-- Names in use change nothing. -/
theorem refer (mirrors : Mirrors Good done scope names) (xs : List Text) :
    Mirrors Good done scope (xs.foldl Names.refer names) := by
  induction xs generalizing names with
  | nil => exact mirrors
  | cons x xs ih =>
    have next : Mirrors Good done scope (names.refer x) :=
      ⟨mirrors.blocks, mirrors.pending, mirrors.declared, mirrors.doubles, mirrors.good⟩
    exact ih next

theorem enter (mirrors : Mirrors Good done scope names) :
    Mirrors Good done scope.enter names.enter := by
  obtain ⟨inner, outer, shape, empty, frames⟩ := mirrors.blocks
  have opened : Shows done [] names.pending := by
    rw [mirrors.pending]
    exact .nil
  refine ⟨⟨names.pending :: inner, outer, ?_, empty, .cons opened frames⟩, rfl, mirrors.declared,
    mirrors.doubles, mirrors.good⟩
  show names.pending :: names.blocks = names.pending :: (inner ++ outer)
  rw [shape]

/-- A block closes; the outermost frame stays. -/
theorem leave (mirrors : Mirrors Good done scope names) (deep : 0 < scope.depth) :
    Mirrors Good done scope.leave names.leave := by
  obtain ⟨inner, outer, shape, empty, frames⟩ := mirrors.blocks
  obtain ⟨_ | ⟨frame, blocks⟩, globals⟩ := scope
  · exact absurd deep (Nat.lt_irrefl 0)
  · cases frames with
    | @cons _ block _ inner _ frames =>
      refine ⟨⟨inner, outer, ?_, empty, frames⟩, mirrors.pending, mirrors.declared, mirrors.doubles,
        mirrors.good⟩
      show names.blocks.tail = inner ++ outer
      rw [shape]
      rfl

/-- **A declaration** goes into the innermost block, which does not hold the identifier yet. -/
theorem declare (mirrors : Mirrors Good done scope names) (distinct : Distinct Good)
    {symbol : Symbol} (named : Good symbol.name) (user : symbol.builtin = false)
    (fresh : scope.current.find? symbol.name = none) :
    Mirrors Good (done ++ [symbol]) (scope.push symbol)
      (names.declare (identifier symbol.name)) := by
  have count : names.declared.length = done.length := by
    rw [mirrors.declared, List.length_map]
  obtain ⟨inner, outer, shape, empty, frames⟩ := mirrors.blocks
  obtain ⟨rest, split, pushed, -⟩ := scope.exists_outer symbol
  rw [split] at frames
  obtain ⟨block, blocks, shows, others, rfl⟩ := List.forall₂_cons_left_iff.mp frames
  have head : names.blocks.headD [] = block := by
    rw [shape]
    rfl
  have tail : names.blocks.tail = blocks ++ outer := by
    rw [shape]
    rfl
  refine ⟨⟨((identifier symbol.name, done.length) :: block) :: blocks, outer, ?_, empty, ?_⟩,
    mirrors.pending, ?_, ?_, ?_⟩
  · show ((_, names.declared.length) :: names.blocks.headD []) :: names.blocks.tail = _
    rw [head, tail, count]
    rfl
  · rw [pushed]
    exact .cons (shows.push user) (others.imp fun _ _ shows => shows.later [symbol])
  · rw [List.map_append, ← mirrors.declared]
    rfl
  · show (if ((names.blocks.headD []).lookup (identifier symbol.name)).isSome then
      names.doubles ++ [_] else names.doubles) = []
    rw [head, shows.lookup_eq_none distinct mirrors.good named fresh]
    exact mirrors.doubles
  · intro other member
    rcases List.mem_append.mp member with old | new
    · exact mirrors.good other old
    · rw [List.mem_singleton.mp new]
      exact named

/-- **A name that an act refers to** is shown, and meets its declaration, unless it stands for a
builtin. -/
theorem reference {before : List Act} {act : Act} {token : Token}
    (mirrors : Mirrors Good done scope names) (distinct : Distinct Good)
    (pictures : Pictures before scope) (inside : StaysOpen before) (apt : act.Apt)
    (refers : act.reference? = some token) (ran : act.run scope = .ok next) :
    Mirrors Good done scope ((act.marked scope).replay names) ∧
      ∃ uses, ((act.marked scope).replay names).resolved = names.resolved ++ uses ∧
        List.Forall₂ (Meets done) (act.userReference? scope).toList uses := by
  obtain ⟨symbol, found, marked, rendering⟩ := pictures.rendered inside ran refers apt
  have refers' := Act.reference?_withMark refers symbol
  rw [marked, replay_reference refers']
  refine ⟨mirrors.refer _, ?_⟩
  cases builtin : symbol.builtin with
  | true =>
    rw [builtin, if_pos rfl, Option.map_eq_some_iff] at rendering
    obtain ⟨b, stands, -⟩ := rendering
    have hidden : act.userReference? scope = none := by
      simp [Act.userReference?, refers, found, builtin]
    rw [shown?_of_builtin stands, hidden]
    exact ⟨[], (List.append_nil _).symm, .nil⟩
  | false =>
    rw [builtin, if_neg Bool.false_ne_true, Option.map_eq_none_iff] at rendering
    have user : act.userReference? scope = some (token, symbol) := by
      simp [Act.userReference?, refers, found, builtin]
    rw [shown?_of_plain rendering refers', user]
    obtain ⟨k, looked, numbered⟩ := mirrors.find?_eq distinct found builtin
    exact ⟨_, rfl, .cons ⟨rfl, k, looked, numbered⟩ .nil⟩

/-- **One act without a fault keeps the mirror.** -/
theorem step {before : List Act} {act : Act} (mirrors : Mirrors Good done scope names)
    (distinct : Distinct Good) (pictures : Pictures before scope)
    (inside : StaysOpen (before ++ [act])) (apt : act.Apt)
    (named : ∀ token, act.declared? = some token → Good token.lexeme)
    (ran : act.run scope = .ok next) :
    Mirrors Good (done ++ (act.symbol? scope).toList) next ((act.marked scope).replay names) ∧
      ∃ uses, ((act.marked scope).replay names).resolved = names.resolved ++ uses ∧
        List.Forall₂ (Meets done) (act.userReference? scope).toList uses := by
  obtain ⟨within, room⟩ := staysOpen_concat_iff.mp inside
  have nothing : ∀ names' : Names, names'.resolved = names.resolved →
      ∃ uses, names'.resolved = names.resolved ++ uses ∧ List.Forall₂ (Meets done) [] uses :=
    fun _ same => ⟨[], by rw [same, List.append_nil], .nil⟩
  cases refers : act.reference? with
  | some token =>
    have result := mirrors.reference distinct pictures within apt refers ran
    obtain ⟨rfl, no_symbol⟩ : next = scope ∧ act.symbol? scope = none := by
      cases act with
      | enter | leave | declare => cases refers
      | use | target | call => exact ⟨Act.eq_of_run_lookup ran, rfl⟩
    rwa [no_symbol, Option.toList_none, List.append_nil]
  | none =>
    cases act with
    | use | target | call => cases refers
    | enter =>
      obtain rfl := Except.ok.inj ran
      rw [show (Act.enter.symbol? scope).toList = [] from rfl, List.append_nil]
      exact ⟨mirrors.enter, nothing _ rfl⟩
    | leave =>
      obtain rfl := Except.ok.inj ran
      have deep : 0 < scope.depth := by
        rw [pictures.depth]
        exact Nat.sub_pos_of_lt (room rfl)
      rw [show (Act.leave.symbol? scope).toList = [] from rfl, List.append_nil]
      exact ⟨mirrors.leave deep, nothing _ rfl⟩
    | declare name type kind =>
      obtain ⟨fresh, rfl, symbol⟩ := Act.eq_of_run_declare ran
      rw [symbol]
      exact ⟨mirrors.declare distinct (named name rfl) rfl fresh, nothing _ rfl⟩

/-- **A run without a fault keeps the mirror,** and every name in use meets its declaration. -/
theorem run {before acts : List Act} (mirrors : Mirrors Good done scope names)
    (distinct : Distinct Good) (pictures : Pictures before scope)
    (inside : StaysOpen (before ++ acts)) (apt : ∀ act ∈ acts, act.Apt)
    (named : ∀ act ∈ acts, ∀ token, act.declared? = some token → Good token.lexeme)
    (ran : walk scope acts = .ok next) :
    Mirrors Good (done ++ along Act.symbol? scope acts) next
        ((markActs scope acts).foldl Act.replay names) ∧
      ∃ uses, ((markActs scope acts).foldl Act.replay names).resolved = names.resolved ++ uses ∧
        List.Forall₂ (Meets (done ++ along Act.symbol? scope acts))
          (along Act.userReference? scope acts) uses := by
  induction acts generalizing before scope done names with
  | nil =>
    obtain rfl := Except.ok.inj ran
    rw [along, List.append_nil]
    exact ⟨mirrors, [], (List.append_nil _).symm, .nil⟩
  | cons act acts ih =>
    have split : before ++ act :: acts = before ++ [act] ++ acts := by simp
    rw [split] at inside
    have first := inside.of_prefix (List.prefix_append _ acts)
    rw [walk_cons, bind_eq_ok] at ran
    obtain ⟨middle, one, ran⟩ := ran
    obtain ⟨stepped, uses, used, met⟩ := mirrors.step distinct pictures first
      (apt act List.mem_cons_self) (named act List.mem_cons_self) one
    obtain ⟨whole, more, used', met'⟩ := ih stepped (pictures.step first one) inside
      (fun act member => apt act (List.mem_cons_of_mem _ member))
      (fun act member => named act (List.mem_cons_of_mem _ member)) ran
    have symbols : done ++ along Act.symbol? scope (act :: acts) =
        done ++ (act.symbol? scope).toList ++ along Act.symbol? middle acts := by
      rw [along, one, List.append_assoc]
    have references : along Act.userReference? scope (act :: acts) =
        (act.userReference? scope).toList ++ along Act.userReference? middle acts := by
      rw [along, one]
    have marks : markActs scope (act :: acts) = act.marked scope :: markActs middle acts := by
      rw [markActs, one]
    rw [symbols, references, marks, List.foldl_cons]
    refine ⟨whole, uses ++ more, by rw [used', used, List.append_assoc], ?_⟩
    refine List.rel_append ?_ met'
    refine met.imp fun reference use meets => ?_
    obtain ⟨shown, k, looked, numbered⟩ := meets
    rw [List.append_assoc]
    exact ⟨shown, k, looked, getElem?_later numbered _⟩

end Mirrors

end Mirror

end Guwen
