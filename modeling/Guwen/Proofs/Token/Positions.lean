/-
**Places are exact: a cursor and a token stand where counting says.**

A cursor looks ahead and moves by a character, by a piece or to the end, in any order. Every move
passes some characters one by one and counts them as it goes, so the place it keeps is always the
place of its offset; the tokens take theirs from the cursor.

* `Position.counted` — the place behind some characters of a source, by counting.
* `Cursor.Move`, `Cursor.performAll` — what can be done with a cursor, and where it is then.
* `Cursor.Exact source k` — the cursor stands within the source, at the place of its offset.
* **`Cursor.reaches_iff`** — the cursors that moves lead to are just the exact ones.
* `Token.StartsAt source t n` — the scan of the source comes to the offset `n` and gives `t` there.
* **`Token.mem_tokenize_iff`** — the tokens of a source are those that start somewhere.
* **`Token.positions_exact`** — all of it for every source and all moves.
-/
import Guwen.Proofs.Token.Partition
import Mathlib.Data.List.Induction

namespace Guwen

namespace Position

/-! ### Places by counting -/

/-- **The place behind some characters of a source:** as many lines down as there are line feeds,
and as many columns on as there are characters behind the last of them. -/
def counted (cs : List Char) : Position :=
  ⟨1 + cs.count '\n', 1 + (cs.reverse.takeWhile (· != '\n')).length⟩

/-- One more character moves the counted place past it. -/
theorem counted_concat (cs : List Char) (c : Char) :
    counted (cs ++ [c]) = (counted cs).after c := by
  unfold after counted
  rw [List.count_append, List.reverse_append, List.reverse_singleton, List.singleton_append]
  by_cases feed : c = '\n'
  · subst feed
    rw [if_pos rfl, List.takeWhile_cons_of_neg (by decide)]
    simp [Int.add_assoc]
  · rw [if_neg feed, List.takeWhile_cons_of_pos (by simpa using feed)]
    simp [feed, Int.add_assoc]

theorem past_append (p : Position) (front back : List Char) :
    p.past (front ++ back) = (p.past front).past back := List.foldl_append

/-- The places of the scan are those by counting. -/
theorem past_start (cs : List Char) : Position.start.past cs = counted cs := by
  induction cs using List.reverseRecOn with
  | nil => rfl
  | append_singleton cs c ih =>
    rw [past_append, ih, counted_concat]
    rfl

/-- Some characters lead to a place further on. -/
theorem before_past {cs : List Char} (given : cs ≠ []) (p : Position) : p.Before (p.past cs) := by
  induction cs generalizing p with
  | nil => exact absurd rfl given
  | cons c cs ih =>
    have step := p.before_after c
    by_cases last : cs = []
    · rw [last]
      exact step
    · exact step.trans (ih last (p.after c))

end Position

namespace Cursor

/-! ### Moves -/

/-- **What can be done with a cursor.** -/
inductive Move where
  /-- Look at the next character. -/
  | peek
  /-- Look at the character after the next one. -/
  | peekNext
  /-- Go past one character. -/
  | advance
  /-- Go past one piece. -/
  | token
  /-- Go to the end. -/
  | scan
deriving DecidableEq, Repr

/-- **The cursor after a move.** Looking ahead leaves it where it is, and so does a move past a
character or a piece that fails at the end. -/
def perform (k : Cursor) : Move → Cursor
  | .peek | .peekNext => k
  | .advance => match k.advance? with
    | some (_, next) => next
    | none => k
  | .token => match k.step? with
    | some (_, next) => next
    | none => k
  | .scan => k.finish.2

/-- The cursor after some moves, one after another. -/
def performAll (k : Cursor) (moves : List Move) : Cursor := moves.foldl perform k

/-- At the end no characters are left to be passed. -/
theorem skip_of_rest_eq_nil {k : Cursor} (ended : k.rest = []) (n : Nat) : k.skip n = k := by
  cases n with
  | zero => rfl
  | succ n => rw [skip, ended]

theorem skip_succ_of_rest {k : Cursor} {c : Char} {cs : List Char} (left : k.rest = c :: cs)
    (n : Nat) : k.skip (n + 1) = skip ⟨k.offset + 1, k.position.after c, cs⟩ n := by
  rw [skip, left]

/-- Past one piece the cursor has passed the characters of the piece. -/
theorem eq_skip_of_step? {k next : Cursor} {token : Option Token}
    (step : k.step? = some (token, next)) : ∃ n, next = k.skip n := by
  obtain ⟨offset, position, rest⟩ := k
  cases rest with
  | nil => cases step
  | cons c cs =>
    cases step
    exact ⟨_, rfl⟩

/-- **Every move passes some characters,** perhaps none. -/
theorem perform_eq_skip (k : Cursor) (move : Move) : ∃ n, k.perform move = k.skip n := by
  cases move with
  | peek => exact ⟨0, rfl⟩
  | peekNext => exact ⟨0, rfl⟩
  | advance =>
    cases left : k.rest with
    | nil => exact ⟨0, by rw [perform, advance?, left]; rfl⟩
    | cons c cs => exact ⟨1, by rw [perform, advance?, left]⟩
  | token =>
    unfold perform
    cases step : k.step? with
    | none => exact ⟨0, rfl⟩
    | some both => exact eq_skip_of_step? step
  | scan => exact ⟨k.rest.length, rfl⟩

/-- Characters are passed one by one. -/
theorem performAll_advance (k : Cursor) (n : Nat) :
    k.performAll (List.replicate n .advance) = k.skip n := by
  induction n generalizing k with
  | zero => rfl
  | succ n ih =>
    rw [List.replicate_succ, performAll, List.foldl_cons, ← performAll, ih]
    cases left : k.rest with
    | nil =>
      have stays : k.perform .advance = k := by rw [perform, advance?, left]
      rw [stays, skip_of_rest_eq_nil left, skip_of_rest_eq_nil left]
    | cons c cs =>
      have moves : k.perform .advance = ⟨k.offset + 1, k.position.after c, cs⟩ := by
        rw [perform, advance?, left]
        exact skip_succ_of_rest left 0
      rw [moves, skip_succ_of_rest left]

/-! ### Exact cursors -/

/-- **The cursor stands within the source, at the place of its offset,** and before all that is left
from there. -/
structure Exact (source : Text) (k : Cursor) : Prop where
  within : k.offset ≤ source.chars.length
  left : k.rest = source.chars.drop k.offset
  place : k.position = .counted (source.chars.take k.offset)

section Exact

variable {source : Text} {k : Cursor}

theorem exact_ofText (source : Text) : Exact source (ofText source) :=
  ⟨Nat.zero_le _, rfl, rfl⟩

/-- Past a character the cursor is exact again. -/
theorem Exact.pass (placed : Exact source k) {c : Char} {cs : List Char} (left : k.rest = c :: cs) :
    Exact source ⟨k.offset + 1, k.position.after c, cs⟩ := by
  have split : source.chars.drop k.offset = c :: cs := placed.left.symm.trans left
  have next : source.chars[k.offset]? = some c := by
    rw [← List.head?_drop, split]
    rfl
  obtain ⟨inside, -⟩ := List.getElem?_eq_some_iff.mp next
  refine ⟨inside, ?_, ?_⟩
  · show cs = source.chars.drop (k.offset + 1)
    rw [← List.tail_drop, split, List.tail_cons]
  · show k.position.after c = .counted (source.chars.take (k.offset + 1))
    rw [List.take_add_one, next, Option.toList_some, Position.counted_concat, ← placed.place]

theorem Exact.skip (placed : Exact source k) (n : Nat) : Exact source (k.skip n) := by
  induction n generalizing k with
  | zero => exact placed
  | succ n ih =>
    cases left : k.rest with
    | nil => rwa [skip_of_rest_eq_nil left]
    | cons c cs =>
      rw [skip_succ_of_rest left]
      exact ih (placed.pass left)

/-- **A move keeps a cursor exact.** -/
theorem Exact.perform (placed : Exact source k) (move : Move) : Exact source (k.perform move) := by
  obtain ⟨n, same⟩ := k.perform_eq_skip move
  rw [same]
  exact placed.skip n

/-- **All moves do.** -/
theorem Exact.performAll (placed : Exact source k) (moves : List Move) :
    Exact source (k.performAll moves) := by
  induction moves generalizing k with
  | nil => exact placed
  | cons move moves ih => exact ih (placed.perform move)

/-- An exact cursor is known by its offset. -/
theorem Exact.unique {k' : Cursor} (placed : Exact source k) (placed' : Exact source k')
    (same : k.offset = k'.offset) : k = k' := by
  obtain ⟨offset, position, rest⟩ := k
  obtain ⟨offset', position', rest'⟩ := k'
  obtain rfl : offset = offset' := same
  rw [show position = _ from placed.place, show rest = _ from placed.left,
    show position' = _ from placed'.place, show rest' = _ from placed'.left]

/-- **The cursors that moves lead to from the beginning of a source are just the exact ones.** -/
theorem reaches_iff : (∃ moves, (ofText source).performAll moves = k) ↔ Exact source k := by
  constructor
  · rintro ⟨moves, rfl⟩
    exact (exact_ofText source).performAll moves
  · intro placed
    refine ⟨List.replicate k.offset .advance, ?_⟩
    rw [performAll_advance]
    refine ((exact_ofText source).skip k.offset).unique placed ?_
    rw [offset_skip _ _ placed.within]
    exact Nat.zero_add _

end Exact

/-! ### The scan from cursor to cursor -/

section Scans

variable {k last : Cursor} {tokens : List Token}

theorem Scans.exact_last {source : Text} (scans : Scans k tokens last) (placed : Exact source k) :
    Exact source last := by
  induction scans with
  | done k => exact placed
  | piece step _ _ _ ih =>
    obtain ⟨n, rfl⟩ := eq_skip_of_step? step
    exact ih (placed.skip n)

/-- From a cursor on there are the tokens up to a later one, and those from there. -/
theorem Scans.scanAfter_eq (scans : Scans k tokens last) : Token.scanAfter 0 k.position k.rest =
    tokens ++ Token.scanAfter 0 last.position last.rest := by
  induction scans with
  | done k => rfl
  | piece step _ _ _ ih => rw [scanAfter_of_step? step, ih, List.append_assoc]

/-- On its way a scan comes to the cursor where a token of it starts. -/
theorem Scans.split (scans : Scans k tokens last) {before after : List Token} {t : Token}
    (found : tokens = before ++ t :: after) :
    ∃ middle next, Scans k before middle ∧ middle.step? = some (some t, next) := by
  induction scans generalizing before with
  | done k => simp at found
  | @piece k next last token tokens n step some_char passed more ih =>
    cases token with
    | none =>
      obtain ⟨middle, behind, scans, given⟩ := ih found
      exact ⟨middle, behind, .piece step some_char passed scans, given⟩
    | some u =>
      cases before with
      | nil =>
        obtain ⟨rfl, -⟩ := List.cons_eq_cons.mp found
        exact ⟨k, next, .done k, step⟩
      | cons v before =>
        obtain ⟨rfl, others⟩ := List.cons_eq_cons.mp found
        obtain ⟨middle, behind, scans, given⟩ := ih others
        exact ⟨middle, behind, .piece step some_char passed scans, given⟩

end Scans

/-! ### Where tokens start -/

/-- **The token that starts at a cursor:** that of the next piece, if it is one, and the end token
at the end. -/
def token? (k : Cursor) : Option Token :=
  match k.rest with
  | [] => some ⟨.eof, [], k.position⟩
  | c :: cs => (Token.munch c cs).tokenAt k.position

theorem token?_of_step? {k next : Cursor} {token : Option Token}
    (step : k.step? = some (token, next)) : k.token? = token := by
  obtain ⟨offset, position, rest⟩ := k
  cases rest with
  | nil => cases step
  | cons c cs =>
    cases step
    rfl

theorem position_of_token? {k : Cursor} {t : Token} (given : k.token? = some t) :
    t.position = k.position := by
  unfold token? at given
  split at given
  · cases given
    rfl
  · obtain ⟨both, -, rfl⟩ := Option.map_eq_some_iff.mp given
    rfl

/-- The token that starts at a cursor is the first from there on. -/
theorem scanAfter_of_token? {k : Cursor} {t : Token} (given : k.token? = some t) :
    ∃ after, Token.scanAfter 0 k.position k.rest = t :: after := by
  unfold token? at given
  split at given
  · rename_i ended
    cases given
    exact ⟨[], by rw [ended]; rfl⟩
  · rename_i c cs left
    rw [left, Token.scanAfter, given]
    exact ⟨_, rfl⟩

end Cursor

namespace Token

/-- **A token of a source starts at an offset:** the scan comes there piece by piece, and there the
token is next. -/
def StartsAt (source : Text) (t : Token) (n : Nat) : Prop :=
  ∃ before k, Cursor.Scans (.ofText source) before k ∧ k.offset = n ∧ k.token? = some t

/-- **The tokens of a source are those that start somewhere.** -/
theorem mem_tokenize_iff {source : Text} {t : Token} :
    t ∈ tokenize source ↔ ∃ n, StartsAt source t n := by
  constructor
  · intro member
    obtain ⟨tokens, last, scans, ended, -, -, all⟩ := Cursor.exists_scans (.ofText source)
    rw [show tokenize source = _ from all, List.mem_append, List.mem_singleton] at member
    rcases member with inside | rfl
    · obtain ⟨before, after, found⟩ := List.append_of_mem inside
      obtain ⟨middle, next, scans, step⟩ := scans.split found
      exact ⟨_, before, middle, scans, rfl, Cursor.token?_of_step? step⟩
    · exact ⟨_, tokens, last, scans, rfl, by rw [Cursor.token?, ended]⟩
  · rintro ⟨n, before, k, scans, -, given⟩
    obtain ⟨after, first⟩ := Cursor.scanAfter_of_token? given
    rw [show tokenize source = _ from scans.scanAfter_eq, first]
    exact List.mem_append_right _ List.mem_cons_self

/-- The cursor where a token starts is exact. -/
theorem StartsAt.exists_cursor {source : Text} {t : Token} {n : Nat}
    (starts : StartsAt source t n) :
    ∃ k, Cursor.Exact source k ∧ k.offset = n ∧ k.token? = some t := by
  obtain ⟨before, k, scans, offset, given⟩ := starts
  exact ⟨k, scans.exact_last (Cursor.exact_ofText source), offset, given⟩

/-- **What the span of a token starts with:** its lexeme, behind the opening quote of a string. -/
def front (t : Token) : List Char :=
  if t.kind = .string then '「' :: t.lexeme.chars else t.lexeme.chars

/-- A token is what the source has at the cursor where it starts. -/
theorem front_of_token? {k : Cursor} {t : Token} (given : k.token? = some t) :
    t.front <+: k.rest := by
  unfold Cursor.token? at given
  split at given
  · cases given
    exact List.nil_prefix
  · rename_i c cs left
    obtain ⟨⟨kind, lexeme⟩, token, rfl⟩ := Option.map_eq_some_iff.mp given
    obtain ⟨piece, rest, split, -, taken⟩ := munch_takes c cs
    rw [token] at taken
    rw [left, split]
    unfold front
    cases taken with
    | closed inside =>
      rw [if_pos rfl, Text.chars_ofChars, ← List.cons_append, List.append_assoc]
      exact List.prefix_append _ _
    | unclosed inside =>
      rw [if_pos rfl, Text.chars_ofChars]
      exact List.prefix_append _ _
    | word form =>
      rw [if_neg form.kind_ne.2.1, Text.chars_ofChars]
      exact List.prefix_append _ _

/-- **Places are exact.** Whatever is done with a cursor from the beginning of a source, it stands
within the source, at the place of its offset, and it can be brought to every offset. So every token
stands at the place of the first character of its span, each behind those before it, and the end
token behind the last character. -/
theorem positions_exact (source : Text) :
    (∀ k, (∃ moves, (Cursor.ofText source).performAll moves = k) ↔ Cursor.Exact source k) ∧
    (∀ t, t ∈ tokenize source ↔ ∃ n, StartsAt source t n) ∧
    (∀ t n, StartsAt source t n → t.front <+: source.chars.drop n ∧
      t.position = .counted (source.chars.take n)) ∧
    ((tokenize source).Pairwise fun a b => a.position.Before b.position) ∧
    (tokenize source).getLast? = some ⟨.eof, [], .counted source.chars⟩ := by
  refine ⟨fun k => Cursor.reaches_iff, fun t => mem_tokenize_iff, fun t n starts => ?_,
    places_tokenize source, ?_⟩
  · obtain ⟨k, placed, rfl, given⟩ := starts.exists_cursor
    rw [← placed.left, Cursor.position_of_token? given]
    exact ⟨front_of_token? given, placed.place⟩
  · obtain ⟨words, all, -⟩ := (scanAfter_partition .start source.chars).tokens
    rw [show tokenize source = _ from all, List.getLast?_concat, Position.past_start]

end Token

end Guwen
