/-
**What a source can hold: the spellings of tokens, and a scan that never runs past the end.**

* `Spelling kind cs` — the characters that a token of a kind can have.
* **`Token.munch_spelling`** — every piece of a source that is a token is spelt as its kind asks.
* **`Token.places_tokenize`** — the tokens of a source stand one behind another.
* `Cursor.Scans k tokens last` — the cursor goes from `k` to `last` piece by piece, each piece by
  single characters that are there, and gives the tokens.
* **`Cursor.scans_tokenize`** — such a scan leads from the beginning of every source to its end, and
  its tokens are those of the source.
-/
import Guwen.Proofs.Text.Encoding
import Guwen.Proofs.Token.Piece
import Guwen.Token.Cursor

namespace Guwen

/-! ### Spellings -/

/-- **The characters that a token of a kind can have.** -/
inductive Spelling : TokenKind → List Char → Prop where
  | keyword {kind : TokenKind} {cs : List Char} : Lexicon.kind? cs = some kind → Spelling kind cs
  | digits {c : Char} {cs : List Char} : (∀ x ∈ c :: cs, isDigit x = true) →
      Spelling .number (c :: cs)
  | decimal {c d : Char} {cs ds : List Char} : (∀ x ∈ c :: cs, isDigit x = true) →
      (∀ x ∈ d :: ds, isDigit x = true) → Spelling .number (c :: cs ++ '.' :: d :: ds)
  | numeral {c : Char} : Numeral.isNumeral [c] = true → Spelling .number [c]
  | glyph {c : Char} : isHan c = true → Spelling .identifier [c]
  | latin {c : Char} {cs : List Char} : isLetter c = true →
      (∀ d ∈ cs, isLetter d = true ∨ isDigit d = true) → Spelling .identifier (c :: cs)
  | quoted {cs : List Char} : '」' ∉ cs → Spelling .string cs
  | closeQuote : Spelling .closeQuote ['」']
  | comma : Spelling .comma ['、']
  | unknown {c : Char} : Spelling .unknown [c]

/-- A lexeme is a spelling of its kind. -/
theorem Lexeme.spelling {kind : TokenKind} {cs : List Char} (form : Lexeme kind cs) :
    Spelling kind cs := by
  cases form with
  | digits all => exact .digits all
  | decimal whole part => exact .decimal whole part
  | numeral _ _ numeral => exact .numeral numeral
  | latin letter others => exact .latin letter others
  | glyph han _ _ => exact .glyph han
  | keyword found => exact .keyword found
  | closeQuote => exact .closeQuote
  | comma => exact .comma
  | unknown _ => exact .unknown

namespace Token

/-- **Every piece that is a token is spelt as its kind asks.** -/
theorem munch_spelling {c : Char} {cs lexeme : List Char} {kind : TokenKind}
    (given : (munch c cs).token? = some (kind, lexeme)) : Spelling kind lexeme := by
  obtain ⟨piece, rest, -, -, taken⟩ := munch_takes c cs
  rw [given] at taken
  cases taken with
  | closed inside => exact .quoted inside
  | unclosed inside => exact .quoted inside
  | word form => exact form.spelling

/-- **A piece ends within the source.** -/
theorem munch_more_le (c : Char) (cs : List Char) : (munch c cs).more ≤ cs.length := by
  obtain ⟨piece, rest, split, length, -⟩ := munch_takes c cs
  have all := congrArg List.length split
  rw [List.length_cons, List.length_append, length] at all
  omega

end Token

/-- **A token spelt as its kind asks.** -/
def Token.Spelt (t : Token) : Prop := ∃ cs, Spelling t.kind cs ∧ t.lexeme = Text.ofChars cs

theorem Spelling.ne_eof {kind : TokenKind} {cs : List Char} (spelt : Spelling kind cs) :
    kind ≠ .eof := by
  cases spelt with
  | keyword found =>
    obtain ⟨word, entry, -⟩ := mem_entries_of_kind? found
    have others : ∀ entry ∈ Lexicon.entries, entry.2 ≠ .eof := by decide
    exact others _ entry
  | _ => exact TokenKind.noConfusion

theorem isDigit_of_mem_toDigits {n : Nat} {d : Char} (member : d ∈ Nat.toDigits 10 n) :
    isDigit d = true := by
  have digit := Nat.isDigit_of_mem_toDigits (by decide) (by decide) member
  simpa [isDigit, Char.isDigit, Char.le_def] using digit

/-- The decimal text of a number holds digits only, and at least one. -/
theorem exists_digits_ofNat (n : Nat) :
    ∃ c cs, Text.ofNat n = Text.ofChars (c :: cs) ∧ ∀ d ∈ c :: cs, isDigit d = true := by
  unfold Text.ofNat
  cases all : Nat.toDigits 10 n with
  | nil => exact absurd all Nat.toDigits_ne_nil
  | cons c cs => exact ⟨c, cs, rfl, fun d member => isDigit_of_mem_toDigits (all ▸ member)⟩

/-! ### Places of tokens -/

/-- The first place stands before the second. -/
def Position.Before (p q : Position) : Prop :=
  p.line < q.line ∨ p.line = q.line ∧ p.column < q.column

theorem Position.before_after (p : Position) (c : Char) : p.Before (p.after c) := by
  unfold Position.after
  split
  · exact .inl (Int.lt_succ p.line)
  · exact .inr ⟨rfl, Int.lt_succ p.column⟩

theorem Position.Before.trans {p q r : Position} (first : p.Before q) (second : q.Before r) :
    p.Before r := by
  unfold Position.Before at *
  omega

theorem Position.Before.ne {p q : Position} (before : p.Before q) : p ≠ q := by
  rintro rfl
  unfold Position.Before at before
  omega

namespace Token

/-- From a place on, every token stands there or behind, and each behind those before it. -/
theorem places_scanAfter (pending : Nat) (p : Position) (cs : List Char) :
    (∀ t ∈ scanAfter pending p cs, t.position = p ∨ p.Before t.position) ∧
      (scanAfter pending p cs).Pairwise fun a b => a.position.Before b.position := by
  induction cs generalizing pending p with
  | nil =>
    have only : scanAfter pending p [] = [⟨.eof, [], p⟩] := by cases pending <;> rfl
    rw [only]
    exact ⟨fun t member => .inl (by rw [List.mem_singleton.mp member]), List.pairwise_singleton _ _⟩
  | cons c cs ih =>
    have next : ∀ pending, ∀ t ∈ scanAfter pending (p.after c) cs, p.Before t.position := by
      intro pending t member
      rcases (ih pending (p.after c)).1 t member with same | behind
      · rw [same]
        exact p.before_after c
      · exact (p.before_after c).trans behind
    cases pending with
    | succ pending =>
      exact ⟨fun t member => .inr (next pending t member), (ih pending (p.after c)).2⟩
    | zero =>
      have here : ∀ t ∈ ((munch c cs).tokenAt p).toList, t.position = p := by
        intro t member
        obtain ⟨both, -, rfl⟩ := Option.map_eq_some_iff.mp (Option.mem_toList.mp member)
        rfl
      unfold scanAfter
      refine ⟨fun t member => ?_,
        List.pairwise_append.mpr ⟨?_, (ih _ _).2, fun a first b later => ?_⟩⟩
      · rcases List.mem_append.mp member with first | later
        · exact .inl (here t first)
        · exact .inr (next _ t later)
      · cases (munch c cs).tokenAt p with
        | none => exact .nil
        | some t => exact List.pairwise_singleton _ t
      · rw [here a first]
        exact next _ b later

/-- **The tokens of a source stand one behind another.** -/
theorem places_tokenize (source : Text) :
    (tokenize source).Pairwise fun a b => a.position.Before b.position :=
  (places_scanAfter 0 .start source.chars).2

end Token

/-! ### Scanning by a cursor -/

namespace Cursor

/-- Past `n` characters one by one, unless the source ends before. -/
def advances? (k : Cursor) : Nat → Option Cursor
  | 0 => some k
  | n + 1 => k.advance?.bind fun step => step.2.advances? n

/-- **From `k` to `last` piece by piece,** with the tokens on the way. Each piece is passed by
single characters, all of which are there. -/
inductive Scans : Cursor → List Token → Cursor → Prop where
  | done (k : Cursor) : Scans k [] k
  | piece {k next last : Cursor} {token : Option Token} {tokens : List Token} {n : Nat} :
      k.step? = some (token, next) → 0 < n → k.advances? n = some next → Scans next tokens last →
      Scans k (token.toList ++ tokens) last

theorem advances?_eq_skip (k : Cursor) (n : Nat) (room : n ≤ k.rest.length) :
    k.advances? n = some (k.skip n) := by
  induction n generalizing k with
  | zero => rfl
  | succ n ih =>
    obtain ⟨offset, position, rest⟩ := k
    cases rest with
    | nil => cases room
    | cons c cs => exact ih ⟨offset + 1, position.after c, cs⟩ (Nat.le_of_succ_le_succ room)

theorem rest_skip (k : Cursor) (n : Nat) : (k.skip n).rest = k.rest.drop n := by
  induction n generalizing k with
  | zero => rfl
  | succ n ih =>
    obtain ⟨offset, position, rest⟩ := k
    cases rest with
    | nil => rfl
    | cons c cs => exact ih ⟨offset + 1, position.after c, cs⟩

theorem offset_skip (k : Cursor) (n : Nat) (room : n ≤ k.rest.length) :
    (k.skip n).offset = k.offset + n := by
  induction n generalizing k with
  | zero => rfl
  | succ n ih =>
    obtain ⟨offset, position, rest⟩ := k
    cases rest with
    | nil => cases room
    | cons c cs =>
      have shifted := ih ⟨offset + 1, position.after c, cs⟩ (Nat.le_of_succ_le_succ room)
      exact shifted.trans (Nat.add_right_comm offset 1 n)

/-- Characters already taken are skipped. -/
theorem scanAfter_skip (k : Cursor) (n : Nat) :
    Token.scanAfter n k.position k.rest =
      Token.scanAfter 0 (k.skip n).position (k.skip n).rest := by
  induction n generalizing k with
  | zero => rfl
  | succ n ih =>
    obtain ⟨offset, position, rest⟩ := k
    cases rest with
    | nil => rfl
    | cons c cs => exact ih ⟨offset + 1, position.after c, cs⟩

/-- The scan takes the token of the next piece, if it is one, and goes on behind it. -/
theorem scanAfter_of_step? {k next : Cursor} {token : Option Token}
    (step : k.step? = some (token, next)) : Token.scanAfter 0 k.position k.rest =
      token.toList ++ Token.scanAfter 0 next.position next.rest := by
  obtain ⟨offset, position, rest⟩ := k
  cases rest with
  | nil => cases step
  | cons c cs =>
    cases step
    exact congrArg _ (scanAfter_skip ⟨offset + 1, position.after c, cs⟩ (Token.munch c cs).more)

/-- **A scan leads from every cursor to the end:** its tokens, each spelt as its kind asks, and the
end token are those from the cursor on. -/
theorem exists_scans (k : Cursor) : ∃ tokens last, Scans k tokens last ∧ last.rest = [] ∧
    last.offset = k.offset + k.rest.length ∧ (∀ t ∈ tokens, t.Spelt) ∧
    Token.scanAfter 0 k.position k.rest = tokens ++ [⟨.eof, [], last.position⟩] := by
  -- By the length of what is left: every piece takes a character.
  induction left : k.rest.length using Nat.strong_induction_on generalizing k with
  | _ length ih =>
    subst left
    obtain ⟨offset, position, rest⟩ := k
    cases rest with
    | nil => exact ⟨[], _, .done _, rfl, rfl, fun _ member => absurd member List.not_mem_nil, rfl⟩
    | cons c cs =>
      let k : Cursor := ⟨offset, position, c :: cs⟩
      let piece := Token.munch c cs
      have step : k.step? = some (piece.tokenAt position, k.skip (piece.more + 1)) := rfl
      have room : piece.more + 1 ≤ k.rest.length := Nat.succ_le_succ (Token.munch_more_le c cs)
      have shorter : (k.skip (piece.more + 1)).rest.length < k.rest.length := by
        rw [rest_skip, List.length_drop]
        omega
      obtain ⟨tokens, last, scans, ended, behind, spelt, all⟩ := ih _ shorter _ rfl
      refine ⟨(piece.tokenAt position).toList ++ tokens, last,
        .piece step (Nat.succ_pos _) (advances?_eq_skip k _ room) scans, ended, ?_, ?_, ?_⟩
      · rw [behind, offset_skip k _ room, rest_skip, List.length_drop, Nat.add_assoc,
          Nat.add_sub_cancel' room]
      · intro t member
        rcases List.mem_append.mp member with first | later
        · obtain ⟨⟨kind, lexeme⟩, token, rfl⟩ :=
            Option.map_eq_some_iff.mp (Option.mem_toList.mp first)
          exact ⟨lexeme, Token.munch_spelling token, rfl⟩
        · exact spelt t later
      · rw [List.append_assoc, ← all]
        exact scanAfter_of_step? step

/-- **The scan of a source reaches its end,** and the tokens of the source are those on the way and
the end token. -/
theorem scans_tokenize (source : Text) : ∃ tokens last, Scans (ofText source) tokens last ∧
    last.rest = [] ∧ last.offset = source.chars.length ∧ (∀ t ∈ tokens, t.Spelt) ∧
    Token.tokenize source = tokens ++ [⟨.eof, [], last.position⟩] := by
  obtain ⟨tokens, last, scans, ended, offset, spelt, all⟩ := exists_scans (ofText source)
  refine ⟨tokens, last, scans, ended, ?_, spelt, all⟩
  rw [offset]
  exact Nat.zero_add _

end Cursor

end Guwen
