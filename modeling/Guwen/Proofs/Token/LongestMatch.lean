/-
**Keywords are matched to their full length.**

Keywords overlap: 云 is the front of 云云, 若 that of 若非, and the numeral 一 that of 一數. Wherever
a token starts, the longest keyword there is the token; where there is none, a Han character stands
alone, and no token has the kind of a keyword.

* `Lexicon.Longest cs entry` — no keyword at the front of `cs` is longer than the entry.
* **`Lexicon.exists_longest`** — where there is a keyword, the search finds the longest one.
* `Token.munch_of_longest`, `Token.kind_ne_of_free` — what a piece is with a keyword at the front of
  the source, and without.
* **`Token.keyword_longest_match`** — what every token of a source is, by the keywords that the
  source has where the token starts.
-/
import Guwen.Proofs.Numeral.Positional
import Guwen.Proofs.Token.Positions
import Guwen.Proofs.Token.Written

namespace Guwen

namespace Lexicon

/-! ### The longest keyword -/

/-- **The longest keyword at the front of `cs`:** an entry of the lexicon that `cs` starts with, and
none that `cs` starts with is longer. -/
structure Longest (cs : List Char) (entry : String × TokenKind) : Prop where
  known : entry ∈ entries
  front : entry.1.toList <+: cs
  longest : ∀ other ∈ entries, other.1.toList <+: cs →
    other.1.toList.length ≤ entry.1.toList.length

/-- No two entries have one spelling. -/
theorem kind?_of_mem {entry : String × TokenKind} (known : entry ∈ entries) :
    kind? entry.1.toList = some entry.2 := by
  have each : ∀ entry ∈ entries, kind? entry.1.toList = some entry.2 := by decide
  exact each entry known

/-- **Where there is a keyword, the search finds the longest one,** whatever its length. -/
theorem exists_longest {cs : List Char} {entry : String × TokenKind} (known : entry ∈ entries)
    (front : entry.1.toList <+: cs) :
    ∃ found, Longest cs found ∧ longest? cs = some (found.1.toList, found.2) := by
  -- Every keyword at the front is found or outdone, and the search has one result.
  have outdone : ∀ other ∈ entries, other.1.toList <+: cs → ∃ spelling kind,
      longest? cs = some (spelling, kind) ∧ other.1.toList.length ≤ spelling.length := by
    intro other member start
    have spelt := kind?_of_mem member
    exact Token.exists_longestUpTo? spelt start (Token.length_le_of_keyword spelt)
  obtain ⟨spelling, kind, hit, -⟩ := outdone entry known front
  obtain ⟨spelt, start⟩ := Token.longestUpTo?_eq_some hit
  obtain ⟨word, member, rfl⟩ := mem_entries_of_kind? spelt
  refine ⟨(word, kind), ⟨member, start, fun other otherKnown otherFront => ?_⟩, hit⟩
  obtain ⟨spelling', kind', hit', long⟩ := outdone other otherKnown otherFront
  cases hit.symm.trans hit'
  exact long

/-- Where there is no keyword, the search finds none. -/
theorem longest?_of_free {cs : List Char}
    (free : ∀ entry ∈ entries, ¬ entry.1.toList <+: cs) : longest? cs = none := by
  refine Option.eq_none_iff_forall_ne_some.mpr fun ⟨spelling, kind⟩ hit => ?_
  obtain ⟨spelt, start⟩ := Token.longestUpTo?_eq_some hit
  obtain ⟨word, member, rfl⟩ := mem_entries_of_kind? spelt
  exact free _ member start

end Lexicon

namespace Token

/-! ### Pieces with and without a keyword at the front -/

section Piece

variable {c : Char} {cs : List Char}

/-- A source that starts with a keyword starts with a Han character. -/
theorem isHan_of_front {entry : String × TokenKind} (known : entry ∈ Lexicon.entries)
    (front : entry.1.toList <+: c :: cs) : isHan c = true := by
  have spelt := Lexicon.kind?_of_mem known
  cases chars : entry.1.toList with
  | nil => exact absurd chars (Lexeme.keyword spelt).ne_nil
  | cons d ds =>
    rw [chars] at spelt front
    obtain ⟨rfl, -⟩ := List.cons_prefix_cons.mp front
    exact isHan_of_keyword spelt

/-- **With a keyword at the front the piece is the longest one.** -/
theorem munch_of_longest {entry : String × TokenKind} (known : entry ∈ Lexicon.entries)
    (front : entry.1.toList <+: c :: cs) :
    ∃ found, Lexicon.Longest (c :: cs) found ∧ munch c cs = .word found.2 found.1.toList := by
  obtain ⟨found, longest, hit⟩ := Lexicon.exists_longest known front
  refine ⟨found, longest, ?_⟩
  rw [munch_of_han (isHan_of_front known front), munchHan, hit]

variable (free : ∀ entry ∈ Lexicon.entries, ¬ entry.1.toList <+: c :: cs)

include free

/-- **Without one the token of a piece is not of a keyword's kind.** -/
theorem kind_ne_of_free {kind : TokenKind} {lexeme : List Char}
    (given : (munch c cs).token? = some (kind, lexeme)) :
    ∀ entry ∈ Lexicon.entries, kind ≠ entry.2 := by
  have others : ∀ entry ∈ Lexicon.entries, entry.2 ≠ .string ∧ entry.2 ≠ .number ∧
      entry.2 ≠ .identifier ∧ entry.2 ≠ .closeQuote ∧ entry.2 ≠ .comma ∧ entry.2 ≠ .unknown := by
    decide
  intro entry known
  obtain ⟨string, number, identifier, closeQuote, comma, unknown⟩ := others entry known
  obtain ⟨piece, rest, split, -, taken⟩ := munch_takes c cs
  rw [given] at taken
  cases taken with
  | closed | unclosed => exact string.symm
  | word form =>
    cases form with
    | keyword found =>
      obtain ⟨word, member, rfl⟩ := mem_entries_of_kind? found
      exact absurd (split ▸ List.prefix_append _ rest) (free _ member)
    | digits | decimal | numeral => exact number.symm
    | latin | glyph => exact identifier.symm
    | closeQuote => exact closeQuote.symm
    | comma => exact comma.symm
    | unknown => exact unknown.symm

/-- A Han character then stands alone. -/
theorem munch_of_free (han : isHan c = true) :
    munch c cs = .word (if Numeral.isNumeral [c] then .number else .identifier) [c] := by
  rw [munch_of_han han, munchHan, Lexicon.longest?_of_free free]

end Piece

/-! ### Where a token starts -/

/-- **Keywords are matched to their full length.** Where a token starts and the source has some
keyword, the token is the longest one there, with its kind. Where it has none, the token is not of a
keyword's kind, and a Han character is a token of its own: a number if it is a numeral glyph, and a
name otherwise. -/
theorem keyword_longest_match {source : Text} {t : Token} {n : Nat} (starts : StartsAt source t n) :
    ((∃ entry ∈ Lexicon.entries, entry.1.toList <+: source.chars.drop n) →
      ∃ entry, Lexicon.Longest (source.chars.drop n) entry ∧
        t.kind = entry.2 ∧ t.lexeme = Text.ofString entry.1) ∧
    ((∀ entry ∈ Lexicon.entries, ¬ entry.1.toList <+: source.chars.drop n) →
      (∀ entry ∈ Lexicon.entries, t.kind ≠ entry.2) ∧
      ∀ c ∈ (source.chars.drop n).head?, isHan c = true → t.lexeme = Text.ofChars [c] ∧
        (t.kind = .number ↔ Numeral.IsGlyph c) ∧
        (t.kind = .identifier ↔ ¬ Numeral.IsGlyph c)) := by
  obtain ⟨k, placed, rfl, given⟩ := starts.exists_cursor
  rw [← placed.left]
  unfold Cursor.token? at given
  split at given
  · -- At the end there is neither a keyword nor a character.
    rename_i ended
    cases given
    rw [ended]
    refine ⟨?_, fun _ => ⟨?_, fun c first => nomatch first⟩⟩
    · rintro ⟨entry, known, front⟩
      have spelt := Lexicon.kind?_of_mem known
      exact absurd (List.prefix_nil.mp front) (Lexeme.keyword spelt).ne_nil
    · have others : ∀ entry ∈ Lexicon.entries, TokenKind.eof ≠ entry.2 := by decide
      exact others
  · rename_i c cs left
    rw [left]
    constructor
    · rintro ⟨entry, known, front⟩
      obtain ⟨found, longest, taken⟩ := munch_of_longest known front
      rw [taken] at given
      cases given
      exact ⟨found, longest, rfl, rfl⟩
    · intro free
      obtain ⟨⟨kind, lexeme⟩, token, rfl⟩ := Option.map_eq_some_iff.mp given
      refine ⟨kind_ne_of_free free token, ?_⟩
      rintro _ ⟨⟩ han
      rw [munch_of_free free han] at token
      cases token
      rw [← Numeral.isNumeral_singleton_iff]
      by_cases numeral : Numeral.isNumeral [c] = true
      · simp [numeral]
      · simp [numeral]

/-- Of three 云 the first two are one keyword, and the 一 at the end is a numeral, unlike that of
一數. -/
theorem keyword_longest_match_overlaps :
    let source : Text := "一數云云云一"
    (StartsAt source ⟨.blockEnd, "云云", 1, 3⟩ 2 ∧
      ∃ entry, Lexicon.Longest (source.chars.drop 2) entry ∧
        TokenKind.blockEnd = entry.2 ∧ ("云云" : Text) = Text.ofString entry.1) ∧
    (StartsAt source ⟨.number, "一", 1, 6⟩ 5 ∧
      (∀ entry ∈ Lexicon.entries, ¬ entry.1.toList <+: source.chars.drop 5) ∧
      (∀ entry ∈ Lexicon.entries, TokenKind.number ≠ entry.2) ∧ Numeral.IsGlyph '一') := by
  intro source
  have read : source.chars = ['一', '數', '云', '云', '云', '一'] := by decide +kernel
  have fresh : Cursor.ofText source = ⟨0, .start, ['一', '數', '云', '云', '云', '一']⟩ := by
    rw [Cursor.ofText, read]
  have doubled : StartsAt source ⟨.blockEnd, "云云", 1, 3⟩ 2 := by
    unfold StartsAt
    rw [fresh]
    exact ⟨_, _, .piece (n := 2) rfl (by decide) rfl (.done _), rfl, rfl⟩
  have last : StartsAt source ⟨.number, "一", 1, 6⟩ 5 := by
    unfold StartsAt
    rw [fresh]
    exact ⟨_, _, .piece (n := 2) rfl (by decide) rfl (.piece (n := 2) rfl (by decide) rfl
      (.piece (n := 1) rfl (by decide) rfl (.done _))), rfl, rfl⟩
  have known : ("云", TokenKind.print) ∈ Lexicon.entries := by decide
  have free : ∀ entry ∈ Lexicon.entries, ¬ entry.1.toList <+: source.chars.drop 5 := by
    rw [read]
    decide
  have alone := (keyword_longest_match last).2 free
  have glyph := (alone.2 '一' (by rw [read]; rfl) (by decide)).2.1.mp rfl
  refine ⟨⟨doubled, (keyword_longest_match doubled).1 ⟨_, known, ?_⟩⟩, last, free, alone.1, glyph⟩
  rw [read]
  decide

end Token

end Guwen
