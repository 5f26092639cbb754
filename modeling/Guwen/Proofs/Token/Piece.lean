/-
**Pieces: what one step of the scan takes from a source.**

A piece of a source is one character of white space, a comment, or the span of a token. The span of
a string holds its quotes; any other token is its span, letter by letter.

* `Lexeme kind cs` — the characters that a token of a kind has, strings apart.
* `Token.Piece token? piece rest` — the piece stands before `rest` and gives the token, if it is one.
* **`Token.munch_takes`** — every step of the scan takes a piece off the front of the source.
-/
import Guwen.Token.Scan
import Mathlib.Data.List.TakeWhile

namespace Guwen

/-! ### Lexemes -/

/-- A character that starts nothing: it stands for itself alone. -/
def isUnclassed (c : Char) : Bool :=
  !(isBlank c || c == '「' || c == '」' || c == '、' || isDigit c || isHan c || isLetter c)

/-- **The characters of a token of a kind,** which are all of its span. -/
inductive Lexeme : TokenKind → List Char → Prop where
  /-- Digits. -/
  | digits {c : Char} {cs : List Char} : (∀ x ∈ c :: cs, isDigit x = true) →
      Lexeme .number (c :: cs)
  /-- Digits with one point between them. -/
  | decimal {c d : Char} {cs ds : List Char} : (∀ x ∈ c :: cs, isDigit x = true) →
      (∀ x ∈ d :: ds, isDigit x = true) → Lexeme .number (c :: cs ++ '.' :: d :: ds)
  /-- One numeral glyph. -/
  | numeral {c : Char} : isHan c = true → Lexicon.kind? [c] = none →
      Numeral.isNumeral [c] = true → Lexeme .number [c]
  /-- A letter, then letters and digits. -/
  | latin {c : Char} {cs : List Char} : isLetter c = true →
      (∀ d ∈ cs, isLetter d = true ∨ isDigit d = true) → Lexeme .identifier (c :: cs)
  /-- One Han character that is neither a keyword nor a numeral glyph. -/
  | glyph {c : Char} : isHan c = true → Lexicon.kind? [c] = none →
      Numeral.isNumeral [c] = false → Lexeme .identifier [c]
  /-- A spelling that the lexicon gives the kind. -/
  | keyword {kind : TokenKind} {cs : List Char} : Lexicon.kind? cs = some kind → Lexeme kind cs
  | closeQuote : Lexeme .closeQuote ['」']
  | comma : Lexeme .comma ['、']
  | unknown {c : Char} : isUnclassed c = true → Lexeme .unknown [c]

/-- A keyword is one of the entries of the lexicon. -/
theorem mem_entries_of_kind? {cs : List Char} {kind : TokenKind}
    (found : Lexicon.kind? cs = some kind) :
    ∃ word, (word, kind) ∈ Lexicon.entries ∧ word.toList = cs := by
  obtain ⟨⟨word, _⟩, hit, rfl⟩ := Option.map_eq_some_iff.mp found
  exact ⟨word, List.mem_of_find?_eq_some hit, by simpa using List.find?_some hit⟩

theorem Lexeme.ne_nil {kind : TokenKind} {cs : List Char} (form : Lexeme kind cs) : cs ≠ [] := by
  cases form with
  | keyword found =>
    rintro rfl
    cases found
  | decimal => exact List.append_ne_nil_of_left_ne_nil (List.cons_ne_nil _ _) _
  | _ => exact List.cons_ne_nil _ _

/-- Neither the end, nor a string, nor an opening quote is a token of this form. -/
theorem Lexeme.kind_ne {kind : TokenKind} {cs : List Char} (form : Lexeme kind cs) :
    kind ≠ .eof ∧ kind ≠ .string ∧ kind ≠ .openQuote := by
  cases form with
  | keyword found =>
    obtain ⟨word, entry, -⟩ := mem_entries_of_kind? found
    have others : ∀ entry ∈ Lexicon.entries,
        entry.2 ≠ .eof ∧ entry.2 ≠ .string ∧ entry.2 ≠ .openQuote := by decide
    exact others _ entry
  | _ => exact ⟨TokenKind.noConfusion, TokenKind.noConfusion, TokenKind.noConfusion⟩

namespace Token

/-! ### Pieces -/

/-- Nothing is left, or the line ends here. -/
def AtLineEnd (rest : List Char) : Prop := ∀ c ∈ rest.head?, c = '\n'

/-- **A piece of a source before `rest`,** with the kind and the lexeme of its token. White space
and comments give none. -/
inductive Piece : Option (TokenKind × List Char) → List Char → List Char → Prop where
  | blank {c : Char} {rest : List Char} (blank : isBlank c = true) : Piece none [c] rest
  | comment {body rest : List Char} (one_line : '\n' ∉ body) (ends : AtLineEnd rest) :
      Piece none ('/' :: '/' :: body) rest
  | closed {body rest : List Char} (inside : '」' ∉ body) :
      Piece (some (.string, body)) ('「' :: (body ++ ['」'])) rest
  /-- A string that is never closed runs to the end. -/
  | unclosed {body : List Char} (inside : '」' ∉ body) :
      Piece (some (.string, body)) ('「' :: body) []
  | word {kind : TokenKind} {cs rest : List Char} (form : Lexeme kind cs) :
      Piece (some (kind, cs)) cs rest

/-- The step takes a piece off the front of the source. -/
def Munch.Takes (m : Munch) (source : List Char) : Prop :=
  ∃ piece rest, source = piece ++ rest ∧ piece.length = m.more + 1 ∧ Piece m.token? piece rest

theorem Munch.takes_word {kind : TokenKind} {lexeme source : List Char} (form : Lexeme kind lexeme)
    (front : lexeme <+: source) : (Munch.word kind lexeme).Takes source := by
  obtain ⟨rest, rfl⟩ := front
  have length : 0 < lexeme.length := List.length_pos_iff.mpr form.ne_nil
  exact ⟨lexeme, rest, rfl, (Nat.sub_add_cancel length).symm, .word form⟩

/-! #### Numbers -/

/-- The digits after the first, as a whole part and perhaps a point with digits. -/
theorem numberTail_cases (cs : List Char) :
    numberTail cs = cs.takeWhile isDigit ∨
      ∃ d rest, cs.dropWhile isDigit = '.' :: d :: rest ∧ isDigit d = true ∧
        numberTail cs = cs.takeWhile isDigit ++ '.' :: d :: rest.takeWhile isDigit := by
  unfold numberTail
  split
  · rename_i d rest after
    by_cases digit : isDigit d = true
    · exact .inr ⟨d, rest, after, digit, if_pos digit⟩
    · exact .inl (if_neg digit)
  · exact .inl rfl

theorem numberTail_prefix (cs : List Char) : numberTail cs <+: cs := by
  rcases numberTail_cases cs with whole | ⟨d, rest, after, -, fraction⟩
  · rw [whole]
    exact List.takeWhile_prefix _
  · have split : cs = cs.takeWhile isDigit ++ '.' :: d :: rest := by
      rw [← after, List.takeWhile_append_dropWhile]
    have more : '.' :: d :: rest.takeWhile isDigit <+: '.' :: d :: rest :=
      List.prefix_append_right_inj ['.', d] |>.mpr (List.takeWhile_prefix _)
    rw [fraction]
    exact ((List.prefix_append_right_inj _).mpr more).trans (split ▸ List.prefix_rfl)

/-- A digit and what follows it as a number. -/
theorem lexeme_number {c : Char} (digit : isDigit c = true) (cs : List Char) :
    Lexeme .number (c :: numberTail cs) := by
  have run : ∀ {c : Char} {cs : List Char}, isDigit c = true →
      ∀ x ∈ c :: cs.takeWhile isDigit, isDigit x = true := by
    intro c cs digit x member
    rcases List.mem_cons.mp member with rfl | later
    · exact digit
    · exact List.mem_takeWhile_imp later
  rcases numberTail_cases cs with whole | ⟨d, rest, -, digit', fraction⟩
  · rw [whole]
    exact .digits (run digit)
  · rw [fraction]
    exact .decimal (run digit) (run digit')

/-! #### Han characters -/

theorem longestUpTo?_eq_some {cs spelling : List Char} {kind : TokenKind} {length : Nat}
    (found : Lexicon.longestUpTo? cs length = some (spelling, kind)) :
    Lexicon.kind? spelling = some kind ∧ spelling <+: cs := by
  induction length with
  | zero => cases found
  | succ length ih =>
    unfold Lexicon.longestUpTo? at found
    cases hit : Lexicon.kind? (cs.take (length + 1)) with
    | none =>
      rw [hit] at found
      exact ih found
    | some kind' =>
      rw [hit] at found
      cases found
      exact ⟨hit, List.take_prefix _ _⟩

/-- **A keyword at the front is found,** or a longer one is, when there is room for it. -/
theorem exists_longestUpTo? {cs word : List Char} {kind : TokenKind} {length : Nat}
    (known : Lexicon.kind? word = some kind) (front : word <+: cs) (short : word.length ≤ length) :
    ∃ spelling kind', Lexicon.longestUpTo? cs length = some (spelling, kind') ∧
      word.length ≤ spelling.length := by
  induction length with
  | zero =>
    rw [List.length_eq_zero_iff.mp (Nat.le_zero.mp short)] at known
    cases known
  | succ length ih =>
    unfold Lexicon.longestUpTo?
    cases hit : Lexicon.kind? (cs.take (length + 1)) with
    | some kind' =>
      refine ⟨_, _, rfl, ?_⟩
      rw [List.length_take]
      exact Nat.le_min.mpr ⟨short, front.length_le⟩
    | none =>
      -- A keyword of just this length would have been the one tried.
      refine ih (Nat.le_of_lt_succ (Nat.lt_of_le_of_ne short fun long => ?_))
      rw [List.prefix_iff_eq_take.mp front, long, hit] at known
      cases known

/-- Without a keyword at the front, the first character is none either. -/
theorem kind?_of_longest?_eq_none {c : Char} {cs : List Char}
    (none_found : Lexicon.longest? (c :: cs) = none) : Lexicon.kind? [c] = none := by
  refine Option.eq_none_iff_forall_ne_some.mpr fun kind known => ?_
  obtain ⟨spelling, kind', found, -⟩ :=
    exists_longestUpTo? known (List.prefix_append [c] cs) (show 1 ≤ Lexicon.maxLength by decide)
  cases none_found.symm.trans found

/-- The piece that starts with a Han character. -/
theorem munchHan_takes {c : Char} (han : isHan c = true) (cs : List Char) :
    (munchHan c cs).Takes (c :: cs) := by
  unfold munchHan
  cases found : Lexicon.longest? (c :: cs) with
  | some both =>
    obtain ⟨spelling, kind⟩ := both
    obtain ⟨known, front⟩ := longestUpTo?_eq_some found
    exact Munch.takes_word (.keyword known) front
  | none =>
    have free := kind?_of_longest?_eq_none found
    by_cases numeral : Numeral.isNumeral [c] = true
    · simp only [if_pos numeral]
      exact Munch.takes_word (.numeral han free numeral) (List.prefix_append [c] cs)
    · simp only [if_neg numeral]
      exact Munch.takes_word (.glyph han free (Bool.eq_false_iff.mpr numeral))
        (List.prefix_append [c] cs)

/-! #### Comments and strings -/

theorem comment_takes {cs : List Char} (second : cs.head? = some '/') :
    (Munch.skip (cs.takeWhile (· != '\n')).length).Takes ('/' :: cs) := by
  obtain ⟨after, rfl⟩ : ∃ after, cs = '/' :: after := by
    cases cs with
    | nil => cases second
    | cons c after =>
      cases second
      exact ⟨after, rfl⟩
  refine ⟨'/' :: '/' :: after.takeWhile (· != '\n'), after.dropWhile (· != '\n'), ?_, rfl, ?_⟩
  · rw [List.cons_append, List.cons_append, List.takeWhile_append_dropWhile]
  · refine .comment (fun member => ?_) fun c head => ?_
    · simpa using List.mem_takeWhile_imp member
    · have stop := List.head?_dropWhile_not (· != '\n') after
      rw [head] at stop
      simpa using stop

theorem munchString_takes (cs : List Char) : (munchString cs).Takes ('「' :: cs) := by
  have split := List.takeWhile_append_dropWhile (p := (· != '」')) (l := cs)
  have inside : '」' ∉ cs.takeWhile (· != '」') := fun member => by
    simpa using List.mem_takeWhile_imp member
  have stop := List.head?_dropWhile_not (· != '」') cs
  unfold munchString
  cases left : cs.dropWhile (· != '」') with
  | nil =>
    rw [left, List.append_nil] at split
    refine ⟨'「' :: cs.takeWhile (· != '」'), [], by rw [split, List.append_nil], ?_,
      .unclosed inside⟩
    dsimp only
    rw [if_neg (by rw [split]; exact Nat.lt_irrefl _)]
    rfl
  | cons c rest =>
    rw [left] at split stop
    obtain rfl : c = '」' := by simpa using stop
    refine ⟨'「' :: (cs.takeWhile (· != '」') ++ ['」']), rest, ?_, ?_, .closed inside⟩
    · rw [List.cons_append, List.append_assoc, List.singleton_append, split]
    · have length := congrArg List.length split
      simp only [List.length_append, List.length_cons, List.length_nil] at length ⊢
      rw [if_pos (by omega)]

/-- **Every step of the scan takes a piece off the front of the source.** -/
theorem munch_takes (c : Char) (cs : List Char) : (munch c cs).Takes (c :: cs) := by
  have front : [c] <+: c :: cs := List.prefix_append [c] cs
  unfold munch
  split
  · rename_i blank
    exact ⟨[c], cs, rfl, rfl, .blank blank⟩
  split
  · rename_i comment
    obtain ⟨first, second⟩ := Bool.and_eq_true_iff.mp comment
    rw [eq_of_beq first]
    exact comment_takes (eq_of_beq second)
  split
  · rename_i quote
    rw [eq_of_beq quote]
    exact munchString_takes cs
  split
  · rename_i quote
    obtain rfl := eq_of_beq quote
    exact Munch.takes_word .closeQuote front
  split
  · rename_i comma
    obtain rfl := eq_of_beq comma
    exact Munch.takes_word .comma front
  split
  · rename_i digit
    exact Munch.takes_word (lexeme_number digit cs)
      (List.cons_prefix_cons.mpr ⟨rfl, numberTail_prefix cs⟩)
  split
  · rename_i han
    exact munchHan_takes han cs
  split
  · rename_i letter
    refine Munch.takes_word (.latin letter fun d member => ?_)
      (List.cons_prefix_cons.mpr ⟨rfl, List.takeWhile_prefix _⟩)
    simpa using List.mem_takeWhile_imp member
  · rename_i blank _ open_quote close_quote comma digit han letter
    refine Munch.takes_word (.unknown ?_) front
    simp [isUnclassed, blank, open_quote, close_quote, comma, digit, han, letter]

end Token

end Guwen
