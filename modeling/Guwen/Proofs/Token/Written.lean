/-
**Tokens written one on a line are read back.**

A token is proper when its lexeme has the form of its kind, as the tokens of every source are. A
proper token alone on a line is scanned as itself: no other piece can start like it and go on.

* `Token.written`, `Token.write` — a token as a source has it, and tokens one on a line.
* `Token.Proper` — the lexeme has the form of the kind, or is a string without a closing quote.
* `Token.munch_lexeme` — a lexeme alone is taken whole, as a token of its kind.
* `Token.proper_tokenize` — the tokens of a source are proper.
* **`Token.tokenize_write`** — proper tokens written one on a line are scanned as they were.
* **`Token.tokenize_written_again`** — the tokens of every source are read back from their lines.
-/
import Guwen.Proofs.Token.Lines

namespace Guwen

namespace Token

/-- **A token as a source has it:** a string stands in quotes. -/
def written (t : Token) : Text := if t.kind = .string then "「" ++ t.lexeme ++ "」" else t.lexeme

/-- **Tokens as a source,** one on a line. -/
def write (ts : List Token) : Text := ts.flatMap fun t => t.written ++ "\n"

/-- The token without its place. -/
def unplaced (t : Token) : Token := { t with position := .nowhere }

/-- **The lexeme has the form of the kind.** -/
def Proper (t : Token) : Prop :=
  ∃ cs, t.lexeme = Text.ofChars cs ∧ (Lexeme t.kind cs ∨ t.kind = .string ∧ '」' ∉ cs)

/-! ### Classes of characters -/

section Classes

variable {c : Char}

theorem range_of_digit (digit : isDigit c = true) : 48 ≤ c.toNat ∧ c.toNat ≤ 57 := by
  simp only [isDigit, Bool.and_eq_true, decide_eq_true_eq, Char.le_def,
    UInt32.le_iff_toNat_le] at digit
  exact digit

theorem range_of_letter (letter : isLetter c = true) : 65 ≤ c.toNat ∧ c.toNat ≤ 122 := by
  simp only [isLetter, Bool.or_eq_true, Bool.and_eq_true, decide_eq_true_eq, Char.le_def,
    UInt32.le_iff_toNat_le, beq_iff_eq] at letter
  rcases letter with (⟨low, high⟩ | ⟨low, high⟩) | rfl
  · have least : 97 ≤ c.toNat := low
    exact ⟨by omega, high⟩
  · have most : c.toNat ≤ 90 := high
    exact ⟨low, by omega⟩
  · decide

theorem range_of_han (han : isHan c = true) :
    0x2E80 ≤ c.toNat ∧ c.toNat ≠ 0x3000 ∧ c.toNat ≠ 0x3001 ∧ c.toNat ≠ 0x300C ∧
      c.toNat ≠ 0x300D := by
  simp only [isHan, CharSet.contains, CharSet.han, List.any_cons, List.any_nil, Bool.or_false,
    Bool.or_eq_true, Bool.and_eq_true, decide_eq_true_eq] at han
  omega

/-- A character that starts a number, a name or a keyword. -/
def startsWord (c : Char) : Bool := isDigit c || isHan c || isLetter c

/-- The classes of words hold no blank and no mark, so they are told apart among themselves. -/
theorem munch_of_startsWord (starts : startsWord c = true) (cs : List Char) :
    munch c cs =
      if isDigit c then .word .number (c :: numberTail cs)
      else if isHan c then munchHan c cs
      else .word .identifier (c :: cs.takeWhile fun d => isLetter d || isDigit d) := by
  have range : 48 ≤ c.toNat ∧ c.toNat ≤ 122 ∨ 0x2E80 ≤ c.toNat ∧ c.toNat ≠ 0x3000 ∧
      c.toNat ≠ 0x3001 ∧ c.toNat ≠ 0x300C ∧ c.toNat ≠ 0x300D := by
    simp only [startsWord, Bool.or_eq_true] at starts
    rcases starts with (digit | han) | letter
    · have := range_of_digit digit
      omega
    · exact .inr (range_of_han han)
    · have := range_of_letter letter
      omega
  have blank : isBlank c = false := by
    simp only [isBlank, CharSet.contains, CharSet.blank, List.any_cons, List.any_nil, Bool.or_false,
      Bool.or_eq_false_iff, Bool.and_eq_false_iff, decide_eq_false_iff_not]
    omega
  have other (d : Char) (apart : c.toNat ≠ d.toNat) : (c == d) = false :=
    beq_false_of_ne fun same => apart (by rw [same])
  have slash := other '/' (by simp; omega)
  have opening := other '「' (by simp; omega)
  have closing := other '」' (by simp; omega)
  have comma := other '、' (by simp; omega)
  have letter : isDigit c = false → isHan c = false → isLetter c = true := by
    intro digit han
    simpa [startsWord, digit, han] using starts
  unfold munch
  simp only [blank, slash, opening, closing, comma, Bool.false_and, Bool.false_eq_true, if_false]
  split
  · rfl
  split
  · rfl
  rename_i digit han
  rw [if_pos (letter (Bool.eq_false_iff.mpr digit) (Bool.eq_false_iff.mpr han))]

theorem munch_of_digit (digit : isDigit c = true) (cs : List Char) :
    munch c cs = .word .number (c :: numberTail cs) := by
  rw [munch_of_startsWord (by simp [startsWord, digit]), if_pos digit]

theorem munch_of_han (han : isHan c = true) (cs : List Char) : munch c cs = munchHan c cs := by
  have digit : ¬ isDigit c = true := fun digit => by
    have low := range_of_han han
    have high := range_of_digit digit
    omega
  rw [munch_of_startsWord (by simp [startsWord, han]), if_neg digit, if_pos han]

theorem munch_of_letter (letter : isLetter c = true) (cs : List Char) :
    munch c cs = .word .identifier (c :: cs.takeWhile fun d => isLetter d || isDigit d) := by
  have range := range_of_letter letter
  have digit : ¬ isDigit c = true := fun digit => by
    have high := range_of_digit digit
    omega
  have han : ¬ isHan c = true := fun han => by
    have low := range_of_han han
    omega
  rw [munch_of_startsWord (by simp [startsWord, letter]), if_neg digit, if_neg han]

end Classes

/-! ### A lexeme alone -/

/-- A number is all of its digits. -/
theorem numberTail_digits {cs : List Char} (digits : ∀ x ∈ cs, isDigit x = true) :
    numberTail cs = cs := by
  have whole : cs.takeWhile isDigit = cs := List.takeWhile_eq_self_iff.mpr digits
  have nothing : cs.dropWhile isDigit = [] := List.dropWhile_eq_nil_iff.mpr digits
  unfold numberTail
  rw [nothing, whole]

theorem numberTail_decimal {cs ds : List Char} {d : Char} (whole : ∀ x ∈ cs, isDigit x = true)
    (part : ∀ x ∈ d :: ds, isDigit x = true) :
    numberTail (cs ++ '.' :: d :: ds) = cs ++ '.' :: d :: ds := by
  have point : isDigit '.' = false := by decide
  have before : (cs ++ '.' :: d :: ds).takeWhile isDigit = cs := by
    rw [List.takeWhile_append_of_pos whole, List.takeWhile_cons_of_neg (by simp [point]),
      List.append_nil]
  have behind : (cs ++ '.' :: d :: ds).dropWhile isDigit = '.' :: d :: ds := by
    rw [List.dropWhile_append_of_pos whole, List.dropWhile_cons_of_neg (by simp [point])]
  have rest : ds.takeWhile isDigit = ds :=
    List.takeWhile_eq_self_iff.mpr fun x member => part x (List.mem_cons_of_mem d member)
  unfold numberTail
  rw [behind, before]
  simp only [part d List.mem_cons_self, if_true, rest]

/-- A keyword starts with a Han character. -/
theorem isHan_of_keyword {kind : TokenKind} {c : Char} {cs : List Char}
    (found : Lexicon.kind? (c :: cs) = some kind) : isHan c = true := by
  have first : ∀ entry ∈ Lexicon.entries, entry.1.toList.head?.all isHan = true := by decide
  obtain ⟨word, entry, spelt⟩ := mem_entries_of_kind? found
  have han := first _ entry
  rwa [spelt] at han

/-- No keyword is longer than those looked for. -/
theorem length_le_of_keyword {kind : TokenKind} {cs : List Char}
    (found : Lexicon.kind? cs = some kind) : cs.length ≤ Lexicon.maxLength := by
  have short : ∀ entry ∈ Lexicon.entries, entry.1.toList.length ≤ Lexicon.maxLength := by decide
  obtain ⟨word, entry, rfl⟩ := mem_entries_of_kind? found
  exact short _ entry

/-- A single Han character that is no keyword. -/
theorem munchHan_single {c : Char} (free : Lexicon.kind? [c] = none) :
    munchHan c [] =
      .word (if Numeral.isNumeral [c] then .number else .identifier) [c] := by
  have none : Lexicon.longest? [c] = none := by
    simp [Lexicon.longest?, Lexicon.maxLength, Lexicon.longestUpTo?, free]
  rw [munchHan, none]

/-- **A lexeme alone is taken whole,** as a token of its kind. -/
theorem munch_lexeme {kind : TokenKind} {c : Char} {cs : List Char}
    (form : Lexeme kind (c :: cs)) : munch c cs = .word kind (c :: cs) := by
  generalize same : c :: cs = lexeme at form
  cases form with
  | digits all =>
    cases same
    rw [munch_of_digit (all c List.mem_cons_self),
      numberTail_digits fun x member => all x (List.mem_cons_of_mem c member)]
  | @decimal _ d cs ds whole part =>
    rw [List.cons_append] at same
    obtain ⟨rfl, rfl⟩ := List.cons_eq_cons.mp same
    rw [munch_of_digit (whole c List.mem_cons_self),
      numberTail_decimal (fun x member => whole x (List.mem_cons_of_mem c member)) part]
    rfl
  | numeral han free numeral =>
    cases same
    rw [munch_of_han han, munchHan_single free, if_pos numeral]
  | latin letter others =>
    cases same
    rw [munch_of_letter letter, List.takeWhile_eq_self_iff.mpr]
    intro d member
    simpa using others d member
  | glyph han free name =>
    cases same
    rw [munch_of_han han, munchHan_single free, if_neg (by simp [name])]
  | keyword found =>
    subst same
    have longest : Lexicon.longest? (c :: cs) = some (c :: cs, kind) :=
      longestUpTo?_of_kind? found (length_le_of_keyword found)
    rw [munch_of_han (isHan_of_keyword found), munchHan, longest]
  | closeQuote =>
    cases same
    rfl
  | comma =>
    cases same
    rfl
  | unknown free =>
    cases same
    simp only [isUnclassed, Bool.not_eq_true', Bool.or_eq_false_iff] at free
    obtain ⟨⟨⟨⟨⟨⟨blank, opening⟩, closing⟩, comma⟩, digit⟩, han⟩, letter⟩ := free
    simp [munch, blank, opening, closing, comma, digit, han, letter]

/-- A string in quotes is taken whole. -/
theorem munch_quoted {cs : List Char} (inside : '」' ∉ cs) :
    munch '「' (cs ++ ['」']) = ⟨(cs ++ ['」']).length, some (.string, cs)⟩ := by
  have body : (cs ++ ['」']).takeWhile (· != '」') = cs := by
    rw [List.takeWhile_append_of_pos, List.takeWhile_cons_of_neg (by simp), List.append_nil]
    intro c member
    simpa using fun same : c = '」' => inside (same ▸ member)
  show munchString (cs ++ ['」']) = _
  unfold munchString
  rw [body]
  simp

/-! ### Proper tokens -/

/-- A token that a step of the scan gives is proper. -/
theorem proper_of_munch {c : Char} {cs : List Char} {t : Token} {p : Position}
    (given : (munch c cs).tokenAt p = some t) : t.Proper := by
  obtain ⟨piece, rest, -, -, taken⟩ := munch_takes c cs
  obtain ⟨⟨kind, body⟩, token, rfl⟩ := Option.map_eq_some_iff.mp given
  rw [token] at taken
  cases taken with
  | closed inside => exact ⟨body, rfl, .inr ⟨rfl, inside⟩⟩
  | unclosed inside => exact ⟨body, rfl, .inr ⟨rfl, inside⟩⟩
  | word form => exact ⟨_, rfl, .inl form⟩

theorem proper_scanAfter (pending : Nat) (p : Position) (cs : List Char) :
    ∀ t ∈ (scanAfter pending p cs).dropLast, t.Proper := by
  induction cs generalizing pending p with
  | nil => cases pending <;> exact fun t member => absurd member List.not_mem_nil
  | cons c cs ih =>
    cases pending with
    | succ pending => exact ih pending (p.after c)
    | zero =>
      have rest := scanAfter_ne_nil (munch c cs).more (p.after c) cs
      rw [scanAfter, List.dropLast_append_of_ne_nil rest]
      refine List.forall_mem_append.mpr ⟨fun t member => ?_, ih _ _⟩
      exact proper_of_munch (Option.mem_toList.mp member)

/-- **The tokens of a source before its end are proper.** -/
theorem proper_tokenize (source : Text) : ∀ t ∈ (tokenize source).dropLast, t.Proper :=
  proper_scanAfter 0 .start source.chars

/-! ### Written tokens -/

/-- A piece that is all there is leaves nothing open. -/
theorem leavesOpen_length (cs : List Char) : leavesOpen cs.length cs = false := by
  induction cs with
  | nil => rfl
  | cons c cs ih => exact ih

/-- **A proper token alone is scanned as itself.** -/
theorem scan_written {t : Token} (proper : t.Proper) (p : Position) :
    leavesOpen 0 t.written.chars = false ∧
      (scanAfter 0 p t.written.chars).dropLast = [{ t with position := p }] := by
  obtain ⟨cs, same, form | ⟨string, inside⟩⟩ := proper
  · have plain : t.written.chars = cs := by
      rw [written, if_neg form.kind_ne.2.1, same, Text.chars_ofChars]
    rw [plain]
    cases cs with
    | nil => exact absurd rfl form.ne_nil
    | cons c cs =>
      have taken := munch_lexeme form
      have unquoted : (c == '「') = false := by
        refine beq_false_of_ne fun quote => form.kind_ne.2.1 ?_
        rw [quote] at taken
        exact (congrArg Prod.fst (Option.some.inj (congrArg Munch.token? taken))).symm
      refine ⟨?_, ?_⟩
      · rw [leavesOpen, taken, unquoted, Bool.false_and, Bool.false_or]
        exact leavesOpen_length cs
      · rw [scanAfter, taken]
        show (_ ++ scanAfter cs.length (p.after c) cs).dropLast = _
        rw [scanAfter_length, List.dropLast_concat, same]
        rfl
  · have quoted : t.written.chars = '「' :: (cs ++ ['」']) := by
      have whole : ("「" : Text) ++ Text.ofChars cs ++ "」" =
          Text.ofChars ('「' :: (cs ++ ['」'])) := by
        simp only [Text.ofChars, List.flatMap_cons, List.flatMap_append]
        rfl
      rw [written, if_pos string, same, whole, Text.chars_ofChars]
    have taken := munch_quoted inside
    rw [quoted]
    refine ⟨?_, ?_⟩
    · rw [leavesOpen, taken]
      simpa using leavesOpen_length (cs ++ ['」'])
    · rw [scanAfter, taken, scanAfter_length, List.dropLast_concat, same, string]
      rfl

/-- **A proper token and a line feed are scanned as the token,** and then what follows. -/
theorem scanAfter_written_line {t : Token} (proper : t.Proper) (p : Position) (rest : Text) :
    ∃ q, (scanAfter 0 p (t.written ++ 10 :: rest).chars).dropLast.map unplaced =
      t.unplaced :: (scanAfter 0 q rest.chars).dropLast.map unplaced := by
  obtain ⟨closed, scanned⟩ := scan_written proper p
  have later := scanAfter_ne_nil 0 ((p.past t.written.chars).after '\n') rest.chars
  refine ⟨(p.past t.written.chars).after '\n', ?_⟩
  rw [Text.chars_append_line, scanAfter_line (Nat.zero_le _) closed,
    List.dropLast_append_of_ne_nil later, List.map_append, scanned]
  rfl

theorem scanAfter_write {ts : List Token} (proper : ∀ t ∈ ts, t.Proper) (p : Position) :
    (scanAfter 0 p (write ts).chars).dropLast.map unplaced = ts.map unplaced := by
  induction ts generalizing p with
  | nil => rfl
  | cons t ts ih =>
    obtain ⟨first, others⟩ := List.forall_mem_cons.mp proper
    obtain ⟨q, scanned⟩ := scanAfter_written_line first p (write ts)
    have line : write (t :: ts) = t.written ++ 10 :: write ts := by
      rw [write, List.flatMap_cons, List.append_assoc]
      rfl
    rw [line, scanned, ih others, List.map_cons]

/-- The last line may end with the source. -/
theorem scanAfter_join {ts : List Token} (proper : ∀ t ∈ ts, t.Proper) (p : Position) :
    (scanAfter 0 p (Text.join "\n" (ts.map written)).chars).dropLast.map unplaced =
      ts.map unplaced := by
  induction ts generalizing p with
  | nil => rfl
  | cons t ts ih =>
    obtain ⟨first, others⟩ := List.forall_mem_cons.mp proper
    cases ts with
    | nil =>
      have alone : Text.join "\n" [t.written] = t.written := List.append_nil _
      rw [List.map_singleton, alone, (scan_written first p).2]
      rfl
    | cons u us =>
      obtain ⟨q, scanned⟩ :=
        scanAfter_written_line first p (Text.join "\n" ((u :: us).map written))
      have line : Text.join "\n" ((t :: u :: us).map written) =
          t.written ++ 10 :: Text.join "\n" ((u :: us).map written) := rfl
      rw [line, scanned, ih others]
      rfl

/-- **Proper tokens written one on a line are scanned as they were,** but for their places. -/
theorem tokenize_write {ts : List Token} (proper : ∀ t ∈ ts, t.Proper) :
    (tokenize (write ts)).dropLast.map unplaced = ts.map unplaced :=
  scanAfter_write proper .start

/-! ### The tokens of a source, written again -/

/-- The tokens of a source without their places end with the end token. -/
theorem map_unplaced_tokenize (source : Text) : (tokenize source).map unplaced =
    (tokenize source).dropLast.map unplaced ++ [⟨.eof, [], .nowhere⟩] := by
  obtain ⟨words, all, -⟩ := (scanAfter_partition .start source.chars).tokens
  rw [show tokenize source = _ from all, List.dropLast_concat, List.map_append]
  rfl

/-- **The tokens of a source, written one on a line, are read back:** their kinds and lexemes are
those of the source, to the end token. The last line may end with a line feed or with the source. -/
theorem tokenize_written_again (source : Text) :
    let words := (tokenize source).dropLast
    (tokenize (write words)).map unplaced = (tokenize source).map unplaced ∧
      (tokenize (Text.join "\n" (words.map written))).map unplaced =
        (tokenize source).map unplaced := by
  have proper := proper_tokenize source
  simp only [map_unplaced_tokenize]
  exact ⟨congrArg (· ++ _) (scanAfter_write proper .start),
    congrArg (· ++ _) (scanAfter_join proper .start)⟩

end Token

end Guwen
