/-
**Which texts have a literal that C# can read.**

A regular string literal of C# stands on one line. Five characters end a line there; a literal
escapes two of them, the line feed and the carriage return, and lets the other three pass. So the
literal of a text is a regular one just when the text has none of the three.

* `isLineBreak`, `isBareBreak` — the characters that end a line, and those that no literal escapes.
* `IsRegularLiteral` — the regular string literals of C#, by their grammar.
* `literalChar`, `quote_ofChars` — the escapes of a literal, character by character.
* `filter_chars_quote` — the line breaks of a literal.
* **`isRegularLiteral_quote_iff`** — the texts whose literal is a regular one.
-/
import Guwen.Proofs.Code.StringLiteral
import Guwen.Proofs.Text.Encoding

namespace Guwen

namespace Code

/-! ### Line breaks -/

/-- **The characters that end a line of C#.** -/
def isLineBreak (c : Char) : Bool :=
  c == '\n' || c == '\r' || c == '\u0085' || c == '\u2028' || c == '\u2029'

/-- **The line breaks that a string literal does not escape.** -/
def isBareBreak (c : Char) : Bool := c == '\u0085' || c == '\u2028' || c == '\u2029'

theorem isLineBreak_of_bare {c : Char} (bare : isBareBreak c = true) : isLineBreak c = true := by
  simp only [isBareBreak, isLineBreak, Bool.or_eq_true] at bare ⊢
  exact bare.imp_left fun first => first.imp_left .inr

/-! ### Regular string literals -/

/-- What may stand alone behind a backslash. -/
def simpleEscapes : List Char := "'\"\\0abfnrtv".toList

/-- A hexadecimal digit, in either case. -/
def isHexChar (c : Char) : Bool := c.isDigit || ('a' ≤ c && c ≤ 'f') || ('A' ≤ c && c ≤ 'F')

/-- **What may stand between the quotes of a regular string literal.** -/
inductive RegularContent : List Char → Prop where
  | nil : RegularContent []
  | single {c : Char} {cs : List Char} (no_quote : c ≠ '"') (no_escape : c ≠ '\\')
      (one_line : isLineBreak c = false) (rest : RegularContent cs) : RegularContent (c :: cs)
  | simple {c : Char} {cs : List Char} (known : c ∈ simpleEscapes) (rest : RegularContent cs) :
      RegularContent ('\\' :: c :: cs)
  /-- `\x` and one to four digits. -/
  | short {ds cs : List Char} (digits : ∀ d ∈ ds, isHexChar d = true) (given : ds ≠ [])
      (length : ds.length ≤ 4) (rest : RegularContent cs) :
      RegularContent ('\\' :: 'x' :: (ds ++ cs))
  /-- `\u` and four digits. -/
  | unicode {ds cs : List Char} (digits : ∀ d ∈ ds, isHexChar d = true) (length : ds.length = 4)
      (rest : RegularContent cs) : RegularContent ('\\' :: 'u' :: (ds ++ cs))
  /-- `\U` and the eight digits of a character. -/
  | long {ds cs : List Char} (digits : ∀ d ∈ ds, isHexChar d = true) (length : ds.length = 8)
      (range : ds.take 3 = ['0', '0', '0'] ∨ ds.take 4 = ['0', '0', '1', '0'])
      (rest : RegularContent cs) : RegularContent ('\\' :: 'U' :: (ds ++ cs))

/-- **A regular string literal.** -/
def IsRegularLiteral (cs : List Char) : Prop :=
  ∃ content, RegularContent content ∧ cs = '"' :: (content ++ ['"'])

theorem not_isLineBreak_of_hex {d : Char} (digit : isHexChar d = true) :
    isLineBreak d = false := by
  refine Bool.eq_false_iff.mpr fun breaks => ?_
  simp only [isLineBreak, Bool.or_eq_true, beq_iff_eq] at breaks
  rcases breaks with (((rfl | rfl) | rfl) | rfl) | rfl <;> cases digit

/-- **A regular string literal stands on one line.** -/
theorem RegularContent.one_line {cs : List Char} (regular : RegularContent cs) :
    ∀ c ∈ cs, isLineBreak c = false := by
  have escaped {c : Char} {ds cs : List Char} (letter : isLineBreak c = false)
      (digits : ∀ d ∈ ds, isHexChar d = true) (rest : ∀ c ∈ cs, isLineBreak c = false) :
      ∀ d ∈ '\\' :: c :: (ds ++ cs), isLineBreak d = false := by
    refine List.forall_mem_cons.mpr ⟨rfl, List.forall_mem_cons.mpr ⟨letter, ?_⟩⟩
    have inside : ∀ d ∈ ds, isLineBreak d = false :=
      fun d member => not_isLineBreak_of_hex (digits d member)
    exact List.forall_mem_append.mpr ⟨inside, rest⟩
  induction regular with
  | nil => exact fun _ member => absurd member List.not_mem_nil
  | single _ _ one_line _ ih => exact List.forall_mem_cons.mpr ⟨one_line, ih⟩
  | @simple c _ known _ ih =>
    have letters : (simpleEscapes.all fun c => !isLineBreak c) = true := by decide
    have letter : isLineBreak c = false := by simpa using List.all_eq_true.mp letters c known
    exact List.forall_mem_cons.mpr ⟨rfl, List.forall_mem_cons.mpr ⟨letter, ih⟩⟩
  | short digits _ _ _ ih => exact escaped rfl digits ih
  | unicode digits _ _ ih => exact escaped rfl digits ih
  | long digits _ _ _ ih => exact escaped rfl digits ih

/-! ### Escapes of characters -/

/-- What a literal has for a character. -/
def literalChar (c : Char) : List Char := Text.chars ((Text.encode c).flatMap escapeByte)

theorem flatMap_escapeByte_of_high {t : Text} (high : ∀ b ∈ t, 0x80 ≤ b.toNat) :
    t.flatMap escapeByte = t := by
  induction t with
  | nil => rfl
  | cons b t ih =>
    obtain ⟨here, rest⟩ := List.forall_mem_cons.mp high
    rw [List.flatMap_cons, ih rest]
    rcases escapeByte_cases b with escaped | ⟨itself, -⟩
    · have ascii : ∀ e ∈ escapes, e.1.toNat < 0x80 := by decide
      exact absurd here (Nat.not_le.mpr (ascii _ escaped))
    · rw [itself, List.singleton_append]

/-- **What is written for a character:** the escape of its byte, or the character itself when it has
none. -/
theorem flatMap_escapeByte_cases (c : Char) :
    (∃ e ∈ escapes, (Text.encode c).flatMap escapeByte = e.2) ∨
      ((Text.encode c).flatMap escapeByte = Text.encode c ∧
        ∀ e ∈ escapes, Text.encode c ≠ [e.1]) := by
  by_cases ascii : c.toNat < 0x80
  · have single : Text.encode c = [c.toNat.toUInt8] := if_pos ascii
    rw [single, List.flatMap_singleton]
    rcases escapeByte_cases c.toNat.toUInt8 with escaped | ⟨itself, others⟩
    · exact .inl ⟨_, escaped, rfl⟩
    · exact .inr ⟨itself, fun e member same => others e member (List.cons.inj same).1.symm⟩
  · have high := Text.le_of_mem_encode (Nat.not_lt.mp ascii)
    refine .inr ⟨flatMap_escapeByte_of_high high, fun e member same => ?_⟩
    have low : ∀ e ∈ escapes, e.1.toNat < 0x80 := by decide
    rw [same] at high
    exact absurd (high e.1 List.mem_cons_self) (Nat.not_le.mpr (low e member))

theorem literalChar_of_itself {c : Char}
    (itself : (Text.encode c).flatMap escapeByte = Text.encode c) : literalChar c = [c] := by
  rw [literalChar, itself, ← Text.chars_ofChars [c]]
  exact congrArg Text.chars (List.append_nil _).symm

/-- **A literal escapes characters as it escapes their bytes.** -/
theorem ofChars_literalChar (c : Char) :
    Text.ofChars (literalChar c) = (Text.encode c).flatMap escapeByte := by
  rcases flatMap_escapeByte_cases c with ⟨e, member, escaped⟩ | ⟨itself, -⟩
  · have each : ∀ e ∈ escapes, Text.ofChars (Text.chars e.2) = e.2 := by decide
    rw [literalChar, escaped]
    exact each e member
  · rw [literalChar_of_itself itself, itself]
    exact List.append_nil _

/-- **The literal of a text, character by character.** -/
theorem quote_ofChars (cs : List Char) :
    quote (Text.ofChars cs) = Text.ofChars ('"' :: (cs.flatMap literalChar ++ ['"'])) := by
  have inner : (Text.ofChars cs).flatMap escapeByte = Text.ofChars (cs.flatMap literalChar) := by
    unfold Text.ofChars
    rw [List.flatMap_assoc, List.flatMap_assoc]
    exact congrArg (cs.flatMap ·) (funext fun c => (ofChars_literalChar c).symm)
  have ends := Text.ofChars_append (cs.flatMap literalChar) ['"']
  rw [quote, inner, List.append_assoc]
  exact congrArg (Text.encode '"' ++ ·) ends.symm

theorem chars_quote_ofChars (cs : List Char) :
    Text.chars (quote (Text.ofChars cs)) = '"' :: (cs.flatMap literalChar ++ ['"']) := by
  rw [quote_ofChars, Text.chars_ofChars]

/-! ### Which literals are regular -/

theorem literalChar_of_bare {c : Char} (bare : isBareBreak c = true) : literalChar c = [c] := by
  simp only [isBareBreak, Bool.or_eq_true, beq_iff_eq] at bare
  rcases bare with (rfl | rfl) | rfl <;> rfl

/-- **What a literal has for a character is regular,** unless it is a line break without escape. -/
theorem RegularContent.literalChar {c : Char} (free : isBareBreak c = false) {cs : List Char}
    (rest : RegularContent cs) : RegularContent (literalChar c ++ cs) := by
  rcases flatMap_escapeByte_cases c with ⟨e, member, escaped⟩ | ⟨itself, others⟩
  · have each : ∀ e ∈ escapes, RegularContent (Text.chars e.2 ++ cs) := by
      simp only [escapes, List.forall_mem_cons]
      exact ⟨.simple (by decide) rest, .simple (by decide) rest, .simple (by decide) rest,
        .simple (by decide) rest, .simple (by decide) rest,
        @RegularContent.unicode "007B".toList cs (List.all_eq_true.mp rfl) rfl rest,
        @RegularContent.unicode "007D".toList cs (List.all_eq_true.mp rfl) rfl rest,
        List.forall_mem_nil _⟩
    rw [Code.literalChar, escaped]
    exact each e member
  · simp only [escapes, List.forall_mem_cons] at others
    obtain ⟨backslash, quote, feed, back, -⟩ := others
    have other {d : Char} {b : UInt8} (byte : Text.encode d = [b]) (apart : Text.encode c ≠ [b]) :
        c ≠ d := fun same => apart (same ▸ byte)
    have one_line : isLineBreak c = false := by
      simp only [isBareBreak, Bool.or_eq_false_iff] at free
      simp [isLineBreak, other (d := '\n') rfl feed, other (d := '\r') rfl back, free]
    rw [literalChar_of_itself itself]
    exact .single (other rfl quote) (other rfl backslash) one_line rest

theorem regularContent_flatMap {cs : List Char} (free : ∀ c ∈ cs, isBareBreak c = false) :
    RegularContent (cs.flatMap literalChar) := by
  induction cs with
  | nil => exact .nil
  | cons c cs ih =>
    obtain ⟨here, rest⟩ := List.forall_mem_cons.mp free
    exact (ih rest).literalChar here

/-- **The line breaks in a literal are those that it does not escape.** -/
theorem filter_flatMap_literalChar (cs : List Char) :
    (cs.flatMap literalChar).filter isLineBreak = cs.filter isBareBreak := by
  induction cs with
  | nil => rfl
  | cons c cs ih =>
    rw [List.flatMap_cons, List.filter_append, ih]
    cases bare : isBareBreak c with
    | true =>
      rw [literalChar_of_bare bare, List.filter_cons_of_pos bare,
        List.filter_cons_of_pos (isLineBreak_of_bare bare)]
      rfl
    | false =>
      have regular := RegularContent.nil.literalChar bare
      rw [List.append_nil] at regular
      have none : (literalChar c).filter isLineBreak = [] :=
        List.filter_eq_nil_iff.mpr fun d member => by simp [regular.one_line d member]
      rw [none, List.filter_cons_of_neg (by simp [bare])]
      rfl

theorem filter_chars_quote (cs : List Char) :
    (Text.chars (quote (Text.ofChars cs))).filter isLineBreak = cs.filter isBareBreak := by
  rw [chars_quote_ofChars, List.filter_cons_of_neg (by decide), List.filter_append,
    filter_flatMap_literalChar]
  exact List.append_nil _

/-- **The literal of a text is a regular one just when the text has no line break that the literal
does not escape.** -/
theorem isRegularLiteral_quote_iff (cs : List Char) :
    IsRegularLiteral (Text.chars (quote (Text.ofChars cs))) ↔ ∀ c ∈ cs, isBareBreak c = false := by
  rw [chars_quote_ofChars]
  constructor
  · rintro ⟨content, regular, same⟩
    obtain rfl : cs.flatMap literalChar = content :=
      List.append_cancel_right (List.tail_eq_of_cons_eq same)
    intro c member
    refine Bool.eq_false_iff.mpr fun bare => ?_
    have inside : c ∈ cs.flatMap literalChar :=
      List.mem_flatMap.mpr ⟨c, member, by simp [literalChar_of_bare bare]⟩
    cases (isLineBreak_of_bare bare).symm.trans (regular.one_line c inside)
  · exact fun free => ⟨_, regularContent_flatMap free, rfl⟩

end Code

end Guwen
