/-
**Identifiers collide only where hashes do.**

A name is plain by its characters: a letter, then letters and digits. Stray bytes and characters
beyond ASCII make a name that is hashed. An identifier then has one of three forms, which have no
text in common.

* `Code.IsPlainName` — a plain name; `Code.isPlain_iff_isPlainName` — bytes and characters agree on
  it.
* `Code.fnv1a` — the hash of a name in whole numbers; `Code.toNat_hash` — words compute just that.
* `Code.IdentifierForm` — a plain name that is not reserved, `@` and a reserved word, or `變量_` and
  sixteen digits.
* **`Code.identifier_keeps_apart`** — two names have one identifier just when they are equal, or
  neither is plain and their hashes agree; and every identifier has one of the forms.
-/
import Guwen.Proofs.Code.Identifier
import Guwen.Proofs.Token.Written

namespace Guwen

namespace Code

/-! ### Plain names -/

/-- **A plain name:** its characters are a letter or underscore, then letters, digits and
underscores. -/
def IsPlainName (name : Text) : Prop :=
  ∃ first rest, name.chars = first :: rest ∧ isLetter first = true ∧
    ∀ c ∈ rest, isLetter c = true ∨ isDigit c = true

/-- A byte of ASCII has the class of its character. -/
theorem classes_of_ascii {a : UInt8} (ascii : a.toNat < 0x80) :
    isLetter (Char.ofNat a.toNat) = isLetterByte a ∧
      isDigit (Char.ofNat a.toNat) = isDigitByte a := by
  have each : ∀ n < 0x80, isLetter (Char.ofNat n) = isLetterByte n.toUInt8 ∧
      isDigit (Char.ofNat n) = isDigitByte n.toUInt8 := by decide
  have found := each a.toNat ascii
  rwa [show a.toNat.toUInt8 = a from UInt8.ofNat_toNat] at found

theorem classes_of_high {a : UInt8} (high : 0x80 ≤ a.toNat) :
    isLetterByte a = false ∧ isDigitByte a = false := by
  simp only [isLetterByte, isDigitByte, Bool.or_eq_false_iff, Bool.and_eq_false_iff,
    decide_eq_false_iff_not, beq_eq_false_iff_ne, ne_eq, UInt8.le_iff_toNat_le, ← UInt8.toNat_inj,
    UInt8.toNat_ofNat]
  omega

theorem not_class_of_high {c : Char} (high : 0x80 ≤ c.toNat) :
    ¬ isLetter c = true ∧ ¬ isDigit c = true := by
  constructor
  · intro letter
    have range := Token.range_of_letter letter
    omega
  · intro digit
    have range := Token.range_of_digit digit
    omega

/-- Letters and digits are told from all else byte by byte as character by character. -/
theorem all_classes_iff (t : Text) :
    (∀ c ∈ t.chars, isLetter c = true ∨ isDigit c = true) ↔
      ∀ b ∈ t, isLetterByte b = true ∨ isDigitByte b = true := by
  induction t with
  | nil => exact iff_of_true (fun _ member => nomatch member) fun _ member => nomatch member
  | cons a t ih =>
    rcases Text.chars_cons a t with ⟨ascii, read⟩ | ⟨high, c, cs, read, beyond⟩
    · obtain ⟨letter, digit⟩ := classes_of_ascii ascii
      rw [read, List.forall_mem_cons, List.forall_mem_cons, ih, letter, digit]
    · have byte := classes_of_high high
      have char := not_class_of_high beyond
      rw [read, List.forall_mem_cons, List.forall_mem_cons]
      simp only [byte, char, Bool.false_eq_true, or_self, false_and]

/-- **Bytes and characters agree on which names are plain.** -/
theorem isPlain_iff_isPlainName (name : Text) : isPlain name = true ↔ IsPlainName name := by
  cases name with
  | nil =>
    refine iff_of_false Bool.false_ne_true ?_
    rintro ⟨first, rest, read, -⟩
    cases read
  | cons a t =>
    rw [isPlain_cons, ← all_classes_iff]
    unfold IsPlainName
    rcases Text.chars_cons a t with ⟨ascii, read⟩ | ⟨high, c, cs, read, beyond⟩
    · rw [read, ← (classes_of_ascii ascii).1]
      constructor
      · rintro ⟨letter, others⟩
        exact ⟨_, _, rfl, letter, others⟩
      · rintro ⟨first, rest, same, letter, others⟩
        obtain ⟨rfl, rfl⟩ := List.cons_eq_cons.mp same
        exact ⟨letter, others⟩
    · rw [read, (classes_of_high high).1]
      refine iff_of_false (fun both => Bool.false_ne_true both.1) ?_
      rintro ⟨first, rest, same, letter, -⟩
      obtain ⟨rfl, -⟩ := List.cons_eq_cons.mp same
      exact (not_class_of_high beyond).1 letter

/-! ### Hashes -/

/-- **The FNV-1a hash of 64 bits,** in whole numbers. -/
def fnv1a (name : Text) : Nat :=
  name.foldl (fun h b => (h ^^^ b.toNat) * 1099511628211 % 2 ^ 64) 14695981039346656037

/-- **Words that wrap around compute the hash.** -/
theorem toNat_hash (name : Text) : (hash name).toNat = fnv1a name := by
  have run : ∀ (t : Text) (h : UInt64),
      (t.foldl (fun h b => (h ^^^ b.toUInt64) * 0x100000001b3) h).toNat =
        t.foldl (fun h b => (h ^^^ b.toNat) * 1099511628211 % 2 ^ 64) h.toNat := by
    intro t
    induction t with
    | nil => exact fun h => rfl
    | cons b t ih =>
      intro h
      have step : ((h ^^^ b.toUInt64) * 0x100000001b3).toNat =
          (h.toNat ^^^ b.toNat) * 1099511628211 % 2 ^ 64 := by
        rw [UInt64.toNat_mul, UInt64.toNat_xor, UInt8.toNat_toUInt64]
        rfl
      rw [List.foldl_cons, List.foldl_cons, ih, step]
  exact run name _

theorem hash_eq_iff (a b : Text) : hash a = hash b ↔ fnv1a a = fnv1a b := by
  rw [← toNat_hash, ← toNat_hash, UInt64.toNat_inj]

/-! ### Forms of identifiers -/

/-- A hexadecimal digit in lower case. -/
def isHexDigit (c : Char) : Bool := isDigit c || ('a' ≤ c && c ≤ 'f')

/-- **The three forms of an identifier.** -/
inductive IdentifierForm : Text → Prop where
  | plain {name : Text} (plain : IsPlainName name) (free : isReserved name = false) :
      IdentifierForm name
  | marked {word : String} (reserved : word ∈ reservedWords) : IdentifierForm ("@" ++ word)
  | hashed {digits : List Char} (sixteen : digits.length = 16)
      (hexadecimal : ∀ d ∈ digits, isHexDigit d = true) :
      IdentifierForm ("變量_" ++ Text.ofChars digits)

/-- A number is written in as many digits as asked for. -/
theorem exists_digits_hex (width n : Nat) : ∃ digits, Text.hex width n = Text.ofChars digits ∧
    digits.length = width ∧ ∀ d ∈ digits, isHexDigit d = true := by
  have each : ∀ n < 16, isHexDigit (Nat.digitChar n) = true := by decide
  induction width generalizing n with
  | zero => exact ⟨[], rfl, rfl, fun d member => nomatch member⟩
  | succ width ih =>
    obtain ⟨digits, written, length, all⟩ := ih (n / 16)
    refine ⟨digits ++ [Nat.digitChar (n % 16)], ?_, ?_, ?_⟩
    · rw [Text.hex, written, Text.ofChars, Text.ofChars, Text.ofChars, List.flatMap_append]
    · rw [List.length_append, length, List.length_singleton]
    · refine List.forall_mem_append.mpr ⟨all, fun d member => ?_⟩
      rw [List.mem_singleton.mp member]
      exact each _ (Nat.mod_lt n (by decide))

theorem exists_reserved {name : Text} (reserved : isReserved name = true) :
    ∃ word ∈ reservedWords, name = Text.ofString word := by
  obtain ⟨word, known, same⟩ := List.any_eq_true.mp reserved
  exact ⟨word, known, (eq_of_beq same).symm⟩

/-- **Every identifier has one of the forms.** -/
theorem identifierForm_identifier (name : Text) : IdentifierForm (identifier name) := by
  rcases identifier_cases name with ⟨plain, free, same⟩ | ⟨-, reserved, marked⟩ | ⟨-, hashed⟩
  · rw [same]
    exact .plain ((isPlain_iff_isPlainName name).mp plain) free
  · obtain ⟨word, known, rfl⟩ := exists_reserved reserved
    rw [marked]
    exact .marked known
  · obtain ⟨digits, written, length, all⟩ := exists_digits_hex 16 (hash name).toNat
    rw [hashed, written]
    exact .hashed length all

/-- **Identifiers keep names apart but for their hashes.** Two names, whatever their bytes, have one
identifier just when they are equal, or neither is plain and their hashes agree. Every identifier is
a plain name that is not reserved, a reserved word behind `@`, or sixteen digits behind `變量_`. -/
theorem identifier_keeps_apart (a b : Text) :
    (identifier a = identifier b ↔
      a = b ∨ (¬ IsPlainName a ∧ ¬ IsPlainName b ∧ fnv1a a = fnv1a b)) ∧
    IdentifierForm (identifier a) := by
  refine ⟨?_, identifierForm_identifier a⟩
  rw [identifier_eq_iff, hash_eq_iff, ← isPlain_iff_isPlainName, ← isPlain_iff_isPlainName,
    Bool.not_eq_true, Bool.not_eq_true]

end Code

end Guwen
