/-
**Identifiers keep names apart, and read as one word.**

* **`Code.identifier_eq_iff`** — two names have one identifier just when they are equal, or both are
  hashed and their hashes agree.
* `Code.head_identifier`, `Code.mem_identifier` — an identifier is a word: letters, digits and the
  like, and no digit at its head.
* `Code.isReserved_identifier`, `Code.not_digit_identifier` — an identifier is neither a reserved
  word nor a number.
-/
import Guwen.Code.Identifier
import Guwen.Proofs.Text.Encoding
import Mathlib.Algebra.Group.Nat.Defs

namespace Guwen

namespace Code

/-- A byte that a word of C# can hold: a letter, a digit, `_`, `@`, or a part of a character beyond
ASCII. -/
def isWordByte (b : UInt8) : Bool := isLetterByte b || isDigitByte b || b == 64 || 128 ≤ b

/-! ### Hexadecimal digits -/

theorem digitChar_eq_iff {a b : Nat} (a_lt : a < 16) (b_lt : b < 16) :
    Text.ofChars [Nat.digitChar a] = Text.ofChars [Nat.digitChar b] ↔ a = b := by
  have all : ∀ a < 16, ∀ b < 16,
      Text.ofChars [Nat.digitChar a] = Text.ofChars [Nat.digitChar b] ↔ a = b := by decide
  exact all a a_lt b b_lt

theorem length_digitChar {a : Nat} (a_lt : a < 16) :
    (Text.ofChars [Nat.digitChar a]).length = 1 := by
  have all : ∀ a < 16, (Text.ofChars [Nat.digitChar a]).length = 1 := by decide
  exact all a a_lt

theorem length_hex (width n : Nat) : (Text.hex width n).length = width := by
  induction width generalizing n with
  | zero => rfl
  | succ width ih =>
    rw [Text.hex, List.length_append, ih, length_digitChar (Nat.mod_lt _ (by decide))]

/-- The digits of small enough numbers tell them apart. -/
theorem hex_inj {width n m : Nat} (n_lt : n < 16 ^ width) (m_lt : m < 16 ^ width)
    (same : Text.hex width n = Text.hex width m) : n = m := by
  induction width generalizing n m with
  | zero =>
    rw [Nat.pow_zero] at n_lt m_lt
    omega
  | succ width ih =>
    rw [Text.hex, Text.hex] at same
    obtain ⟨high, low⟩ := List.append_inj same (by rw [length_hex, length_hex])
    have rest : n % 16 = m % 16 :=
      (digitChar_eq_iff (Nat.mod_lt _ (by decide)) (Nat.mod_lt _ (by decide))).mp low
    have quotient : n / 16 = m / 16 :=
      ih (Nat.div_lt_of_lt_mul (by rwa [Nat.pow_succ, Nat.mul_comm] at n_lt))
        (Nat.div_lt_of_lt_mul (by rwa [Nat.pow_succ, Nat.mul_comm] at m_lt)) high
    omega

theorem mem_hex {width n : Nat} {b : UInt8} (member : b ∈ Text.hex width n) :
    isWordByte b = true := by
  have digits : ∀ a < 16, (Text.ofChars [Nat.digitChar a]).all isWordByte = true := by decide
  induction width generalizing n with
  | zero => cases member
  | succ width ih =>
    rw [Text.hex, List.mem_append] at member
    rcases member with high | low
    · exact ih high
    · exact List.all_eq_true.mp (digits _ (Nat.mod_lt _ (by decide))) b low

/-! ### Identifiers -/

/-- What an identifier can be. -/
theorem identifier_cases (name : Text) :
    (isPlain name = true ∧ isReserved name = false ∧ identifier name = name) ∨
    (isPlain name = true ∧ isReserved name = true ∧ identifier name = 64 :: name) ∨
    (isPlain name = false ∧ identifier name = hashPrefix ++ Text.hex 16 (hash name).toNat) := by
  unfold identifier
  cases plain : isPlain name with
  | false => exact .inr (.inr ⟨rfl, rfl⟩)
  | true =>
    cases reserved : isReserved name with
    | false => exact .inl ⟨rfl, rfl, rfl⟩
    | true => exact .inr (.inl ⟨rfl, rfl, rfl⟩)

theorem isPlain_cons {b : UInt8} {t : Text} : isPlain (b :: t) = true ↔
    isLetterByte b = true ∧ ∀ c ∈ t, isLetterByte c = true ∨ isDigitByte c = true := by
  simp [isPlain]

/-- **An identifier has a head,** which tells how it was made: a letter, `@`, or the first byte
before a hash. -/
theorem head_identifier (name : Text) : ∃ b t, identifier name = b :: t ∧
    ((isPlain name = true ∧ isReserved name = false ∧ isLetterByte b = true) ∨
      (isPlain name = true ∧ isReserved name = true ∧ b = 64) ∨
      (isPlain name = false ∧ b = 232)) := by
  rcases identifier_cases name with
    ⟨plain, free, same⟩ | ⟨plain, reserved, marked⟩ | ⟨other, hashed⟩
  · cases name with
    | nil => cases plain
    | cons b t => exact ⟨b, t, same, .inl ⟨plain, free, (isPlain_cons.mp plain).1⟩⟩
  · exact ⟨64, name, marked, .inr (.inl ⟨plain, reserved, rfl⟩)⟩
  · exact ⟨232, _, hashed, .inr (.inr ⟨other, rfl⟩)⟩

theorem hash_eq_of_hex {a b : Text}
    (same : Text.hex 16 (hash a).toNat = Text.hex 16 (hash b).toNat) : hash a = hash b :=
  UInt64.toNat_inj.mp (hex_inj (hash a).toNat_lt (hash b).toNat_lt same)

/-- Names with one identifier are written in one way. -/
theorem form_eq_of_identifier_eq {a b : Text} (same : identifier a = identifier b) :
    isPlain a = isPlain b ∧ (isPlain a = true → isReserved a = isReserved b) := by
  obtain ⟨x, t, first, form⟩ := head_identifier a
  obtain ⟨y, u, second, form'⟩ := head_identifier b
  have heads : x = y := by
    rw [first, second] at same
    exact List.head_eq_of_cons_eq same
  subst heads
  have apart : isLetterByte 64 = false ∧ isLetterByte 232 = false ∧ (64 : UInt8) ≠ 232 := by decide
  rcases form with ⟨plain, free, letter⟩ | ⟨plain, reserved, rfl⟩ | ⟨other, rfl⟩ <;>
  rcases form' with ⟨plain', free', letter'⟩ | ⟨plain', reserved', at'⟩ | ⟨other', at'⟩ <;>
  simp_all

/-- **Two names have one identifier just when they are equal, or both are hashed and their hashes
agree.** -/
theorem identifier_eq_iff (a b : Text) : identifier a = identifier b ↔
    a = b ∨ (isPlain a = false ∧ isPlain b = false ∧ hash a = hash b) := by
  constructor
  · intro same
    obtain ⟨plain, reserved⟩ := form_eq_of_identifier_eq same
    cases form : isPlain b with
    | false =>
      rw [form] at plain
      simp only [identifier, plain, form] at same
      exact .inr ⟨plain, rfl, hash_eq_of_hex (List.append_cancel_left same)⟩
    | true =>
      rw [form] at plain
      have kept := reserved plain
      simp only [identifier, plain, form, kept] at same
      cases marked : isReserved b with
      | false => exact .inl (by simpa [marked] using same)
      | true => exact .inl (by simpa [marked] using same)
  · rintro (rfl | ⟨first, second, same⟩)
    · rfl
    · simp [identifier, first, second, same]

/-! ### Identifiers as words -/

theorem isWordByte_of_letter {b : UInt8} (letter : isLetterByte b = true) :
    isWordByte b = true := by
  simp [isWordByte, letter]

theorem isWordByte_of_digit {b : UInt8} (digit : isDigitByte b = true) : isWordByte b = true := by
  simp [isWordByte, digit]

theorem mem_of_isPlain {name : Text} (plain : isPlain name = true) :
    ∀ b ∈ name, isWordByte b = true := by
  cases name with
  | nil => cases plain
  | cons first rest =>
    obtain ⟨letter, others⟩ := isPlain_cons.mp plain
    intro b member
    rcases List.mem_cons.mp member with rfl | later
    · exact isWordByte_of_letter letter
    · exact (others b later).elim isWordByte_of_letter isWordByte_of_digit

/-- **All bytes of an identifier belong to one word.** -/
theorem mem_identifier {name : Text} {b : UInt8} (member : b ∈ identifier name) :
    isWordByte b = true := by
  rcases identifier_cases name with ⟨plain, -, same⟩ | ⟨plain, -, marked⟩ | ⟨-, hashed⟩
  · rw [same] at member
    exact mem_of_isPlain plain b member
  · rw [marked] at member
    rcases List.mem_cons.mp member with rfl | later
    · decide
    · exact mem_of_isPlain plain b later
  · have start : hashPrefix.all isWordByte = true := by decide
    rw [hashed, List.mem_append] at member
    exact member.elim (List.all_eq_true.mp start b) mem_hex

/-- A reserved word starts with a letter. -/
theorem isReserved_cons {b : UInt8} {t : Text} (other : isLetterByte b = false) :
    isReserved (b :: t) = false := by
  have heads : ∀ word ∈ reservedWords, (Text.ofString word).head?.all isLetterByte = true := by
    decide
  unfold isReserved
  rw [List.any_eq_false]
  intro word known same
  have letter := heads word known
  rw [eq_of_beq same] at letter
  cases other.symm.trans letter

/-- **An identifier is no reserved word.** -/
theorem isReserved_identifier (name : Text) : isReserved (identifier name) = false := by
  rcases identifier_cases name with ⟨-, free, same⟩ | ⟨-, -, marked⟩ | ⟨-, hashed⟩
  · rw [same, free]
  · rw [marked]
    exact isReserved_cons (by decide)
  · rw [hashed]
    exact isReserved_cons (by decide)

theorem identifier_ne_new (name : Text) : identifier name ≠ ("new" : Text) := by
  intro same
  have free := isReserved_identifier name
  rw [same] at free
  revert free
  decide

/-- **An identifier is no number.** -/
theorem not_digit_identifier (name : Text) :
    (identifier name).head?.any isDigitByte = false := by
  obtain ⟨b, t, same, ⟨-, -, letter⟩ | ⟨-, -, rfl⟩ | ⟨-, rfl⟩⟩ := head_identifier name
  · rw [same, List.head?_cons, Option.any_some]
    simp only [isLetterByte, isDigitByte, Bool.or_eq_true, Bool.and_eq_true, decide_eq_true_eq,
      beq_iff_eq, UInt8.le_iff_toNat_le, ← UInt8.toNat_inj, UInt8.toNat_ofNat] at letter ⊢
    simp only [Bool.and_eq_false_imp, decide_eq_true_eq, decide_eq_false_iff_not]
    omega
  · rw [same]
    rfl
  · rw [same]
    rfl

end Code

end Guwen
