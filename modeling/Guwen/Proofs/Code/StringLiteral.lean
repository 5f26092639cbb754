/-
**A string literal says what it was written from.**

A reader of the string literals of C# that knows nothing of how they came about: an opening quote,
then bytes that stand for themselves and escapes, up to the first quote that is not escaped. It
knows every number that can follow `\u`, in digits of either case, and refuses what is no escape.

* `Code.readLiteral?` — what a literal at the front of a text stands for, and what follows it.
* `Code.escapes`, `Code.escapeByte_cases` — the bytes that a literal escapes; all others pass.
* **`Code.readContent?_escapeByte`** — an escaped byte is read as the byte, and reading goes on
  behind it.
* **`Code.quote_reads_back`** — a text written as a literal is read back, whatever follows.
-/
import Guwen.Code.Literal

namespace Guwen

namespace Code

/-! ### Reading a literal -/

/-- The value of a hexadecimal digit, in either case. -/
def hexValue? (b : UInt8) : Option Nat :=
  if 48 ≤ b ∧ b ≤ 57 then some (b.toNat - 48)
  else if 65 ≤ b ∧ b ≤ 70 then some (b.toNat - 55)
  else if 97 ≤ b ∧ b ≤ 102 then some (b.toNat - 87)
  else none

/-- The byte that a backslash and one byte behind it stand for. -/
def shortEscape? (b : UInt8) : Option UInt8 :=
  if b = 0x5C then some 0x5C
  else if b = 0x22 then some 0x22
  else if b = 0x6E then some 0x0A
  else if b = 0x72 then some 0x0D
  else if b = 0x74 then some 0x09
  else none

/-- **Where the reading of a literal stands.** -/
inductive LiteralMode where
  | plain
  /-- Behind a backslash. -/
  | escape
  /-- In the number of a character: `left` more digits follow the next one. -/
  | number (left value : Nat)

/-- The reading of a literal with more at the front of its content. -/
def prepend (front : Text) (reading : Text × Text) : Text × Text :=
  (front ++ reading.1, reading.2)

/-- **The content of a literal that goes on in a mode,** and what follows its closing quote. A
number that is no character, such as half of a surrogate pair, is refused. -/
def readContent? : LiteralMode → Text → Option (Text × Text)
  | _, [] => none
  | .plain, b :: t =>
    if b = 0x22 then some ([], t)
    else if b = 0x5C then readContent? .escape t
    else (readContent? .plain t).map (prepend [b])
  | .escape, b :: t =>
    if b = 0x75 then readContent? (.number 3 0) t
    else match shortEscape? b with
    | some c => (readContent? .plain t).map (prepend [c])
    | none => none
  | .number left value, b :: t =>
    match hexValue? b with
    | none => none
    | some digit => match left with
      | more + 1 => readContent? (.number more (16 * value + digit)) t
      | 0 => match Text.scalar? 0 (16 * value + digit) with
        | some c => (readContent? .plain t).map (prepend (Text.encode c))
        | none => none

/-- **The literal at the front of a text:** what it stands for, and what follows it. -/
def readLiteral? : Text → Option (Text × Text)
  | [] => none
  | b :: t => if b = 0x22 then readContent? .plain t else none

/-! ### Escapes -/

/-- The bytes that a literal escapes, each with what is written for it. -/
def escapes : List (UInt8 × Text) :=
  [(0x5C, "\\\\"), (0x22, "\\\""), (0x0A, "\\n"), (0x0D, "\\r"), (0x09, "\\t"),
   (0x7B, "\\u007B"), (0x7D, "\\u007D")]

/-- **What is written for a byte:** its escape, or the byte itself when it has none. -/
theorem escapeByte_cases (b : UInt8) :
    (b, escapeByte b) ∈ escapes ∨ (escapeByte b = [b] ∧ ∀ e ∈ escapes, e.1 ≠ b) := by
  by_cases escaped : b ∈ escapes.map Prod.fst
  · obtain ⟨e, member, rfl⟩ := List.mem_map.mp escaped
    have each : ∀ e ∈ escapes, (e.1, escapeByte e.1) ∈ escapes := by decide
    exact .inl (each e member)
  · have others : ∀ e ∈ escapes, e.1 ≠ b := by
      intro e member same
      exact escaped (same ▸ List.mem_map_of_mem member)
    refine .inr ⟨?_, others⟩
    simp only [escapes, List.forall_mem_cons] at others
    obtain ⟨backslash, quote, feed, back, tab, opening, closing, -⟩ := others
    unfold escapeByte
    rw [if_neg backslash.symm, if_neg quote.symm, if_neg feed.symm, if_neg back.symm,
      if_neg tab.symm, if_neg opening.symm, if_neg closing.symm]

/-- No escape holds a brace, a line feed, a carriage return or a tab. -/
theorem not_mem_escapeByte {b c : UInt8} (member : c ∈ escapeByte b) :
    c ≠ 0x7B ∧ c ≠ 0x7D ∧ c ≠ 0x0A ∧ c ≠ 0x0D ∧ c ≠ 0x09 := by
  rcases escapeByte_cases b with escaped | ⟨itself, others⟩
  · have each : ∀ e ∈ escapes, e.2.all (fun c =>
        decide (c ≠ 0x7B ∧ c ≠ 0x7D ∧ c ≠ 0x0A ∧ c ≠ 0x0D ∧ c ≠ 0x09)) = true := by decide
    exact of_decide_eq_true (List.all_eq_true.mp (each _ escaped) c member)
  · rw [itself, List.mem_singleton] at member
    subst member
    simp only [escapes, List.forall_mem_cons] at others
    obtain ⟨-, -, feed, back, tab, opening, closing, -⟩ := others
    exact ⟨opening.symm, closing.symm, feed.symm, back.symm, tab.symm⟩

theorem quote_append (s rest : Text) :
    quote s ++ rest = 0x22 :: (s.flatMap escapeByte ++ 0x22 :: rest) := by
  simp only [quote, List.append_assoc]
  rfl

/-! ### Reading what was written -/

/-- **An escaped byte is read as the byte,** and reading goes on behind it. -/
theorem readContent?_escapeByte (b : UInt8) (t : Text) :
    readContent? .plain (escapeByte b ++ t) = (readContent? .plain t).map (prepend [b]) := by
  rcases escapeByte_cases b with escaped | ⟨itself, others⟩
  · have each : ∀ e ∈ escapes,
        readContent? .plain (e.2 ++ t) = (readContent? .plain t).map (prepend [e.1]) := by
      simp only [escapes, List.forall_mem_cons]
      exact ⟨rfl, rfl, rfl, rfl, rfl, rfl, rfl, nofun⟩
    exact each _ escaped
  · simp only [escapes, List.forall_mem_cons] at others
    obtain ⟨backslash, quote, -⟩ := others
    rw [itself, List.singleton_append, readContent?, if_neg quote.symm, if_neg backslash.symm]

/-- **The content of a literal is read up to its closing quote.** -/
theorem readContent?_escaped (s rest : Text) :
    readContent? .plain (s.flatMap escapeByte ++ 0x22 :: rest) = some (s, rest) := by
  induction s with
  | nil => rfl
  | cons b s ih =>
    rw [List.flatMap_cons, List.append_assoc, readContent?_escapeByte, ih]
    rfl

/-- **A text written as a literal is read back,** whatever follows the literal, and the literal
holds neither a brace nor a line feed, a carriage return or a tab. -/
theorem quote_reads_back (s rest : Text) :
    readLiteral? (quote s ++ rest) = some (s, rest) ∧
      ∀ b ∈ quote s, b ≠ 0x7B ∧ b ≠ 0x7D ∧ b ≠ 0x0A ∧ b ≠ 0x0D ∧ b ≠ 0x09 := by
  constructor
  · rw [quote_append, readLiteral?, if_pos rfl, readContent?_escaped]
  · intro b member
    rw [quote, List.mem_append, List.mem_append, List.mem_flatMap] at member
    rcases member with (first | ⟨a, -, inside⟩) | last
    · rw [List.mem_singleton.mp first]
      decide
    · exact not_mem_escapeByte inside
    · rw [List.mem_singleton.mp last]
      decide

end Code

end Guwen
