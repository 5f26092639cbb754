/-
**The values of flags: whole numbers and switches, read from text.**

A number may have a sign, a base (`0x`, `0o`, `0b`, or a leading zero for base eight) and
underscores between its digits; it has to fit into 64 bits. A switch is written as one of a dozen
words.
-/
import Guwen.Text

namespace Guwen

namespace FlagValue

/-- **Why a text is no value.** -/
inductive Flaw where
  | malformed
  | outOfRange
deriving DecidableEq, Repr

/-- The wording of the flaw. -/
def Flaw.text : Flaw → Text
  | malformed => "invalid syntax"
  | outOfRange => "value out of range"

/-! ### Numbers -/

/-- The least number that 64 bits without a sign do not hold. -/
def unsignedLimit : Nat := 0x10000000000000000

/-- The least number that 64 bits with a sign do not hold. -/
def signedLimit : Nat := 0x8000000000000000

/-- The value of a digit in any base up to 36. -/
def digit? (b : UInt8) : Option Nat :=
  if 0x30 ≤ b ∧ b ≤ 0x39 then some (b.toNat - 0x30)
  else if 0x61 ≤ b ∧ b ≤ 0x7A then some (b.toNat - 0x61 + 10)
  else if 0x41 ≤ b ∧ b ≤ 0x5A then some (b.toNat - 0x41 + 10)
  else none

/-- The base of an unsigned number, and what follows its mark. A mark needs a digit behind it. -/
def base (t : Text) : Nat × Text :=
  match t with
  | 0x30 :: mark :: d :: rest =>
    if mark = 0x62 ∨ mark = 0x42 then (2, d :: rest)
    else if mark = 0x6F ∨ mark = 0x4F then (8, d :: rest)
    else if mark = 0x78 ∨ mark = 0x58 then (16, d :: rest)
    else (8, mark :: d :: rest)
  | 0x30 :: rest => (8, rest)
  | t => (10, t)

/-- The digits of a number in a base, after `n` has been read; underscores are passed over. -/
def digits (base n : Nat) : Text → Except Flaw Nat
  | [] => .ok n
  | b :: rest =>
    if b = 0x5F then digits base n rest
    else match digit? b with
    | none => .error .malformed
    | some d =>
      if base ≤ d then .error .malformed
      else if unsignedLimit ≤ n * base + d then .error .outOfRange
      else digits base (n * base + d) rest

/-- Every underscore stands between two digits; `afterDigit` says that one comes before. -/
def underscoresFit (afterDigit : Bool) : Text → Bool
  | [] => true
  | [b] => b != 0x5F
  | b :: rest => if b = 0x5F then afterDigit && rest.head? != some 0x5F && underscoresFit false rest
    else underscoresFit true rest

/-- An unsigned number. -/
def magnitude (t : Text) : Except Flaw Nat :=
  if t.isEmpty then .error .malformed
  else do
    let (b, rest) := base t
    let n ← digits b 0 rest
    if underscoresFit (rest.length < t.length) rest then return n else .error .malformed

/-- **A whole number of 64 bits.** -/
def integer (t : Text) : Except Flaw Int := do
  match t with
  | 0x2D :: rest =>
    let n ← magnitude rest
    if signedLimit < n then .error .outOfRange else return -(n : Int)
  | 0x2B :: rest =>
    let n ← magnitude rest
    if signedLimit ≤ n then .error .outOfRange else return n
  | t =>
    let n ← magnitude t
    if signedLimit ≤ n then .error .outOfRange else return n

/-! ### Switches -/

/-- The words for on. -/
def onWords : List String := ["1", "t", "T", "true", "TRUE", "True"]

/-- The words for off. -/
def offWords : List String := ["0", "f", "F", "false", "FALSE", "False"]

/-- **A switch.** -/
def switch (t : Text) : Except Flaw Bool :=
  if onWords.any fun word => Text.ofString word == t then .ok true
  else if offWords.any fun word => Text.ofString word == t then .ok false
  else .error .malformed

end FlagValue

end Guwen
