/-
**What C# makes of the arithmetic in an expression.**

A literal without a point is an integer, one with a point a double. An operator between two integers
gives an integer, and its quotient is cut off towards zero; any other operator works on doubles.
Integers have no bound here, and doubles are exact.

* `Operator.onNumbers?` — an operator between two numbers, by their types.
* `Code.value?` — the value of a text, computed from left to right by a calculator that knows
  parentheses and that `*` and `/` bind tighter than `+` and `-`.
* `Expr.Computes` — the value of a tree of numbers, node by node.
* **`Expr.Computes.hasValue_code`** — C# gives the code of such a tree the value of the tree.
-/
import Guwen.Proofs.Code.Expression
import Mathlib.Data.Rat.Cast.Order

namespace Guwen

namespace Code

/-- **A number as C# holds it.** -/
inductive Number where
  | integer (n : Int)
  | double (q : ℚ)
deriving DecidableEq, Repr

/-- The rational number that a number is. -/
def Number.toRat : Number → ℚ
  | .integer n => n
  | .double q => q

end Code

/-! ### Operators -/

namespace Operator

open Code (Number)

/-- **An operator between two values,** with the quotient that they have; there is none by zero. -/
def evaluate? {α : Type} [Add α] [Sub α] [Mul α] [Zero α] [DecidableEq α] (quotient : α → α → α) :
    Operator → α → α → Option α
  | add, a, b => some (a + b)
  | sub, a, b => some (a - b)
  | mul, a, b => some (a * b)
  | div, a, b => if b = 0 then none else some (quotient a b)
  | _, _, _ => none

/-- The operator between rational numbers. -/
def onRationals? (op : Operator) (a b : ℚ) : Option ℚ := op.evaluate? (· / ·) a b

/-- **The operator between numbers of C#.** A quotient of integers is cut off towards zero. -/
def onNumbers? (op : Operator) : Number → Number → Option Number
  | .integer a, .integer b => (op.evaluate? Int.tdiv a b).map .integer
  | a, b => (op.onRationals? a.toRat b.toRat).map .double

/-- 乘 or 除. -/
def IsProduct (op : Operator) : Prop := op = mul ∨ op = div

/-- 加 or 減. -/
def IsSum (op : Operator) : Prop := op = add ∨ op = sub

/-- One of the four operators of arithmetic. -/
def IsArithmetic (op : Operator) : Prop := op.IsProduct ∨ op.IsSum

instance (op : Operator) : Decidable op.IsProduct := inferInstanceAs (Decidable (_ ∨ _))

instance (op : Operator) : Decidable op.IsSum := inferInstanceAs (Decidable (_ ∨ _))

instance (op : Operator) : Decidable op.IsArithmetic := inferInstanceAs (Decidable (_ ∨ _))

/-- What waits for its right operand joined with it, by the meaning that operators have. -/
def join? {α : Type} (apply : Operator → α → α → Option α) (waiting : Option (α × Operator))
    (right : α) : Option α :=
  match waiting with
  | none => some right
  | some (left, op) => apply op left right

/-- Only a division by zero has no value. -/
theorem isSome_evaluate? {α : Type} [Add α] [Sub α] [Mul α] [Zero α] [DecidableEq α]
    (quotient : α → α → α) (op : Operator) (a b : α) :
    (op.evaluate? quotient a b).isSome = true ↔ op.IsArithmetic ∧ (op = div → b ≠ 0) := by
  cases op with
  | add | sub | mul => simp [evaluate?, IsArithmetic, IsProduct, IsSum]
  | div =>
    by_cases zero : b = 0
    · simp [evaluate?, zero]
    · simp [evaluate?, zero, IsArithmetic, IsProduct]
  | gt | lt | eq | other => simp [evaluate?, IsArithmetic, IsProduct, IsSum]

theorem isSome_onNumbers? (op : Operator) (a b : Number) :
    (op.onNumbers? a b).isSome = true ↔ op.IsArithmetic ∧ (op = div → b.toRat ≠ 0) := by
  unfold onNumbers?
  split
  · rw [Option.isSome_map, isSome_evaluate?, Number.toRat, Int.cast_ne_zero]
  · rw [Option.isSome_map, onRationals?, isSome_evaluate?]

end Operator

namespace Code

/-! ### Literals -/

/-- The whole number that digits stand for. -/
def digitsValue (digits : Text) : Nat := digits.foldl (fun n b => 10 * n + (b.toNat - 48)) 0

/-- The number that digits with a point between them stand for. -/
def decimalValue (whole part : Text) : ℚ := digitsValue whole + digitsValue part / 10 ^ part.length

/-- **The text is a literal of the number.** -/
inductive Denotes : Text → Number → Prop where
  | integer {t : Text} (digits : IsDigits t) : Denotes t (.integer (digitsValue t))
  | double {whole part : Text} (before : IsDigits whole) (behind : IsDigits part) :
      Denotes (whole ++ 46 :: part) (.double (decimalValue whole part))

instance (t : Text) : Decidable (IsDigits t) :=
  inferInstanceAs (Decidable (t ≠ [] ∧ ∀ b ∈ t, isDigitByte b = true))

/-! ### The calculator -/

/-- **What waits inside one pair of parentheses:** a sum, and behind it a product. -/
structure Level where
  sum : Option (Number × Operator)
  product : Option (Number × Operator)

namespace Level

/-- Nothing waits. -/
def empty : Level := ⟨none, none⟩

/-- The product, when `n` is its last factor. -/
def product? (level : Level) (n : Number) : Option Number :=
  Operator.join? Operator.onNumbers? level.product n

/-- **The value of all that waits,** when `n` is the last operand. -/
def total? (level : Level) (n : Number) : Option Number :=
  (level.product? n).bind (Operator.join? Operator.onNumbers? level.sum)

/-- **What waits behind `n` and an operator.** `*` and `/` take up the product only. -/
def push? (level : Level) (n : Number) (op : Operator) : Option Level :=
  if op.IsProduct then (level.product? n).map fun product => ⟨level.sum, some (product, op)⟩
  else (level.total? n).map fun sum => ⟨some (sum, op), none⟩

/-- One operator between two operands. -/
theorem exists_push?_empty (a : Number) (op : Operator) :
    ∃ level, empty.push? a op = some level ∧ ∀ b, level.total? b = op.onNumbers? a b := by
  by_cases first : op.IsProduct
  · refine ⟨⟨none, some (a, op)⟩, by rw [push?, if_pos first]; rfl, fun b => ?_⟩
    show (op.onNumbers? a b).bind some = op.onNumbers? a b
    rw [Option.bind_fun_some]
  · exact ⟨⟨some (a, op), none⟩, by rw [push?, if_neg first]; rfl, fun _ => rfl⟩

end Level

/-- **An expression half computed:** the innermost open parentheses, those around them, and the
operand read last, if no operator stands behind it yet. -/
structure Calculation where
  level : Level
  outer : List Level
  operand : Option Number

namespace Calculation

/-- Nothing read. -/
def start : Calculation := ⟨.empty, [], none⟩

/-- The calculation with a number read, where an operand may stand. -/
def read? (c : Calculation) (n : Number) : Option Calculation :=
  match c.operand with
  | none => some { c with operand := some n }
  | some _ => none

/-- An opening parenthesis, where an operand may stand. -/
def open? (c : Calculation) : Option Calculation :=
  match c.operand with
  | none => some ⟨.empty, c.level :: c.outer, none⟩
  | some _ => none

/-- A closing parenthesis behind an operand. -/
def close? (c : Calculation) : Option Calculation :=
  match c.operand, c.outer with
  | some n, level :: outer => (c.level.total? n).map fun total => ⟨level, outer, some total⟩
  | _, _ => none

/-- An operator behind an operand. -/
def operator? (c : Calculation) (op : Operator) : Option Calculation :=
  match c.operand with
  | some n => (c.level.push? n op).map fun level => ⟨level, c.outer, none⟩
  | none => none

/-- The calculation behind a mark: `(`, `)`, `+`, `-`, `*` or `/`. -/
def mark? (c : Calculation) (b : UInt8) : Option Calculation :=
  if b = 40 then c.open?
  else if b = 41 then c.close?
  else if b = 43 then c.operator? .add
  else if b = 45 then c.operator? .sub
  else if b = 42 then c.operator? .mul
  else if b = 47 then c.operator? .div
  else none

/-- The result, when all parentheses are closed. -/
def result? (c : Calculation) : Option Number :=
  match c.operand, c.outer with
  | some n, [] => c.level.total? n
  | _, _ => none

/-- **The pieces of an expression computed,** one after another. -/
def run? (c : Calculation) : List Piece → Option Number
  | [] => c.result?
  | .word whole :: .mark 46 :: .word part :: rest =>
    if IsDigits whole ∧ IsDigits part then
      (c.read? (.double (decimalValue whole part))).bind (run? · rest)
    else none
  | .word t :: rest =>
    if IsDigits t then (c.read? (.integer (digitsValue t))).bind (run? · rest) else none
  | .mark b :: rest => (c.mark? b).bind (run? · rest)
  | .literal :: _ => none

end Calculation

/-- **The value of a text as an expression of C#.** -/
def value? (text : Text) : Option Number := Calculation.start.run? (lex text)

/-! ### Texts with a value -/

namespace Calculation

variable {c : Calculation}

theorem read?_of_due (due : c.operand = none) (n : Number) :
    c.read? n = some { c with operand := some n } := by
  rw [read?, due]

end Calculation

/-- The pieces are computed as the operand `n`, wherever an operand may stand. -/
def Amounts (ps : List Piece) (n : Number) : Prop :=
  ∀ (c : Calculation) (after : List Piece), c.operand = none → after.head? ≠ some (.mark 46) →
    c.run? (ps ++ after) = { c with operand := some n }.run? after

theorem amounts_integer {t : Text} (digits : IsDigits t) :
    Amounts [.word t] (.integer (digitsValue t)) := by
  intro c after due no_point
  rw [List.singleton_append, Calculation.run?, if_pos digits, Calculation.read?_of_due due]
  · rfl
  · rintro part rest rfl
    exact no_point rfl

theorem amounts_double {whole part : Text} (before : IsDigits whole) (behind : IsDigits part) :
    Amounts [.word whole, .mark 46, .word part] (.double (decimalValue whole part)) := by
  intro c after due _
  show c.run? (.word whole :: .mark 46 :: .word part :: after) = _
  rw [Calculation.run?, if_pos ⟨before, behind⟩, Calculation.read?_of_due due]
  rfl

/-- The mark of an operator, as C# writes it. -/
theorem exists_mark {op : Operator} (arithmetic : op.IsArithmetic) :
    ∃ b, op.sign = [b] ∧ b ≠ 46 ∧ Sealed [b] [.mark b] ∧
      ∀ c : Calculation, c.mark? b = c.operator? op := by
  rcases arithmetic with (rfl | rfl) | rfl | rfl
  · exact ⟨42, rfl, by decide, fun _ => rfl, fun _ => rfl⟩
  · exact ⟨47, rfl, by decide, fun _ => rfl, fun _ => rfl⟩
  · exact ⟨43, rfl, by decide, fun _ => rfl, fun _ => rfl⟩
  · exact ⟨45, rfl, by decide, fun _ => rfl, fun _ => rfl⟩

/-- **An operator between two operands, in parentheses, is an operand again.** -/
theorem Amounts.join {ls rs : List Piece} {a b n : Number} {op : Operator} {m : UInt8}
    (left : Amounts ls a) (right : Amounts rs b) (applied : op.onNumbers? a b = some n)
    (other : m ≠ 46) (mark : ∀ c : Calculation, c.mark? m = c.operator? op) :
    Amounts (.mark 40 :: (ls ++ .mark m :: (rs ++ [.mark 41]))) n := by
  intro c after due _
  obtain ⟨level, pushed, total⟩ := Level.exists_push?_empty a op
  have opened : c.mark? 40 = some ⟨.empty, c.level :: c.outer, none⟩ := by
    show c.open? = _
    rw [Calculation.open?, due]
  have joined : (⟨.empty, c.level :: c.outer, some a⟩ : Calculation).mark? m =
      some ⟨level, c.level :: c.outer, none⟩ := by
    rw [mark]
    show (Level.empty.push? a op).map _ = _
    rw [pushed]
    rfl
  have closed : (⟨level, c.level :: c.outer, some b⟩ : Calculation).mark? 41 =
      some { c with operand := some n } := by
    show (level.total? b).map _ = _
    rw [total, applied]
    rfl
  calc c.run? (.mark 40 :: (ls ++ .mark m :: (rs ++ [.mark 41])) ++ after)
      = (⟨.empty, c.level :: c.outer, none⟩ : Calculation).run?
          (ls ++ .mark m :: (rs ++ .mark 41 :: after)) := by
        rw [List.cons_append, Calculation.run?, opened]
        simp only [List.append_assoc, List.cons_append, List.nil_append, Option.bind_some]
    _ = (⟨level, c.level :: c.outer, none⟩ : Calculation).run? (rs ++ .mark 41 :: after) := by
        rw [left _ _ rfl (by simpa using other), Calculation.run?, joined]
        rfl
    _ = ({ c with operand := some n } : Calculation).run? after := by
        rw [right _ _ rfl (by simp), Calculation.run?, closed]
        rfl

/-- **The text is cut into pieces that are computed as `n`.** -/
def HasValue (text : Text) (n : Number) : Prop := ∃ ps, Lexes text ps ∧ Amounts ps n

theorem HasValue.value? {text : Text} {n : Number} (has : HasValue text n) :
    value? text = some n := by
  obtain ⟨ps, cut, amounts⟩ := has
  have done := amounts .start [] rfl (by simp)
  rw [List.append_nil] at done
  rw [Code.value?, cut.lex_eq, done]
  rfl

theorem Denotes.hasValue {text : Text} {n : Number} (denotes : Denotes text n) :
    HasValue text n := by
  cases denotes with
  | integer digits => exact ⟨_, digits.lexes, amounts_integer digits⟩
  | double before behind => exact ⟨_, before.lexes_decimal behind, amounts_double before behind⟩

theorem HasValue.join {left right : Text} {a b n : Number} {op : Operator}
    (first : HasValue left a) (second : HasValue right b)
    (applied : op.onNumbers? a b = some n) :
    HasValue ("(" ++ left ++ " " ++ op.sign ++ " " ++ right ++ ")") n := by
  obtain ⟨ls, leftCut, leftAmounts⟩ := first
  obtain ⟨rs, rightCut, rightAmounts⟩ := second
  have arithmetic := ((Operator.isSome_onNumbers? op a b).mp (by rw [applied]; rfl)).1
  obtain ⟨m, sign, other, cut, mark⟩ := exists_mark arithmetic
  have opening : Sealed "(" [.mark 40] := fun _ => rfl
  have closing : Sealed ")" [.mark 41] := fun _ => rfl
  have blank : Sealed " " [] := fun _ => rfl
  have behind := blank.append (cut.append
    (blank.append (rightCut.append closing.lexes (apart_cons rfl))))
  have whole := opening.append (leftCut.append behind (apart_cons rfl))
  refine ⟨_, ?_, leftAmounts.join rightAmounts applied other mark⟩
  rw [sign]
  simpa only [List.append_assoc, List.cons_append, List.nil_append] using whole

end Code

/-! ### Trees of numbers -/

open Code

/-- **The tree has the value,** each operator between the values of its operands. -/
inductive Expr.Computes : Expr → Number → Prop where
  | literal {start : Token} {text : Text} {n : Number} (denotes : Denotes text n) :
      Expr.Computes (.literal start .number text) n
  | binary {token : Token} {op : Operator} {left right : Expr} {a b n : Number}
      (first : Expr.Computes left a) (second : Expr.Computes right b)
      (applied : op.onNumbers? a b = some n) : Expr.Computes (.binary token op left right) n

namespace Expr.Computes

variable {e : Expr} {n : Number}

/-- **C# gives the code of a tree of numbers the value of the tree.** -/
theorem hasValue_code (computes : e.Computes n) :
    ∃ text, e.code = .ok text ∧ HasValue text n := by
  induction computes with
  | literal denotes => exact ⟨_, rfl, denotes.hasValue⟩
  | @binary token op left right a b n _ _ applied first second =>
    obtain ⟨leftText, leftWritten, leftValue⟩ := first
    obtain ⟨rightText, rightWritten, rightValue⟩ := second
    refine ⟨_, ?_, leftValue.join rightValue applied⟩
    rw [Expr.code, leftWritten, rightWritten]
    rfl

/-- There is no name in it to resolve. -/
theorem resolve_eq (computes : e.Computes n) (scope : Scope) : e.resolve scope = (e, none) := by
  induction computes with
  | literal => rfl
  | binary _ _ _ first second => rw [Expr.resolve, first, second]

end Expr.Computes

end Guwen
