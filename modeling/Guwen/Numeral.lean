/-
**Numerals: numbers written in Chinese glyphs.**

A numeral is read glyph by glyph with a pending digit and a running total. A digit becomes the
pending one; a scale (十, 百, 千, 萬) adds the pending digit, or one, that many times over. The total
itself is never scaled, so 二十萬 reads as ten thousand and twenty.

* `Numeral.glyphValue?` is the table of glyphs.
* `Numeral.value?` is the number a list of glyphs stands for, when it stands for one.
-/
import Guwen.Text

namespace Guwen

namespace Numeral

/-- The value of a glyph: a digit below ten, or a scale. -/
def glyphValue? : Char → Option Nat
  | '零' | '〇' => some 0
  | '一' | '壹' => some 1
  | '二' | '貳' | '兩' => some 2
  | '三' | '參' | '叁' => some 3
  | '四' | '肆' => some 4
  | '五' | '伍' => some 5
  | '六' | '陸' => some 6
  | '七' | '柒' => some 7
  | '八' | '捌' => some 8
  | '九' | '玖' => some 9
  | '十' | '拾' => some 10
  | '百' | '佰' => some 100
  | '千' | '仟' => some 1000
  | '萬' => some 10000
  | _ => none

/-- **A numeral half read:** the digit that waits for its scale, and the total so far. -/
structure Reading where
  pending : Nat
  total : Nat
deriving DecidableEq, Repr

namespace Reading

/-- Nothing read yet. -/
def empty : Reading := ⟨0, 0⟩

/-- The reading after a glyph of value `v`. A scale behind no digit, or behind zero,
counts once. -/
def step (r : Reading) (v : Nat) : Reading :=
  if 10 ≤ v then ⟨0, r.total + (if r.pending = 0 then 1 else r.pending) * v⟩
  else ⟨v, r.total⟩

/-- The number read, the last digit counting for itself. -/
def result (r : Reading) : Nat := r.total + r.pending

end Reading

/-- The reading after some more glyphs, unless one of them is no numeral glyph. -/
def read? (r : Reading) : List Char → Option Reading
  | [] => some r
  | c :: cs => match glyphValue? c with
    | some v => read? (r.step v) cs
    | none => none

/-- **The value of a numeral;** the empty list is none. -/
def value? (glyphs : List Char) : Option Nat :=
  if glyphs.isEmpty then none else (read? .empty glyphs).map Reading.result

/-- A list of characters that is a numeral. -/
def isNumeral (glyphs : List Char) : Bool := (value? glyphs).isSome

end Numeral

end Guwen
