/-
**Sizes of files, in words.**

Below 1024 bytes the number of bytes; above, kilobytes and so on with two places, a half going to
the even neighbour.
-/
import Guwen.Text

namespace Guwen

namespace Size

/-- `n / d` rounded to a whole number, a half to the even neighbour. -/
def roundDiv (n d : Nat) : Nat :=
  let q := n / d
  let r := n % d
  if 2 * r < d then q
  else if d < 2 * r then q + 1
  else q + q % 2

/-- `n / unit` with two places. -/
def twoPlaces (n unit : Nat) : Text :=
  let hundredths := roundDiv (n * 100) unit
  Text.ofNat (hundredths / 100) ++ "." ++ Text.ofNat (hundredths % 100 / 10)
    ++ Text.ofNat (hundredths % 10)

/-- The units above the byte, the largest first. -/
def units : List (Nat × String) :=
  [(0x1000000000000000, "EB"), (0x4000000000000, "PB"), (0x10000000000, "TB"), (0x40000000, "GB"),
   (0x100000, "MB"), (0x400, "KB")]

/-- **A number of bytes in the largest unit that fits.** -/
def render (bytes : Nat) : Text :=
  match units.find? (·.1 ≤ bytes) with
  | some (unit, name) => twoPlaces bytes unit ++ name
  | none => Text.ofNat bytes ++ "B"

end Size

end Guwen
