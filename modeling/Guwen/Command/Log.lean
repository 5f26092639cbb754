/-
**The log of a compilation, as lines of text.**

Each event is one line: the time, the level, the message, and then the fields in the order of their
names. A value of plain characters stands as it is, any other in quotes.
-/
import Guwen.Compilation
import Guwen.Text.Quoted

namespace Guwen

/-- **When the work is done:** the time, and how long a stage took. -/
structure Clock where
  time : Text
  elapsed : Text
deriving DecidableEq, Repr

namespace Log

/-- A byte that needs no quotes. -/
def isPlainByte (b : UInt8) : Bool :=
  (0x61 ≤ b && b ≤ 0x7A) || (0x41 ≤ b && b ≤ 0x5A) || (0x30 ≤ b && b ≤ 0x39)
    || [0x2D, 0x2E, 0x5F, 0x2F, 0x40, 0x5E, 0x2B].contains b

/-- A value, in quotes if need be. -/
def value (t : Text) : Text := if t.all isPlainByte then t else t.quoted

/-- A field behind a space. -/
def field (name : String) (rendered : Text) : Text := " " ++ name ++ "=" ++ rendered

/-- All fields of an event about a file, already written out. -/
def fields (clock : Clock) (file : Text) (e : Event) : List (String × Text) :=
  (if e.isTimed then [("elapsed", clock.elapsed)] else [])
    ++ ("file", value file) :: e.fields.map fun (name, v) => (name, value v.render)

/-- **The line of an event.** -/
def line (clock : Clock) (file : Text) (e : Event) : Text :=
  let sorted := (fields clock file e).mergeSort fun a b => a.1 ≤ b.1
  "time=" ++ clock.time ++ " level=debug" ++ field "msg" (value e.message)
    ++ sorted.flatMap (fun f => field f.1 f.2) ++ "\n"

end Log

end Guwen
