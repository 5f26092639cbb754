/-
**Running a command line.**

The program reads its command lines by `Invocation.ofArguments`, and words sizes by `Size.render`
and the events of the log by `Log.line`.

* `Directory.run` carries out a command line in a tree of files.
-/
import Guwen.Command.Invocation
import Guwen.Command.Log
import Guwen.Command.Size
import Guwen.Command.Task

namespace Guwen

/-- The wordings of the program. -/
def Wording.standard (clock : Clock) : Wording := ⟨Size.render, Log.line clock⟩

/-- What a command line asks for, or what its refusal leaves behind. -/
def Invocation.read (arguments : List Text) : Except Outcome Invocation :=
  (ofArguments arguments).mapError fun refusal => .failure refusal.text

/-- **A command line carried out:** the outcome, and the files afterwards. -/
def Directory.run (clock : Clock) (d : Directory) (arguments : List Text) : Outcome × Directory :=
  d.answer Invocation.read (.standard clock) arguments

end Guwen
