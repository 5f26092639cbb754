/-
**The program.**

Reads the command line, the source and the clock, and carries out the task; what a command does is
decided by `Invocation.read` and `Command.task`.
-/
import Guwen.Command.Run

namespace Guwen

namespace Shell

/-- The bytes of a text, for a stream or a file. -/
def bytes (t : Text) : ByteArray := ⟨t.toArray⟩

/-- The name of a file, as the system takes it. -/
def fileName (path : Text) : String := path.toString?.getD (String.ofList path.chars)

/-- A code that stands for the failure of that number; some calls change its sign. -/
def isCode (number code : UInt32) : Bool := code == number || code == -number

/-- The reason for a failure of the system, by its number where that says more. -/
def reason : IO.Error → FileError
  | .noFileOrDirectory _ _ _ => .notFound
  | .inappropriateType _ code _ => if isCode 21 code then .isDirectory else .notDirectory
  | .invalidArgument _ code _ => if isCode 36 code then .nameTooLong else .malformed
  | .permissionDenied _ _ _ => .other "permission denied"
  | e => .other (toString e)

/-- A file's content, or why it cannot be read. -/
def readFile (path : Text) : IO (Except FileError Text) := do
  try
    let content ← IO.FS.readBinFile (fileName path)
    return .ok content.toList
  catch e => return .error (reason e)

/-- A file written, or why it cannot be. -/
def writeFile (path content : Text) : IO (Except FileError Unit) := do
  try
    IO.FS.writeBinFile (fileName path) (bytes content)
    return .ok ()
  catch e => return .error (reason e)

/-- A task carried out on real files. -/
def perform : Task → IO Outcome
  | .finish outcome => return outcome
  | .write target content log outcome => do
    match ← writeFile target content with
    | .ok _ => return outcome
    | .error e => return Task.unwritable e target log

/-- The time since the system started. -/
def clock : IO Clock := do
  let time ← IO.monoMsNow
  return ⟨Text.ofNat time ++ "ms", "0s"⟩

/-- A command line carried out on real files. -/
def execute (arguments : List Text) : IO Outcome := do
  match Invocation.read arguments with
  | .error outcome => return outcome
  | .ok .help => return .success Command.overview
  | .ok .keywords => return .success Lexicon.listing
  | .ok (.onSource command settings source) =>
    let home ← IO.currentDir
    let path := Path.absolute home.toString source
    match ← readFile path with
    | .error e => return Task.unreadable e path
    | .ok content => perform (command.task (.standard (← clock)) settings path content)

end Shell

end Guwen

/-- Runs the command line and shows what it leaves behind. -/
def main (arguments : List String) : IO UInt32 := do
  let outcome ← Guwen.Shell.execute (arguments.map Guwen.Text.ofString)
  (← IO.getStdout).write (Guwen.Shell.bytes outcome.output)
  (← IO.getStderr).write (Guwen.Shell.bytes outcome.errors)
  return outcome.status.toUInt32
