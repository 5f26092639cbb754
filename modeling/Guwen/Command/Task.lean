/-
**What a command does with a source.**

A command reads its source, works on it, and prints; only a build writes a file. `Task` is what is
left to do once the source is read, so that the same rules hold for a real file system and for a
`Directory`. How a command line is read, and how sizes and events are put into words, is not for the
commands to decide: both are given to them.

* `Command.task` is what a command does with a source.
* `Directory.execute` carries out a command on a source in a tree of files.
* `Directory.answer` carries out a command line, as it is read by a given reader.
-/
import Guwen.Command
import Guwen.Command.Directory
import Guwen.Command.Outcome
import Guwen.Compilation
import Guwen.Tree.Listing

namespace Guwen

/-- **The wordings that commands print but do not choose.** -/
structure Wording where
  /-- A number of bytes. -/
  size : Nat → Text
  /-- An event in the log, about a file. -/
  event : Text → Event → Text

/-- **What is left to do once the source is read.** -/
inductive Task where
  /-- Nothing. -/
  | finish (outcome : Outcome)
  /-- A file to write; `outcome` holds if that succeeds, and `log` has been printed before. -/
  | write (target content log : Text) (outcome : Outcome)

namespace Task

/-- The line that ends every failure. -/
def errorLine (message : Text) : Text := "Error: " ++ message ++ "\n"

/-- What a source that does not compile ends with, after what was printed before. -/
def compilationFailed (printed : Text) : Outcome :=
  .failure (printed ++ errorLine "compilation failed")

/-- The options of a compilation. -/
def options (s : Settings) : Options where
  space := s.space
  className := s.className
  indent := List.replicate s.indent.toNat 0x20

/-- The printed log of a compilation. -/
def logText (w : Wording) (s : Settings) (path : Text) (c : Compilation) : Text :=
  if s.verbose then c.log.flatMap (w.event path) else []

/-- The extension of C# sources. -/
def extension : Text := ".cs"

/-- Where a build writes. -/
def target (s : Settings) (path : Text) : Text :=
  if s.out.isEmpty then Path.withExtension path extension else s.out

/-- **A build.** -/
def build (w : Wording) (s : Settings) (path source : Text) : Task :=
  let c := compile (options s) source
  let log := logText w s path c
  match c.outcome with
  | .error fault => .finish (compilationFailed (log ++ (Report.ofFault fault).text))
  | .ok code =>
    let target := target s path
    let output := "wrote " ++ target ++ " (" ++ w.size code.length ++ ")\n"
    .write target code log ⟨0, output, log⟩

/-- **A check.** -/
def check (w : Wording) (s : Settings) (path source : Text) : Task :=
  let c := compile (options s) source
  let log := logText w s path c
  match c.outcome with
  | .error fault => .finish (compilationFailed (log ++ (Report.ofFault fault).text))
  | .ok _ => .finish ⟨0, "ok " ++ path ++ "\n", log⟩

/-- A listing, or why there is none. -/
def listing : Except Fault Text → Task
  | .ok text => .finish (.success text)
  | .error fault => .finish (compilationFailed (fault.message ++ "\n"))

/-- The listing of a tree. -/
def treeListing (source : Text) : Except Fault Text :=
  match Program.ofSource source with
  | .ok p => .ok p.listing
  | .error d => .error (.refused d)

/-- The listing of the declared symbols. -/
def symbolListing (source : Text) : Except Fault Text :=
  match Program.ofSource source with
  | .ok p => p.resolve.listing
  | .error d => .error (.refused d)

end Task

/-- **What a command does with a source.** -/
def Command.task (w : Wording) (s : Settings) (path source : Text) : Command → Task
  | .build => .build w s path source
  | .check => .check w s path source
  | .tokens => .finish (.success (Token.listing (Token.tokenize source)))
  | .ast => .listing (Task.treeListing source)
  | .symbols => .listing (Task.symbolListing source)

/-- One keyword on each line. -/
def Lexicon.listing : Text :=
  Lexicon.spellings.flatMap fun spelling => Text.ofString spelling ++ "\n"

/-- A short account of the commands. -/
def Command.overview : Text :=
  "build     Compile a source file into a .cs file\n" ++
  "check     Parse and analyze a source file without writing output\n" ++
  "tokens    Print the tokens of a source file\n" ++
  "ast       Print the syntax tree of a source file\n" ++
  "symbols   Print the symbols a source file declares\n" ++
  "keywords  List the recognized keywords\n"

namespace Task

/-- The outcome when the source cannot be read. -/
def unreadable (e : FileError) (path : Text) : Outcome :=
  .failure (errorLine (e.readMessage path))

/-- The outcome when the target cannot be written. -/
def unwritable (e : FileError) (target log : Text) : Outcome :=
  .failure (log ++ errorLine (e.writeMessage target))

end Task

namespace Directory

/-- **A task carried out:** the outcome, and the files afterwards. -/
def perform (d : Directory) : Task → Outcome × Directory
  | .finish outcome => (outcome, d)
  | .write target content log outcome =>
    match d.write target content with
    | .ok d => (outcome, d)
    | .error e => (Task.unwritable e target log, d)

/-- **A command carried out on a source:** the outcome, and the files afterwards. -/
def execute (w : Wording) (d : Directory) (command : Command) (settings : Settings)
    (source : Text) : Outcome × Directory :=
  let path := Path.absolute (Path.ofElements d.home) source
  match d.read path with
  | .error e => (Task.unreadable e path, d)
  | .ok content => d.perform (command.task w settings path content)

/-- **A command line carried out,** when `reads` says what it asks for, or what it leaves behind
without running a command. -/
def answer (reads : List Text → Except Outcome Invocation) (w : Wording) (d : Directory)
    (arguments : List Text) : Outcome × Directory :=
  match reads arguments with
  | .error outcome => (outcome, d)
  | .ok .help => (.success Command.overview, d)
  | .ok .keywords => (.success Lexicon.listing, d)
  | .ok (.onSource command settings source) => d.execute w command settings source

end Directory

end Guwen
