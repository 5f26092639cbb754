/-
**Invocations: what a command line asks for.**

The first word that is not the value of a flag names the command. Flags may stand before it as well;
there only the switches are known, so any other flag without `=` takes the argument behind it. What
a shell asks for to complete a command line is not read.

* `Invocation.ofArguments` reads a command line.
* `Verb.flags` are the flags that a verb knows.
-/
import Guwen.Command.Flag

namespace Guwen

namespace Command

/-- The word that names the command. -/
def name : Command → Text
  | build => "build"
  | check => "check"
  | tokens => "tokens"
  | ast => "ast"
  | symbols => "symbols"

/-- The flags that every command knows. -/
def commonFlags : List Flag := [.verbose, .noColor, .help]

/-- **The flags of a command.** -/
def flags : Command → List Flag
  | build => commonFlags ++ [.out, .space, .className, .indent]
  | check => commonFlags ++ [.space, .className, .indent]
  | _ => commonFlags

end Command

/-- **What the first word of a command line may name.** -/
inductive Verb where
  /-- A command that works on a source. -/
  | on (command : Command)
  /-- The list of keywords. -/
  | keywords
  /-- An account of the commands, whatever words follow. -/
  | help
deriving DecidableEq, Repr

namespace Verb

/-- The name of the program. -/
def program : Text := "wenyan"

/-- The word that names the command. -/
def name : Verb → Text
  | on command => command.name
  | keywords => "keywords"
  | help => "help"

/-- All of them. -/
def all : List Verb :=
  [on .build, on .check, on .tokens, on .ast, on .symbols, keywords, help]

/-- The command that a word names, if it names one. -/
def ofName? (word : Text) : Option Verb := all.find? (·.name == word)

/-- The flags that the command takes. -/
def flags : Verb → List Flag
  | on command => command.flags
  | keywords | help => Command.commonFlags

end Verb

namespace Invocation

/-- A refusal, and whether the user is told where to find help. -/
structure Refusal where
  error : UsageError
  hint : Bool
deriving DecidableEq, Repr

/-- What a refusal prints. -/
def Refusal.text (r : Refusal) : Text :=
  "Error: " ++ r.error.message ++ "\n"
    ++ (if r.hint then "Run '" ++ Verb.program ++ " --help' for usage.\n" else [] : Text)

/-- The switches that are known before the command. -/
def earlySwitches : List Flag := [.verbose, .noColor]

/-- Before the command, this argument takes the next one as its value. -/
def takesNext (argument : Text) : Bool :=
  !argument.contains 0x3D && match argument with
  | 0x2D :: 0x2D :: name => earlySwitches.all fun f => f.name != name
  | [0x2D, letter] => earlySwitches.all fun f => f.letter? != some letter
  | _ => false

/-- The end of the flags. -/
def stop : Text := "--"

/-- An argument that is neither empty nor a flag. -/
def isWord (argument : Text) : Bool := !argument.isEmpty && argument.head? != some 0x2D

/-- The first word that is not the value of a flag. -/
def firstWord? : List Text → Option Text
  | [] => none
  | argument :: rest =>
    if argument == stop then none
    else if takesNext argument then match rest with
      | [] | [_] => none
      | _ :: rest => firstWord? rest
    else if isWord argument then some argument
    else firstWord? rest

/-- The arguments without the first occurrence of a word that is not the value of a flag. -/
def without (word : Text) : List Text → List Text
  | [] => []
  | argument :: rest =>
    if argument == stop then argument :: rest
    else if takesNext argument then match rest with
      | [] => [argument]
      | value :: rest => argument :: value :: without word rest
    else if argument == word then rest
    else argument :: without word rest

/-- A verb with its words. -/
def ofWords (verb : Verb) (given : Flag.Given) (words : List Text) :
    Except UsageError Invocation :=
  if given.help then .ok .help
  else match verb, words with
  | .keywords, [] => .ok .keywords
  | .keywords, word :: _ => .error (.unknownCommand word (Verb.program ++ " " ++ verb.name))
  | .on command, [source] => .ok (.onSource command given.toSettings source)
  | .on _, words => .error (.wrongCount words.length)
  | .help, _ => .ok .help

/-- A verb with its arguments. -/
def ofVerb (verb : Verb) (arguments : List Text) : Except UsageError Invocation := do
  let (given, words) ← Flag.readAll verb.flags .standard arguments
  ofWords verb given words

/-- Flags without any verb. -/
def ofFlags (arguments : List Text) : Except UsageError Invocation := do
  let _ ← Flag.readAll Command.commonFlags .standard arguments
  return .help

/-- **What a command line asks for.** -/
def ofArguments (arguments : List Text) : Except Refusal Invocation :=
  match firstWord? arguments with
  | none => (ofFlags arguments).mapError fun error => ⟨error, false⟩
  | some word => match Verb.ofName? word with
    | some verb => (ofVerb verb (without word arguments)).mapError fun error => ⟨error, false⟩
    | none => .error ⟨.unknownCommand word Verb.program, true⟩

end Invocation

end Guwen
