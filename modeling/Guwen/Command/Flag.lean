/-
**Flags: the settings of a command line.**

A flag is written `--name value`, `--name=value`, or with its letter `-n value`, `-nvalue`,
`-n=value`; a switch needs no value, and switches may share one dash. Flags stand anywhere, `--`
ends them, and the last value wins. What is no flag is a word.

* `Flag.read` takes one argument, `Flag.readAll` all of them.
* `UsageError.message` is the wording of each refusal.
-/
import Guwen.Command
import Guwen.Command.FlagValue
import Guwen.Text.Quoted

namespace Guwen

/-- **The flags.** -/
inductive Flag where
  | verbose
  | noColor
  | help
  | out
  | space
  | className
  | indent
deriving DecidableEq, Repr

namespace Flag

/-- The name behind two dashes. -/
def name : Flag → Text
  | verbose => "verbose"
  | noColor => "no-color"
  | help => "help"
  | out => "out"
  | space => "namespace"
  | className => "class"
  | indent => "indent"

/-- The letter behind one dash. -/
def letter? : Flag → Option UInt8
  | verbose => some 0x76
  | help => some 0x68
  | out => some 0x6F
  | _ => none

/-- A flag that needs no value. -/
def isSwitch : Flag → Bool
  | verbose | noColor | help => true
  | _ => false

/-- The flag as a refusal names it. -/
def label (f : Flag) : Text :=
  match f.letter? with
  | some letter => "-" ++ [letter] ++ ", --" ++ f.name
  | none => "--" ++ f.name

end Flag

/-- **Why a command line is refused.** -/
inductive UsageError where
  | badFlag (argument : Text)
  | unknownFlag (name : Text)
  | unknownLetter (letter : UInt8) (group : Text)
  | flagNeedsValue (argument : Text)
  | letterNeedsValue (letter : UInt8) (group : Text)
  /-- `kind` names the reading of values that refused it. -/
  | badValue (value : Text) (flag : Flag) (kind : Text) (flaw : FlagValue.Flaw)
  | unknownCommand (word command : Text)
  | wrongCount (received : Nat)
deriving DecidableEq, Repr

namespace UsageError

/-- The wording of the refusal. -/
def message : UsageError → Text
  | badFlag argument => "bad flag syntax: " ++ argument
  | unknownFlag name => "unknown flag: --" ++ name
  | unknownLetter letter group =>
    "unknown shorthand flag: " ++ Text.quotedChar (Char.ofNat letter.toNat) ++ " in -" ++ group
  | flagNeedsValue argument => "flag needs an argument: " ++ argument
  | letterNeedsValue letter group =>
    "flag needs an argument: " ++ Text.quotedChar (Char.ofNat letter.toNat) ++ " in -" ++ group
  | badValue value flag kind flaw =>
    "invalid argument " ++ value.quoted ++ " for " ++ flag.label.quoted ++ " flag: " ++ kind
      ++ ": parsing " ++ value.quoted ++ ": " ++ flaw.text
  | unknownCommand word command =>
    "unknown command " ++ word.quoted ++ " for " ++ command.quoted
  | wrongCount received => "accepts 1 arg(s), received " ++ Text.ofNat received

end UsageError

namespace Flag

/-- **What flags give:** the settings, and whether help is asked for. -/
structure Given extends Settings where
  help : Bool

namespace Given

/-- No flag at all. -/
def standard : Given := { Settings.standard with help := false }

/-- **The same with a flag given a value.** -/
def set (g : Given) (flag : Flag) (value : Text) : Except UsageError Given :=
  let asSwitch (put : Bool → Given) : Except UsageError Given :=
    match FlagValue.switch value with
    | .ok on => .ok (put on)
    | .error flaw => .error (.badValue value flag "strconv.ParseBool" flaw)
  match flag with
  | .verbose => asSwitch fun on => { g with verbose := on }
  | .noColor => asSwitch fun on => { g with noColor := on }
  | .help => asSwitch fun on => { g with help := on }
  | .out => .ok { g with out := value }
  | .space => .ok { g with space := value }
  | .className => .ok { g with className := value }
  | .indent =>
    match FlagValue.integer value with
    | .ok n => .ok { g with indent := n }
    | .error flaw => .error (.badValue value flag "strconv.ParseInt" flaw)

end Given

/-! ### Reading arguments -/

/-- **What an argument is.** -/
inductive Reading where
  /-- No flag. -/
  | word
  /-- The end of the flags. -/
  | stop
  /-- Flags with all they need. -/
  | done (given : Given)
  /-- A flag whose value is the next argument; `missing` is the refusal when there is none. -/
  | wants (given : Given) (flag : Flag) (missing : UsageError)

/-- The value that switches a switch on. -/
def on : Text := "true"

/-- What starts the letters that are passed over. -/
def passedOver : Text := "test."

/-- Letters behind one dash. -/
def readLetters (flags : List Flag) (given : Given) : Text → Except UsageError Reading
  | [] => .ok (.done given)
  | letter :: more =>
    if passedOver.isPrefixOf (letter :: more) then .ok (.done given)
    else match flags.find? fun f => f.letter? == some letter with
    | none => .error (.unknownLetter letter (letter :: more))
    | some flag =>
      if more.head? == some 0x3D && 1 < more.length then do
        let given ← given.set flag more.tail
        return .done given
      else if flag.isSwitch then do
        let given ← given.set flag on
        readLetters flags given more
      else if more.isEmpty then
        .ok (.wants given flag (.letterNeedsValue letter (letter :: more)))
      else do
        let given ← given.set flag more
        return .done given

/-- A name behind two dashes. -/
def readName (flags : List Flag) (given : Given) (argument body : Text) :
    Except UsageError Reading :=
  if body.head? == some 0x2D || body.head? == some 0x3D then .error (.badFlag argument)
  else
    let name := body.takeWhile (· != 0x3D)
    match flags.find? fun f => f.name == name with
    | none => .error (.unknownFlag name)
    | some flag =>
      if name.length < body.length then do
        let given ← given.set flag (body.drop (name.length + 1))
        return .done given
      else if flag.isSwitch then do
        let given ← given.set flag on
        return .done given
      else .ok (.wants given flag (.flagNeedsValue argument))

/-- **One argument.** A dash alone is a word. -/
def read (flags : List Flag) (given : Given) (argument : Text) :
    Except UsageError Reading :=
  match argument with
  | [0x2D, 0x2D] => .ok .stop
  | 0x2D :: 0x2D :: body => readName flags given argument body
  | 0x2D :: letter :: more => readLetters flags given (letter :: more)
  | _ => .ok .word

/-- **All arguments:** what the flags give, and the words. -/
def readAll (flags : List Flag) (given : Given) :
    List Text → Except UsageError (Given × List Text)
  | [] => .ok (given, [])
  | argument :: rest => do
    match ← read flags given argument with
    | .word =>
      let (given, words) ← readAll flags given rest
      return (given, argument :: words)
    | .stop => return (given, rest)
    | .done given => readAll flags given rest
    | .wants given flag missing =>
      match rest with
      | [] => .error missing
      | value :: rest =>
        let given ← given.set flag value
        readAll flags given rest

end Flag

end Guwen
