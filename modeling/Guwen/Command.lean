/-
**Commands, and what a command line asks for.**

A command works on a source, with the settings that flags make. An `Invocation` is what is left of a
command line once it has been read.
-/
import Guwen.Text

namespace Guwen

/-- **The commands that work on a source.** -/
inductive Command where
  | build
  | check
  | tokens
  | ast
  | symbols
deriving DecidableEq, Repr

/-- **The settings that flags make.** -/
structure Settings where
  verbose : Bool
  noColor : Bool
  /-- The target of a build; empty for the usual one. -/
  out : Text
  space : Text
  className : Text
  /-- Spaces for each level; none or fewer stand for the usual number. -/
  indent : Int
deriving DecidableEq, Repr

/-- The settings without any flag. -/
def Settings.standard : Settings := ⟨false, false, [], [], [], 4⟩

/-- **What a command line asks for.** -/
inductive Invocation where
  | help
  /-- The list of keywords. -/
  | keywords
  /-- A command on a source. -/
  | onSource (command : Command) (settings : Settings) (source : Text)
deriving DecidableEq, Repr

end Guwen
