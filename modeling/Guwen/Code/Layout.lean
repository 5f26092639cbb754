/-
**Layout: lines of code, indented by their nesting.**

Code is a list of marks: a line, the opening of a block, its closing. `Mark.layout` writes the marks
one after another; the level goes up with an opening brace and down before a closing one, and never
below zero. An empty line has no indentation.
-/
import Guwen.Text

namespace Guwen

namespace Code

/-- **A piece of laid-out code.** -/
inductive Mark where
  | line (code : Text)
  | openBlock
  | closeBlock
deriving DecidableEq, Repr

/-- A line at a level. -/
def lineAt (indent : Text) (level : Nat) (code : Text) : Text :=
  if code.isEmpty then "\n" else Text.replicate level indent ++ code ++ "\n"

namespace Mark

/-- The level after a mark that starts at `level`. -/
def levelAfter (level : Nat) : Mark → Nat
  | line _ => level
  | openBlock => level + 1
  | closeBlock => level - 1

/-- What a mark that starts at `level` writes. -/
def text (indent : Text) (level : Nat) : Mark → Text
  | line code => lineAt indent level code
  | openBlock => lineAt indent level "\x7b"
  | closeBlock => lineAt indent (level - 1) "\x7d"

/-- **The text of marks that start at a level.** -/
def layout (indent : Text) : Nat → List Mark → Text
  | _, [] => []
  | level, mark :: marks => mark.text indent level ++ layout indent (mark.levelAfter level) marks

/-- Marks inside a block of their own. -/
def enclose (marks : List Mark) : List Mark := openBlock :: marks ++ [closeBlock]

end Mark

end Code

end Guwen
