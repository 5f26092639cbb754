/-
**Outcomes: what a command leaves behind.**

The exit status, and what was written to the two output streams.
-/
import Guwen.Text

namespace Guwen

/-- **What a command leaves behind.** -/
structure Outcome where
  status : Nat
  output : Text
  errors : Text
deriving DecidableEq, Repr

namespace Outcome

/-- Success, with some output. -/
def success (output : Text) : Outcome := ⟨0, output, []⟩

/-- Failure, with the reason. -/
def failure (errors : Text) : Outcome := ⟨1, [], errors⟩

end Outcome

end Guwen
