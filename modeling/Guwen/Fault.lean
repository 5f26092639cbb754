/-
**Faults: all the ways in which work on a tree or a text can stop.**

A source that is refused gives a diagnostic. The other faults cannot come from a source: a tree with
a node missing, and a place past the end of a list.
-/
import Guwen.Diagnostic

namespace Guwen

/-- The two walks over a tree. -/
inductive Walk where
  | analysis
  | generation
deriving DecidableEq, Repr

/-- The name of the walk. -/
def Walk.text : Walk → Text
  | analysis => "analyzer"
  | generation => "codegen"

/-- **Why work stopped.** -/
inductive Fault where
  /-- The source is refused. -/
  | refused (d : Diagnostic)
  /-- A walk came to a statement that is missing. -/
  | missingStatement (walk : Walk)
  /-- A walk came to an expression that is missing. -/
  | missingExpression (walk : Walk)
  /-- Item `index` was asked for of only `length` items. -/
  | outOfRange (index length : Nat)
deriving DecidableEq, Repr

namespace Fault

/-- The wording of the fault. -/
def message : Fault → Text
  | refused d => d.message
  | missingStatement walk => walk.text ++ ": unexpected statement <nil>"
  | missingExpression walk => walk.text ++ ": unexpected expression <nil>"
  | outOfRange index length =>
    "runtime error: index out of range [" ++ Text.ofNat index ++ "] with length "
      ++ Text.ofNat length

end Fault

end Guwen
