/-
**Binary operators.**

Seven operators can be written in a source; `Operator.ofKind?` gives the one a token stands for. A
tree built by hand may hold any other name, which is written out as it stands.
-/
import Guwen.Token

namespace Guwen

/-- **A binary operator.** -/
inductive Operator where
  | add
  | sub
  | mul
  | div
  | gt
  | lt
  | eq
  | other (name : Text)
deriving DecidableEq, Repr

namespace Operator

/-- The seven operators that a source can hold. -/
def all : List Operator := [add, sub, mul, div, gt, lt, eq]

/-- The name of the operator. -/
def name : Operator → Text
  | add => "add"
  | sub => "sub"
  | mul => "mul"
  | div => "div"
  | gt => "gt"
  | lt => "lt"
  | eq => "eq"
  | other name => name

/-- The operator with a given name. -/
def ofName (text : Text) : Operator :=
  (all.find? fun op => op.name == text).getD (other text)

/-- The operator as C# writes it. -/
def sign : Operator → Text
  | add => "+"
  | sub => "-"
  | mul => "*"
  | div => "/"
  | gt => ">"
  | lt => "<"
  | eq => "=="
  | other name => name

/-- The operator a kind of token stands for. -/
def ofKind? : TokenKind → Option Operator
  | .plus => some add
  | .minus => some sub
  | .times => some mul
  | .divide => some div
  | .greater => some gt
  | .less => some lt
  | .equal => some eq
  | _ => none

/-- 乘 and 除, which bind tightest. -/
def isMultiplicative : Operator → Bool
  | mul | div => true
  | _ => false

/-- 加 and 減, which bind tighter than the comparisons. -/
def isAdditive : Operator → Bool
  | add | sub => true
  | _ => false

end Operator

end Guwen
