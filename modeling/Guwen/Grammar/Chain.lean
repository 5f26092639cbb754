/-
**Chains: operands with operators between them, and the tree they stand for.**

`x₀ op₁ x₁ … opₙ xₙ` is read as a chain first. Its tree joins 乘 and 除 first, then 加 and 減, then
the comparisons, each from left to right.
-/
import Guwen.Tree

namespace Guwen

namespace Grammar

/-- An operator and the operand to its right. -/
structure Link where
  token : Token
  op : Operator
  operand : Expr

/-- **Operands with operators between them.** -/
structure Chain where
  first : Expr
  links : List Link

/-- The operator of a link between `left` and the link's operand. -/
def Link.join (link : Link) (left : Expr) : Expr :=
  .binary link.token link.op left link.operand

/-- The chain `left links` with the operators that `joins` picks joined, from left to right: its
first operand and its links. -/
def collapse (joins : Operator → Bool) : Expr → List Link → Expr × List Link
  | left, [] => (left, [])
  | left, link :: links =>
    if joins link.op then collapse joins (link.join left) links
    else
      let (next, rest) := collapse joins link.operand links
      (left, ⟨link.token, link.op, next⟩ :: rest)

/-- **The tree of a chain.** -/
def Chain.tree (c : Chain) : Expr :=
  let (terms, sums) := collapse Operator.isMultiplicative c.first c.links
  let (total, comparisons) := collapse Operator.isAdditive terms sums
  comparisons.foldl (fun left link => link.join left) total

end Grammar

end Guwen
