/-
**Precedence: a chain of operands and the three levels of the grammar.**

A chain is flat, the grammar has levels. `Strung` says that tokens spell a flat chain, with whatever
relation spells its operands; collapsing the operators of one level keeps a chain strung while its
operands rise by that level.

* `Strung.collapse` — one level of operators, joined from the left.
* `spells_tree` — the tokens of a chain of operands spell its tree as an expression.
* `TermOf`, `SumOf`, `ExpressionOf` — the converse, level by level: what the grammar joins is the
  tree of a chain (`termOf_join`, `sumOf_join`, `expressionOf_join`).
-/
import Guwen.Proofs.Grammar.Derivation

namespace Guwen

namespace Grammar

/-! ### Chains spelt by tokens -/

/-- The tokens spell an operand by `head` and then, behind one operator each, more operands by
`next`. -/
def Strung (head next : Expr → List Token → List Token → Prop) :
    Expr → List Link → List Token → List Token → Prop
  | e, [], ts, after => head e ts after
  | e, link :: links, ts, after =>
    ∃ us vs, ts = us ++ link.token :: vs ∧ Operator.ofKind? link.token.kind = some link.op ∧
      head e us (link.token :: (vs ++ after)) ∧ Strung next next link.operand links vs after

section

variable {Q R : Expr → List Token → List Token → Prop}

theorem Strung.mono_head (lift : ∀ e ts after, R e ts after → Q e ts after) {e : Expr}
    {links : List Link} {ts after : List Token} (strung : Strung R R e links ts after) :
    Strung Q R e links ts after := by
  cases links with
  | nil => exact lift _ _ _ strung
  | cons link links =>
    obtain ⟨us, vs, split, operator, first, rest⟩ := strung
    exact ⟨us, vs, split, operator, lift _ _ _ first, rest⟩

/-- One chain behind another, with an operator between them. -/
theorem Strung.append {first e : Expr} {links more : List Link} {t : Token} {op : Operator}
    {ts us after : List Token} (left : Strung Q R first links ts (t :: (us ++ after)))
    (operator : Operator.ofKind? t.kind = some op) (right : Strung R R e more us after) :
    Strung Q R first (links ++ ⟨t, op, e⟩ :: more) (ts ++ t :: us) after := by
  induction links generalizing Q first ts with
  | nil => exact ⟨ts, us, rfl, operator, left, right⟩
  | cons link links ih =>
    obtain ⟨us', vs', rfl, linkOperator, head, rest⟩ := left
    refine ⟨us', vs' ++ t :: us, ?_, linkOperator, ?_, ih rest⟩
    · rw [List.append_assoc, List.cons_append]
    · rw [List.append_assoc, List.cons_append]
      exact head

/-- **Collapsing one level.** If operands rise to the level, and an operator of the level joins what
has risen with an operand, then the collapsed chain is strung from what has risen. -/
theorem Strung.collapse (joins : Operator → Bool)
    (lift : ∀ e ts after, R e ts after → Q e ts after)
    (join : ∀ (left right : Expr) (t : Token) (op : Operator) (ts us after : List Token),
      Q left ts (t :: (us ++ after)) → Operator.ofKind? t.kind = some op → joins op = true →
        R right us after → Q (.binary t op left right) (ts ++ t :: us) after)
    {e : Expr} {links : List Link} {ts after : List Token}
    (strung : Strung Q R e links ts after) :
    Strung Q Q (Grammar.collapse joins e links).1 (Grammar.collapse joins e links).2 ts after := by
  induction links generalizing e ts with
  | nil => exact strung
  | cons link links ih =>
    obtain ⟨us, vs, rfl, operator, head, rest⟩ := strung
    unfold Grammar.collapse
    by_cases joined : joins link.op = true
    · rw [if_pos joined]
      apply ih
      -- the operand joins the head; what hangs on it is strung behind both
      cases links with
      | nil => exact join _ _ _ _ _ _ _ head operator joined rest
      | cons second links =>
        obtain ⟨us', vs', rfl, operator', operand, rest'⟩ := rest
        refine ⟨us ++ link.token :: us', vs', ?_, operator', ?_, rest'⟩
        · rw [List.append_assoc, List.cons_append]
        · refine join _ _ _ _ _ _ _ ?_ operator joined operand
          rw [List.append_assoc, List.cons_append] at head
          exact head
    · rw [if_neg joined]
      exact ⟨us, vs, rfl, operator, head, ih (rest.mono_head lift)⟩

end

/-! ### What collapsing leaves -/

/-- The links left by a collapse have operators of the chain that were not to be joined. -/
theorem collapse_links {joins : Operator → Bool} {e : Expr} {links : List Link} {link : Link}
    (left : link ∈ (collapse joins e links).2) :
    joins link.op = false ∧ ∃ origin ∈ links, origin.op = link.op := by
  induction links generalizing e with
  | nil => cases left
  | cons head links ih =>
    unfold collapse at left
    by_cases joined : joins head.op = true
    · rw [if_pos joined] at left
      obtain ⟨apart, origin, member, same⟩ := ih left
      exact ⟨apart, origin, List.mem_cons_of_mem _ member, same⟩
    · rw [if_neg joined] at left
      rcases List.mem_cons.mp left with rfl | member
      · exact ⟨Bool.eq_false_iff.mpr joined, head, List.mem_cons_self, rfl⟩
      · obtain ⟨apart, origin, member, same⟩ := ih member
        exact ⟨apart, origin, List.mem_cons_of_mem _ member, same⟩

/-- A chain whose operators are all to be joined collapses to one operand. -/
theorem collapse_all {joins : Operator → Bool} {e : Expr} {links : List Link}
    (all : ∀ link ∈ links, joins link.op = true) :
    collapse joins e links = (links.foldl (fun left link => link.join left) e, []) := by
  induction links generalizing e with
  | nil => rfl
  | cons link links ih =>
    unfold collapse
    rw [if_pos (all link List.mem_cons_self)]
    exact ih fun other member => all other (List.mem_cons_of_mem _ member)

/-- The tree of a chain, as three collapses one after another. -/
theorem tree_eq_collapse (c : Chain) :
    let terms := collapse Operator.isMultiplicative c.first c.links
    let sums := collapse Operator.isAdditive terms.1 terms.2
    collapse isComparison sums.1 sums.2 = (c.tree, []) := by
  intro terms sums
  refine collapse_all fun link member => ?_
  obtain ⟨notAdditive, origin, earlier, same⟩ := collapse_links member
  obtain ⟨notMultiplicative, -⟩ := collapse_links earlier
  rw [same] at notMultiplicative
  rw [isComparison, notAdditive, notMultiplicative]
  rfl

/-- **The tokens of a chain of operands spell its tree.** -/
theorem spells_tree {c : Chain} {ts after : List Token}
    (strung : Strung (fun e => Spells (.operand e)) (fun e => Spells (.operand e)) c.first c.links
      ts after) : Spells (.expression c.tree) ts after := by
  have terms := (strung.mono_head (Q := fun e => Spells (.term e))
    fun _ _ _ => .operandTerm).collapse Operator.isMultiplicative (fun _ _ _ => .operandTerm)
      fun _ _ _ _ _ _ _ left operator level right => .product left operator level right
  have sums := (terms.mono_head (Q := fun e => Spells (.sum e))
    fun _ _ _ => .termSum).collapse Operator.isAdditive (fun _ _ _ => .termSum)
      fun _ _ _ _ _ _ _ left operator level right => .sum left operator level right
  have whole := (sums.mono_head (Q := fun e => Spells (.expression e))
    fun _ _ _ => .sumExpression).collapse isComparison (fun _ _ _ => .sumExpression)
      fun _ _ _ _ _ _ _ left operator level right => .comparison left operator level right
  rw [tree_eq_collapse c] at whole
  exact whole

/-! ### From the levels back to chains -/

/-- A chain that collapses to one operand can be continued from that operand. -/
theorem collapse_append {joins : Operator → Bool} {e joined : Expr} {links more : List Link}
    (one : collapse joins e links = (joined, [])) :
    collapse joins e (links ++ more) = collapse joins joined more := by
  induction links generalizing e with
  | nil =>
    cases one
    rfl
  | cons link links ih =>
    unfold collapse at one
    by_cases joins_link : joins link.op = true
    · rw [if_pos joins_link] at one
      rw [List.cons_append, collapse, if_pos joins_link]
      exact ih one
    · rw [if_neg joins_link] at one
      cases one

/-- Two chains with an operator between them that is not to be joined collapse apart. -/
theorem collapse_append_apart {joins : Operator → Bool} {e second : Expr} {links more : List Link}
    {t : Token} {op : Operator} (apart : joins op = false) :
    collapse joins e (links ++ ⟨t, op, second⟩ :: more) =
      ((collapse joins e links).1,
        (collapse joins e links).2 ++
          ⟨t, op, (collapse joins second more).1⟩ :: (collapse joins second more).2) := by
  induction links generalizing e with
  | nil =>
    simp only [List.nil_append, collapse, apart, Bool.false_eq_true, if_false]
  | cons link links ih =>
    rw [List.cons_append, collapse, collapse]
    by_cases joined : joins link.op = true
    · rw [if_pos joined, if_pos joined]
      exact ih
    · rw [if_neg joined, if_neg joined, ih]
      rfl

section

variable (R : Expr → List Token → List Token → Prop)

/-- A chain of 乘 and 除 with this tree. -/
def TermOf (e : Expr) (ts after : List Token) : Prop :=
  ∃ first links, Strung R R first links ts after ∧
    collapse Operator.isMultiplicative first links = (e, [])

/-- A chain of 加, 減, 乘 and 除 with this tree. -/
def SumOf (e : Expr) (ts after : List Token) : Prop :=
  ∃ first links terms sums, Strung R R first links ts after ∧
    collapse Operator.isMultiplicative first links = (terms, sums) ∧
    collapse Operator.isAdditive terms sums = (e, [])

/-- A chain with this tree. -/
def ExpressionOf (e : Expr) (ts after : List Token) : Prop :=
  ∃ c : Chain, Strung R R c.first c.links ts after ∧ c.tree = e

variable {R} {e left right : Expr} {t : Token} {op : Operator} {ts us after : List Token}

theorem termOf_operand (operand : R e ts after) : TermOf R e ts after := ⟨e, [], operand, rfl⟩

theorem sumOf_term (term : TermOf R e ts after) : SumOf R e ts after := by
  obtain ⟨first, links, strung, collapsed⟩ := term
  exact ⟨first, links, e, [], strung, collapsed, rfl⟩

theorem expressionOf_sum (sum : SumOf R e ts after) : ExpressionOf R e ts after := by
  obtain ⟨first, links, terms, sums, strung, product, total⟩ := sum
  refine ⟨⟨first, links⟩, strung, ?_⟩
  simp only [Chain.tree, product, total, List.foldl_nil]

theorem termOf_join (term : TermOf R left ts (t :: (us ++ after)))
    (operator : Operator.ofKind? t.kind = some op) (level : op.isMultiplicative = true)
    (operand : R right us after) : TermOf R (.binary t op left right) (ts ++ t :: us) after := by
  obtain ⟨first, links, strung, collapsed⟩ := term
  have single : Strung R R right [] us after := operand
  refine ⟨first, links ++ [⟨t, op, right⟩], strung.append operator single, ?_⟩
  rw [collapse_append collapsed, collapse, if_pos level]
  rfl

theorem sumOf_join (sum : SumOf R left ts (t :: (us ++ after)))
    (operator : Operator.ofKind? t.kind = some op) (level : op.isAdditive = true)
    (term : TermOf R right us after) : SumOf R (.binary t op left right) (ts ++ t :: us) after := by
  obtain ⟨first, links, terms, sums, strung, product, total⟩ := sum
  obtain ⟨second, more, strung', product'⟩ := term
  have apart : op.isMultiplicative = false := by
    cases op <;> first | rfl | cases level
  refine ⟨first, links ++ ⟨t, op, second⟩ :: more, terms, sums ++ [⟨t, op, right⟩],
    strung.append operator strung', ?_, ?_⟩
  · rw [collapse_append_apart apart, product, product']
  · rw [collapse_append total, collapse, if_pos level]
    rfl

theorem expressionOf_join (compared : ExpressionOf R left ts (t :: (us ++ after)))
    (operator : Operator.ofKind? t.kind = some op) (level : isComparison op = true)
    (sum : SumOf R right us after) :
    ExpressionOf R (.binary t op left right) (ts ++ t :: us) after := by
  obtain ⟨⟨first, links⟩, strung, rfl⟩ := compared
  obtain ⟨second, more, terms', sums', strung', product', total'⟩ := sum
  have apart : op.isMultiplicative = false ∧ op.isAdditive = false := by
    simpa only [isComparison, Bool.and_eq_true, Bool.not_eq_true'] using level
  refine ⟨⟨first, links ++ ⟨t, op, second⟩ :: more⟩, strung.append operator strung', ?_⟩
  simp only [Chain.tree, collapse_append_apart apart.1, product', collapse_append_apart apart.2,
    total', List.foldl_append, List.foldl_cons, List.foldl_nil, Link.join]

end

end Grammar

end Guwen
