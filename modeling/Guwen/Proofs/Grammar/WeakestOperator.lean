/-
**The weakest operator is the root.**

`x₀ op₁ x₁ … opₙ xₙ` with single tokens for operands is read as the tree that splits the sequence at
its weakest operator, the rightmost one if several are as weak; the two parts split the same way.

* `WeakestTree` — that tree, said of the tokens alone: no chain, no collapsing.
* `tree_split` — the tree of a chain splits at such an operator, whatever its operands are. There is
  one argument for each of the three strengths.
* `WeakestTree.unique` — a sequence has at most one such tree.
* `expression_weakest` — the reader takes the whole sequence and gives that tree.
-/
import Guwen.Proofs.Grammar.ExpressionReading

namespace Guwen

namespace Grammar

/-! ### The tree of a sequence -/

/-- How tightly an operator holds its operands: the comparisons least, then 加 and 減, then 乘 and
除. -/
def strength : TokenKind → Nat
  | .times | .divide => 2
  | .plus | .minus => 1
  | _ => 0

/-- A token that is an operand by itself: a number in digits, a string or a name. -/
def isLeaf (t : Token) : Bool :=
  match t.kind with
  | .number => isArabic t
  | .string | .identifier => true
  | _ => false

/-- The expression that such a token is. -/
def leaf (t : Token) : Expr :=
  match t.kind with
  | .number => .literal t .number t.lexeme
  | .string => .literal t .string t.lexeme
  | _ => .use t none

/-- **The tree of a sequence:** the operand if there is only one, else the rightmost of the weakest
operators over the trees of the parts to its left and right. An operator stands in a pair with the
operand behind it. -/
inductive WeakestTree : Token → List (Token × Token) → Expr → Prop where
  | single {x : Token} : WeakestTree x [] (leaf x)
  | split {first t second : Token} {op : Operator} {before behind : List (Token × Token)}
      {left right : Expr} (operator : Operator.ofKind? t.kind = some op)
      (weakest : ∀ pair ∈ before, strength t.kind ≤ strength pair.1.kind)
      (rightmost : ∀ pair ∈ behind, strength t.kind < strength pair.1.kind)
      (leftTree : WeakestTree first before left) (rightTree : WeakestTree second behind right) :
      WeakestTree first (before ++ (t, second) :: behind) (.binary t op left right)

/-- The tokens of a sequence. -/
def sequence (first : Token) (pairs : List (Token × Token)) : List Token :=
  first :: pairs.flatMap fun pair => [pair.1, pair.2]

/-! ### Where a sequence splits -/

/-- **A list with a measure splits at the last of its least members.** -/
theorem exists_last_least {α : Type} (measure : α → Nat) {items : List α} (some : items ≠ []) :
    ∃ before least behind, items = before ++ least :: behind ∧
      (∀ item ∈ before, measure least ≤ measure item) ∧
      ∀ item ∈ behind, measure least < measure item := by
  induction items with
  | nil => exact absurd rfl some
  | cons head items ih =>
    by_cases last : ∀ item ∈ items, measure head < measure item
    · exact ⟨[], head, items, rfl, by simp, last⟩
    · push Not at last
      obtain ⟨item, member, small⟩ := last
      obtain ⟨before, least, behind, rfl, weakest, rightmost⟩ := ih (List.ne_nil_of_mem member)
      -- the least member of the tail is no larger than the head: some member of the tail is not
      have below : measure least ≤ measure item := by
        rcases List.mem_append.mp member with earlier | later
        · exact weakest item earlier
        · rcases List.mem_cons.mp later with rfl | later
          · exact Nat.le_refl _
          · exact Nat.le_of_lt (rightmost item later)
      refine ⟨head :: before, least, behind, rfl, ?_, rightmost⟩
      intro other among
      rcases List.mem_cons.mp among with rfl | among
      · exact Nat.le_trans below small
      · exact weakest other among

/-- There is only one such place. -/
theorem last_least_unique {α : Type} {f : α → Nat} {before before' behind behind' : List α}
    {least least' : α} (same : before ++ least :: behind = before' ++ least' :: behind')
    (weakest : ∀ item ∈ before, f least ≤ f item)
    (rightmost : ∀ item ∈ behind, f least < f item)
    (weakest' : ∀ item ∈ before', f least' ≤ f item)
    (rightmost' : ∀ item ∈ behind', f least' < f item) :
    before = before' ∧ least = least' ∧ behind = behind' := by
  rcases List.append_eq_append_iff.mp same with ⟨gap, rfl, tail⟩ | ⟨gap, rfl, tail⟩
  · cases gap with
    | nil =>
      cases tail
      exact ⟨(List.append_nil _).symm, rfl, rfl⟩
    | cons head gap =>
      -- the first place lies before the second one, and the second one behind it
      cases tail
      have above := rightmost least' (List.mem_append_right _ List.mem_cons_self)
      have below := weakest' least (List.mem_append_right _ List.mem_cons_self)
      omega
  · cases gap with
    | nil =>
      cases tail
      exact ⟨List.append_nil _, rfl, rfl⟩
    | cons head gap =>
      cases tail
      have above := rightmost' least (List.mem_append_right _ List.mem_cons_self)
      have below := weakest least' (List.mem_append_right _ List.mem_cons_self)
      omega

theorem WeakestTree.unique {first : Token} {pairs : List (Token × Token)} {e e' : Expr}
    (tree : WeakestTree first pairs e) (tree' : WeakestTree first pairs e') : e = e' := by
  induction tree generalizing e' with
  | single =>
    generalize none : ([] : List (Token × Token)) = pairs at tree'
    cases tree' with
    | single => rfl
    | split => simp at none
  | @split first t second op before behind left right operator weakest rightmost _ _ ihLeft
      ihRight =>
    generalize whole : before ++ (t, second) :: behind = pairs at tree'
    cases tree' with
    | single => simp at whole
    | split operator' weakest' rightmost' leftTree' rightTree' =>
      obtain ⟨rfl, same, rfl⟩ := last_least_unique
        (f := fun pair : Token × Token => strength pair.1.kind)
        whole weakest rightmost weakest' rightmost'
      cases same
      cases operator.symm.trans operator'
      rw [ihLeft leftTree', ihRight rightTree']

/-! ### Where the tree of a chain splits -/

/-- A chain of 乘 and 除 is one product. -/
theorem collapse_products (first : Expr) {links : List Link}
    (all : ∀ link ∈ links, link.op.isMultiplicative = true) :
    collapse Operator.isMultiplicative first links = (Chain.tree ⟨first, links⟩, []) := by
  simp only [Chain.tree, collapse_all all, collapse, List.foldl_nil]

/-- A chain without comparisons is one sum. -/
theorem collapse_sums (first : Expr) {links : List Link}
    (none : ∀ link ∈ links, isComparison link.op = false) :
    collapse Operator.isAdditive (collapse Operator.isMultiplicative first links).1
      (collapse Operator.isMultiplicative first links).2 = (Chain.tree ⟨first, links⟩, []) := by
  have sums : ∀ link ∈ (collapse Operator.isMultiplicative first links).2,
      link.op.isAdditive = true := by
    intro link member
    obtain ⟨apart, origin, among, same⟩ := collapse_links member
    have sum := none origin among
    rw [same, isComparison, apart] at sum
    simpa using sum
  simp only [Chain.tree, collapse_all sums, List.foldl_nil]

section

variable {first operand : Expr} {before behind : List Link} {t : Token} {op : Operator}

theorem tree_split_product (weakest : ∀ link ∈ before, link.op.isMultiplicative = true)
    (product : op.isMultiplicative = true) :
    Chain.tree ⟨first, before ++ [⟨t, op, operand⟩]⟩ =
      .binary t op (Chain.tree ⟨first, before⟩) operand := by
  have all : ∀ link ∈ before ++ [⟨t, op, operand⟩], link.op.isMultiplicative = true := by
    simpa [or_imp, forall_and] using ⟨weakest, product⟩
  have whole := collapse_products first all
  rw [collapse_append (collapse_products first weakest), collapse, if_pos product,
    collapse] at whole
  exact (congrArg Prod.fst whole).symm

theorem tree_split_sum (weakest : ∀ link ∈ before, isComparison link.op = false)
    (sum : op.isAdditive = true)
    (rightmost : ∀ link ∈ behind, link.op.isMultiplicative = true) :
    Chain.tree ⟨first, before ++ ⟨t, op, operand⟩ :: behind⟩ =
      .binary t op (Chain.tree ⟨first, before⟩) (Chain.tree ⟨operand, behind⟩) := by
  have apart : op.isMultiplicative = false := by
    cases op <;> first | rfl | cases sum
  have none : ∀ link ∈ before ++ ⟨t, op, operand⟩ :: behind, isComparison link.op = false := by
    intro link member
    rcases List.mem_append.mp member with front | back
    · exact weakest link front
    · rcases List.mem_cons.mp back with rfl | back
      · rw [isComparison, sum, Bool.not_true, Bool.and_false]
      · rw [isComparison, rightmost link back, Bool.not_true, Bool.false_and]
  have whole := collapse_sums first none
  rw [collapse_append_apart apart, collapse_products operand rightmost,
    collapse_append (collapse_sums first weakest), collapse, if_pos sum, collapse] at whole
  exact (congrArg Prod.fst whole).symm

theorem tree_split_comparison (compared : isComparison op = true)
    (rightmost : ∀ link ∈ behind, isComparison link.op = false) :
    Chain.tree ⟨first, before ++ ⟨t, op, operand⟩ :: behind⟩ =
      .binary t op (Chain.tree ⟨first, before⟩) (Chain.tree ⟨operand, behind⟩) := by
  have apart : op.isMultiplicative = false ∧ op.isAdditive = false := by
    simpa only [isComparison, Bool.and_eq_true, Bool.not_eq_true'] using compared
  have whole := tree_eq_collapse ⟨first, before ++ ⟨t, op, operand⟩ :: behind⟩
  simp only [collapse_append_apart apart.1, collapse_append_apart apart.2,
    collapse_sums operand rightmost] at whole
  rw [collapse_append (tree_eq_collapse ⟨first, before⟩), collapse, if_pos compared, collapse]
    at whole
  exact (congrArg Prod.fst whole).symm

end

/-- The classes of an operator, by the strength of its token. -/
theorem classes_of_strength {kind : TokenKind} {op : Operator}
    (operator : Operator.ofKind? kind = some op) :
    op.isMultiplicative = decide (strength kind = 2) ∧
      op.isAdditive = decide (strength kind = 1) ∧ isComparison op = decide (strength kind = 0) ∧
      strength kind ≤ 2 := by
  cases kind <;> cases operator <;> decide

/-- **The tree of a chain splits at its weakest operator,** the rightmost of them. -/
theorem tree_split {first operand : Expr} {before behind : List Link} {t : Token} {op : Operator}
    (operators : ∀ link ∈ before ++ ⟨t, op, operand⟩ :: behind,
      Operator.ofKind? link.token.kind = some link.op)
    (weakest : ∀ link ∈ before, strength t.kind ≤ strength link.token.kind)
    (rightmost : ∀ link ∈ behind, strength t.kind < strength link.token.kind) :
    Chain.tree ⟨first, before ++ ⟨t, op, operand⟩ :: behind⟩ =
      .binary t op (Chain.tree ⟨first, before⟩) (Chain.tree ⟨operand, behind⟩) := by
  have operator : Operator.ofKind? t.kind = some op := operators ⟨t, op, operand⟩ (by simp)
  obtain ⟨product, sum, compared, most⟩ := classes_of_strength operator
  have front := fun link member => classes_of_strength
    (operators link (List.mem_append_left _ member))
  have back := fun link member => classes_of_strength
    (operators link (List.mem_append_right _ (List.mem_cons_of_mem _ member)))
  rcases Nat.lt_trichotomy (strength t.kind) 1 with weak | middle | strong
  · -- a comparison: no other one stands behind it
    refine tree_split_comparison (compared.trans (decide_eq_true (by omega))) ?_
    intro link member
    have stronger := rightmost link member
    exact (back link member).2.2.1.trans (decide_eq_false (by omega))
  · -- 加 or 減: no comparison at all, and only 乘 and 除 behind it
    refine tree_split_sum ?_ (sum.trans (decide_eq_true middle)) ?_
    · intro link member
      have noWeaker := weakest link member
      exact (front link member).2.2.1.trans (decide_eq_false (by omega))
    · intro link member
      have stronger := rightmost link member
      have most' := (back link member).2.2.2
      exact (back link member).1.trans (decide_eq_true (by omega))
  · -- 乘 or 除: nothing is stronger, so nothing stands behind it
    have none : behind = [] := by
      refine List.eq_nil_iff_forall_not_mem.mpr fun link member => ?_
      have stronger := rightmost link member
      have most' := (back link member).2.2.2
      omega
    subst none
    refine tree_split_product ?_ (product.trans (decide_eq_true (by omega)))
    intro link member
    have noWeaker := weakest link member
    have most' := (front link member).2.2.2
    exact (front link member).1.trans (decide_eq_true (by omega))

/-! ### Reading a sequence -/

/-- The link of an operator and the single operand behind it. -/
def pairLink (pair : Token × Token) : Link :=
  ⟨pair.1, (Operator.ofKind? pair.1.kind).getD .eq, leaf pair.2⟩

theorem ofKind?_pairLink {pair : Token × Token} (operator : isOperator pair.1.kind = true) :
    Operator.ofKind? pair.1.kind = some (pairLink pair).op := by
  obtain ⟨op, stands⟩ := Option.isSome_iff_exists.mp operator
  rw [pairLink, stands, Option.getD_some]

theorem leaves_leaf {site : Site} {x : Token} {ts : List Token} (single : isLeaf x = true) :
    Leaves (operand site (x :: ts)) (leaf x) ts := by
  rw [leaves_operand]
  unfold isLeaf at single
  unfold leaf
  split at single
  next number =>
    rw [number]
    exact .inl ⟨rfl, leaves_numeral.mpr (.inl ⟨single, rfl, rfl⟩)⟩
  next string =>
    rw [string]
    exact .inr (.inl ⟨rfl, rfl, rfl⟩)
  next name =>
    rw [name]
    exact .inr (.inr (.inl ⟨rfl, rfl, rfl⟩))
  next => cases single

/-- A sequence is read as the chain of its operators and operands. -/
theorem leaves_sequence {site : Site} {first : Token} {pairs : List (Token × Token)}
    {after : List Token} (operands : ∀ x ∈ first :: pairs.map Prod.snd, isLeaf x = true)
    (operators : ∀ pair ∈ pairs, isOperator pair.1.kind = true)
    (ends : NotNext isOperator after) :
    Leaves (chain site (sequence first pairs ++ after)) ⟨leaf first, pairs.map pairLink⟩ after := by
  induction pairs generalizing first with
  | nil =>
    exact leaves_chain.mpr ⟨after, leaves_leaf (operands first List.mem_cons_self),
      .inl ⟨ends, rfl, rfl⟩⟩
  | cons pair pairs ih =>
    have rest : Leaves (chain site (sequence pair.2 pairs ++ after))
        ⟨leaf pair.2, pairs.map pairLink⟩ after :=
      ih (fun x member => operands x (List.mem_cons_of_mem _ member)) fun other member =>
        operators other (List.mem_cons_of_mem _ member)
    exact leaves_chain.mpr ⟨pair.1 :: (sequence pair.2 pairs ++ after),
      leaves_leaf (operands first List.mem_cons_self),
      .inr ⟨_, _, _, _, rfl, ofKind?_pairLink (operators pair List.mem_cons_self), rest, rfl⟩⟩

/-- The tree of that chain is split at the weakest operator all the way down. -/
theorem weakestTree_tree (first : Token) {pairs : List (Token × Token)}
    (operators : ∀ pair ∈ pairs, isOperator pair.1.kind = true) :
    WeakestTree first pairs (Chain.tree ⟨leaf first, pairs.map pairLink⟩) := by
  by_cases single : pairs = []
  · subst single
    exact .single
  · obtain ⟨before, ⟨t, second⟩, behind, split, weakest, rightmost⟩ :=
      exists_last_least (fun pair : Token × Token => strength pair.1.kind) single
    subst split
    have front : ∀ pair ∈ before, isOperator pair.1.kind = true := fun pair member =>
      operators pair (List.mem_append_left _ member)
    have back : ∀ pair ∈ behind, isOperator pair.1.kind = true := fun pair member =>
      operators pair (List.mem_append_right _ (List.mem_cons_of_mem _ member))
    have whole : Chain.tree ⟨leaf first, (before ++ (t, second) :: behind).map pairLink⟩ =
        .binary t (pairLink (t, second)).op (Chain.tree ⟨leaf first, before.map pairLink⟩)
          (Chain.tree ⟨leaf second, behind.map pairLink⟩) := by
      rw [List.map_append, List.map_cons]
      apply tree_split
      · rw [← pairLink, ← List.map_cons, ← List.map_append]
        exact List.forall_mem_map.mpr fun pair member => ofKind?_pairLink (operators pair member)
      · exact List.forall_mem_map.mpr weakest
      · exact List.forall_mem_map.mpr rightmost
    rw [whole]
    exact .split (ofKind?_pairLink (operators (t, second) (by simp))) weakest rightmost
      (weakestTree_tree first front) (weakestTree_tree second back)
termination_by pairs.length
decreasing_by all_goals subst_vars; simp only [List.length_append, List.length_cons]; omega

/-- **Precedence and associativity.** A sequence of single operands with operators between them,
before a token that is no operator, is taken whole and read as the tree whose root is the rightmost
of its weakest operators, and so on in both parts; there is no other such tree. -/
theorem expression_weakest (site : Site) (first : Token) (pairs : List (Token × Token))
    {after : List Token} (operands : ∀ x ∈ first :: pairs.map Prod.snd, isLeaf x = true)
    (operators : ∀ pair ∈ pairs, isOperator pair.1.kind = true)
    (ends : NotNext isOperator after) :
    ∃ e, Leaves (expression site (sequence first pairs ++ after)) e after ∧
      WeakestTree first pairs e ∧ ∀ e', WeakestTree first pairs e' → e' = e := by
  have tree := weakestTree_tree first operators
  exact ⟨_, leaves_expression.mpr ⟨_, leaves_sequence operands operators ends, rfl⟩, tree,
    fun _ tree' => tree'.unique tree⟩

/-- 甲 減 乙 減 丙 乘 丁 也: the second 減 is the root, the first one its left part. -/
theorem expression_weakest_differences :
    let name (text : Text) : Token := ⟨.identifier, text, .nowhere⟩
    let minus : Token := ⟨.minus, "減", .nowhere⟩
    let times : Token := ⟨.times, "乘", .nowhere⟩
    let close : Token := ⟨.close, "也", .nowhere⟩
    Leaves (expression ⟨close, .none, false, false⟩
        (sequence (name "甲") [(minus, name "乙"), (minus, name "丙"), (times, name "丁")] ++ [close]))
      (.binary minus .sub
        (.binary minus .sub (.use (name "甲") none) (.use (name "乙") none))
        (.binary times .mul (.use (name "丙") none) (.use (name "丁") none))) [close] := by
  intro name minus times close
  have ends : NotNext isOperator [close] := notNext_cons.mpr rfl
  have two (first t second : Token) (op : Operator) (operator : Operator.ofKind? t.kind = some op) :
      WeakestTree first ([] ++ [(t, second)]) (.binary t op (leaf first) (leaf second)) :=
    .split operator (by simp) (by simp) .single .single
  have differences : WeakestTree (name "甲")
      ([(minus, name "乙")] ++ [(minus, name "丙"), (times, name "丁")]) _ :=
    .split rfl (by decide) (by decide) (two _ _ _ .sub rfl) (two _ _ _ .mul rfl)
  obtain ⟨e, read, -, unique⟩ := expression_weakest ⟨close, .none, false, false⟩
    (name "甲") [(minus, name "乙"), (minus, name "丙"), (times, name "丁")] (by decide)
    (by decide) ends
  rw [← unique _ differences] at read
  exact read

end Grammar

end Guwen
