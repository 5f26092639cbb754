/-
**Reading expressions, against the grammar.**

`Leaves` says that a reader succeeds and what it leaves; each reader has one lemma that opens it,
`leaves_numeral` to `leaves_expression`, and nothing below unfolds a reader again.

* `expression_sound` — what the reader takes is spelt by the grammar, with the same tree.
* `expression_complete` — what the grammar spells is taken whole, when neither a number nor an
  operator follows. The argument goes by the rules of the grammar (`spells_taken`): operands are
  taken as they stand, and each level of operators gives a chain.
-/
import Guwen.Proofs.Grammar.Precedence

namespace Guwen

namespace Grammar

/-! ### Success of a reader -/

/-- The reading succeeds with `a` and leaves `rest`. -/
def Leaves {α : Type} {p : List Token → Prop} (reading : Except Diagnostic (α × Subtype p)) (a : α)
    (rest : List Token) : Prop :=
  ∃ within, reading = .ok (a, ⟨rest, within⟩)

section

variable {α β : Type} {p q : List Token → Prop} {a : α} {rest : List Token}

theorem Leaves.within {reading : Except Diagnostic (α × Subtype p)}
    (leaves : Leaves reading a rest) : p rest := leaves.1

theorem leaves_ok {b : α} {left : Subtype p} :
    Leaves (.ok (b, left)) a rest ↔ b = a ∧ left.1 = rest := by
  constructor
  · rintro ⟨within, same⟩
    cases same
    exact ⟨rfl, rfl⟩
  · rintro ⟨rfl, rfl⟩
    exact ⟨left.2, rfl⟩

theorem leaves_pure {b : α} {left : Subtype p} :
    Leaves (pure (b, left)) a rest ↔ b = a ∧ left.1 = rest := leaves_ok

theorem not_leaves_error {d : Diagnostic} :
    ¬ Leaves (.error d : Except Diagnostic (α × Subtype p)) a rest := by
  rintro ⟨within, same⟩
  cases same

theorem leaves_bind {m : Except Diagnostic (β × Subtype q)}
    {f : β × Subtype q → Except Diagnostic (α × Subtype p)} :
    Leaves (m >>= f) a rest ↔
      ∃ b mid, ∃ read : Leaves m b mid, Leaves (f (b, ⟨mid, read.within⟩)) a rest := by
  constructor
  · rintro ⟨within, same⟩
    cases m with
    | error d => cases same
    | ok read => exact ⟨read.1, read.2.1, ⟨read.2.2, rfl⟩, within, same⟩
  · rintro ⟨b, mid, ⟨within, rfl⟩, last⟩
    exact last

end

/-! ### The readers, opened -/

/-- A token that is a number. -/
def isNumber : TokenKind → Bool
  | .number => true
  | _ => false

theorem notNext_cons {kinds : TokenKind → Bool} {t : Token} {ts : List Token} :
    NotNext kinds (t :: ts) ↔ kinds t.kind = false := by
  simp [NotNext]

theorem leaves_operand {site : Site} {t : Token} {ts rest : List Token} {e : Expr} :
    Leaves (operand site (t :: ts)) e rest ↔
      (t.kind = .number ∧ Leaves (numeral site t ts) e rest) ∨
      (t.kind = .string ∧ .literal t .string t.lexeme = e ∧ ts = rest) ∨
      (t.kind = .identifier ∧ .use t none = e ∧ ts = rest) ∨
      (t.kind = .apply ∧ Leaves (call site t ts) e rest) := by
  rw [operand]
  split
  next number =>
    rw [leaves_bind]
    simp only [number, leaves_pure, Within.behind]
    constructor
    · rintro ⟨_, _, read, rfl, rfl⟩
      exact .inl ⟨trivial, read⟩
    · rintro (⟨-, read⟩ | ⟨absurd, -⟩ | ⟨absurd, -⟩ | ⟨absurd, -⟩)
      · exact ⟨e, rest, read, rfl, rfl⟩
      all_goals cases absurd
  next string =>
    simp [string, leaves_ok, Rest.tail]
  next name =>
    simp [name, leaves_ok, Rest.tail]
  next apply =>
    rw [leaves_bind]
    simp only [apply, leaves_pure, Rest.behind]
    constructor
    · rintro ⟨_, _, read, rfl, rfl⟩
      exact .inr (.inr (.inr ⟨trivial, read⟩))
    · rintro (⟨absurd, -⟩ | ⟨absurd, -⟩ | ⟨absurd, -⟩ | ⟨-, read⟩)
      · cases absurd
      · cases absurd
      · cases absurd
      · exact ⟨e, rest, read, rfl, rfl⟩
  next number string name apply =>
    refine iff_of_false not_leaves_error ?_
    rintro (⟨is, -⟩ | ⟨is, -⟩ | ⟨is, -⟩ | ⟨is, -⟩)
    · exact number is
    · exact string is
    · exact name is
    · exact apply is

theorem opensArguments_iff {kind : TokenKind} :
    opensArguments kind = true ↔ kind = .toward ∨ kind = .taking := by
  cases kind <;> simp [opensArguments]

theorem leaves_call {site : Site} {k c : Token} {ts rest : List Token} {e : Expr} :
    Leaves (call site k (c :: ts)) e rest ↔
      (c.kind = .identifier ∨ c.kind = .string) ∧
        ((NotNext opensArguments ts ∧ .call k c [] none = e ∧ ts = rest) ∨
          ∃ mark us es, ts = mark :: us ∧ opensArguments mark.kind = true ∧
            Leaves (arguments site us) es rest ∧ .call k c es none = e) := by
  unfold call
  by_cases called : c.kind = .identifier ∨ c.kind = .string
  · rw [if_pos called, and_iff_right called]
    cases ts with
    | nil => simp [leaves_ok, NotNext, Rest.tail]
    | cons mark us =>
      simp only [← opensArguments_iff]
      by_cases opens : opensArguments mark.kind = true
      · rw [if_pos opens, leaves_bind]
        simp only [leaves_pure, Rest.behind]
        constructor
        · rintro ⟨es, _, values, rfl, rfl⟩
          exact .inr ⟨mark, us, es, rfl, opens, values, rfl⟩
        · rintro (⟨clear, -⟩ | ⟨mark', us', es, same, -, values, rfl⟩)
          · rw [clear mark rfl] at opens
            cases opens
          · cases same
            exact ⟨es, rest, values, rfl, rfl⟩
      · rw [if_neg opens, leaves_ok]
        constructor
        · rintro ⟨rfl, rfl⟩
          refine .inl ⟨?_, rfl, rfl⟩
          rintro t ⟨⟩
          exact Bool.eq_false_iff.mpr opens
        · rintro (⟨-, rfl, rfl⟩ | ⟨mark', us', es, same, opens', -⟩)
          · exact ⟨rfl, rfl⟩
          · cases same
            exact absurd opens' opens
  · rw [if_neg called]
    exact iff_of_false not_leaves_error fun both => called both.1

theorem leaves_chain {site : Site} {ts rest : List Token} {c : Chain} :
    Leaves (chain site ts) c rest ↔ ∃ mid, Leaves (operand site ts) c.first mid ∧
      ((NotNext isOperator mid ∧ c.links = [] ∧ mid = rest) ∨
        ∃ t us op more, mid = t :: us ∧ Operator.ofKind? t.kind = some op ∧
          Leaves (chain site us) more rest ∧ c.links = ⟨t, op, more.first⟩ :: more.links) := by
  rw [chain, leaves_bind]
  obtain ⟨head, links⟩ := c
  constructor
  · rintro ⟨e, mid, first, last⟩
    cases mid with
    | nil =>
      obtain ⟨same, rfl⟩ := leaves_pure.mp last
      cases same
      exact ⟨[], first, .inl ⟨by simp [NotNext], rfl, rfl⟩⟩
    | cons t us =>
      simp only at last
      split at last
      next none =>
        obtain ⟨same, rfl⟩ := leaves_pure.mp last
        cases same
        exact ⟨t :: us, first, .inl ⟨by simp [NotNext, isOperator, none], rfl, rfl⟩⟩
      next op operator =>
        obtain ⟨more, mid, next, last⟩ := leaves_bind.mp last
        obtain ⟨same, rfl⟩ := leaves_pure.mp last
        cases same
        exact ⟨t :: us, first, .inr ⟨t, us, op, more, rfl, operator, next, rfl⟩⟩
  · rintro ⟨mid, first, ⟨clear, rfl, rfl⟩ | ⟨t, us, op, more, rfl, operator, next, rfl⟩⟩
    · refine ⟨head, mid, first, ?_⟩
      cases mid with
      | nil => exact leaves_pure.mpr ⟨rfl, rfl⟩
      | cons t us =>
        have none : Operator.ofKind? t.kind = none := by
          simpa [NotNext, isOperator] using clear
        simp only [none]
        exact leaves_pure.mpr ⟨rfl, rfl⟩
    · refine ⟨head, t :: us, first, ?_⟩
      simp only [operator]
      exact leaves_bind.mpr ⟨more, rest, next, leaves_pure.mpr ⟨rfl, rfl⟩⟩

theorem separatesArguments_iff {kind : TokenKind} :
    separatesArguments kind = true ↔ kind = .comma ∨ kind = .toward ∨ kind = .taking := by
  cases kind <;> simp [separatesArguments]

theorem leaves_arguments {site : Site} {ts rest : List Token} {es : List Expr} :
    Leaves (arguments site ts) es rest ↔ ∃ c mid, Leaves (chain site ts) c mid ∧
      ((NotNext separatesArguments mid ∧ [c.tree] = es ∧ mid = rest) ∨
        ∃ t us more, mid = t :: us ∧ separatesArguments t.kind = true ∧
          Leaves (arguments site us) more rest ∧ c.tree :: more = es) := by
  rw [arguments, leaves_bind]
  constructor
  · rintro ⟨c, mid, first, last⟩
    refine ⟨c, mid, first, ?_⟩
    cases mid with
    | nil =>
      obtain ⟨rfl, rfl⟩ := leaves_pure.mp last
      exact .inl ⟨by simp [NotNext], rfl, rfl⟩
    | cons t us =>
      simp only [← separatesArguments_iff] at last
      by_cases separates : separatesArguments t.kind = true
      · rw [if_pos separates] at last
        obtain ⟨more, mid, next, last⟩ := leaves_bind.mp last
        obtain ⟨rfl, rfl⟩ := leaves_pure.mp last
        exact .inr ⟨t, us, more, rfl, separates, next, rfl⟩
      · rw [if_neg separates] at last
        obtain ⟨rfl, rfl⟩ := leaves_pure.mp last
        exact .inl ⟨by simpa [NotNext] using separates, rfl, rfl⟩
  · rintro ⟨c, mid, first, ⟨clear, rfl, rfl⟩ | ⟨t, us, more, rfl, separates, next, rfl⟩⟩
    · refine ⟨c, mid, first, ?_⟩
      cases mid with
      | nil => exact leaves_pure.mpr ⟨rfl, rfl⟩
      | cons t us =>
        have apart : ¬ separatesArguments t.kind = true := by simpa [NotNext] using clear
        simp only [← separatesArguments_iff]
        rw [if_neg apart]
        exact leaves_pure.mpr ⟨rfl, rfl⟩
    · refine ⟨c, t :: us, first, ?_⟩
      simp only [← separatesArguments_iff]
      rw [if_pos separates]
      exact leaves_bind.mpr ⟨more, rest, next, leaves_pure.mpr ⟨rfl, rfl⟩⟩

theorem leaves_expression {site : Site} {ts rest : List Token} {e : Expr} :
    Leaves (expression site ts) e rest ↔ ∃ c, Leaves (chain site ts) c rest ∧ c.tree = e := by
  rw [expression, leaves_bind]
  constructor
  · rintro ⟨c, mid, read, last⟩
    obtain ⟨rfl, rfl⟩ := leaves_pure.mp last
    exact ⟨c, read, rfl⟩
  · rintro ⟨c, read, rfl⟩
    exact ⟨c, rest, read, leaves_pure.mpr ⟨rfl, rfl⟩⟩

theorem leaves_numeral {site : Site} {t : Token} {ts rest : List Token} {e : Expr} :
    Leaves (numeral site t ts) e rest ↔
      (isArabic t = true ∧ .literal t .number t.lexeme = e ∧ ts = rest) ∨
      (isArabic t = false ∧ ∃ value,
        Numeral.value? (Text.chars ((t :: (glyphRun t ts).1).flatMap Token.lexeme)) = some value ∧
          .literal t .number (Text.ofNat value) = e ∧ (glyphRun t ts).2 = rest) := by
  unfold numeral numeralValue
  rw [List.flatMap_cons]
  by_cases arabic : isArabic t = true
  · rw [if_pos arabic]
    simp [leaves_ok, arabic]
  · rw [if_neg arabic]
    cases value :
        Numeral.value? (Text.chars (t.lexeme ++ (glyphRun t ts).1.flatMap Token.lexeme)) with
    | none => simp [value, arabic, not_leaves_error]
    | some n => simp [value, arabic, leaves_ok]

/-! ### Runs of glyphs -/

/-- A run of glyphs and what follows it make up the tokens it was taken from. -/
theorem glyphRun_append (last : Token) (ts : List Token) :
    (glyphRun last ts).1 ++ (glyphRun last ts).2 = ts := by
  induction ts generalizing last with
  | nil => rfl
  | cons t ts ih =>
    unfold glyphRun
    split
    · rw [List.cons_append, ih t]
    · rfl

theorem glyphRun_isChain (last : Token) (ts : List Token) :
    List.IsChain GoesOn (last :: (glyphRun last ts).1) := by
  induction ts generalizing last with
  | nil => exact .singleton _
  | cons t ts ih =>
    unfold glyphRun
    split
    next goes =>
      simp only [Bool.and_eq_true, decide_eq_true_eq, Bool.not_eq_true'] at goes
      exact .cons_cons ⟨goes.1.1, goes.1.2, goes.2⟩ (ih t)
    next => exact .singleton _

/-- A run of glyphs is taken whole when no number follows it. -/
theorem glyphRun_of_isChain {last : Token} {run after : List Token}
    (together : List.IsChain GoesOn (last :: run)) (ends : NotNext isNumber after) :
    glyphRun last (run ++ after) = (run, after) := by
  induction run generalizing last with
  | nil =>
    cases after with
    | nil => rfl
    | cons t ts =>
      have other : t.kind ≠ .number := by
        intro number
        have := ends t rfl
        rw [number] at this
        cases this
      simp [glyphRun, other]
  | cons t run ih =>
    rw [List.isChain_cons_cons] at together
    obtain ⟨⟨number, glyph, next⟩, rest⟩ := together
    simp [glyphRun, number, glyph, next, ih rest]

/-! ### What the readers take is spelt by the grammar -/

theorem numeral_sound {site : Site} {t : Token} {ts rest : List Token} {e : Expr}
    (number : t.kind = .number) (read : Leaves (numeral site t ts) e rest) :
    ∃ used, ts = used ++ rest ∧ Spells (.operand e) (t :: used) rest := by
  rcases leaves_numeral.mp read with ⟨arabic, rfl, rfl⟩ | ⟨glyph, value, reads, rfl, rfl⟩
  · exact ⟨[], rfl, .arabic number arabic⟩
  · exact ⟨(glyphRun t ts).1, (glyphRun_append t ts).symm,
      .glyphs number glyph (glyphRun_isChain t ts) reads⟩

mutual

theorem operand_sound {site : Site} {ts rest : List Token} {e : Expr}
    (read : Leaves (operand site ts) e rest) :
    ∃ used, ts = used ++ rest ∧ Spells (.operand e) used rest := by
  cases ts with
  | nil =>
    rw [operand] at read
    exact absurd read not_leaves_error
  | cons t ts =>
    rcases leaves_operand.mp read with
      ⟨number, read⟩ | ⟨string, rfl, rfl⟩ | ⟨name, rfl, rfl⟩ | ⟨keyword, read⟩
    · obtain ⟨used, rfl, spelt⟩ := numeral_sound number read
      exact ⟨t :: used, rfl, spelt⟩
    · exact ⟨[t], rfl, .string string⟩
    · exact ⟨[t], rfl, .name name⟩
    · obtain ⟨used, rfl, spelt⟩ := call_sound keyword read
      exact ⟨t :: used, rfl, spelt⟩
termination_by 4 * ts.length
decreasing_by subst_vars; simp only [List.length_cons]; omega

theorem call_sound {site : Site} {k : Token} {ts rest : List Token} {e : Expr}
    (keyword : k.kind = .apply) (read : Leaves (call site k ts) e rest) :
    ∃ used, ts = used ++ rest ∧ Spells (.operand e) (k :: used) rest := by
  cases ts with
  | nil =>
    rw [call] at read
    exact absurd read not_leaves_error
  | cons callee ts =>
    obtain ⟨called, ⟨bare, rfl, rfl⟩ | ⟨mark, us, es, rfl, opens, values, rfl⟩⟩ :=
      leaves_call.mp read
    · exact ⟨[callee], rfl, .bareCall keyword called bare⟩
    · obtain ⟨used, rfl, spelt⟩ := arguments_sound values
      exact ⟨callee :: mark :: used, rfl, .call keyword called opens spelt⟩
termination_by 4 * ts.length + 3
decreasing_by subst_vars; simp only [List.length_cons]; omega

theorem chain_sound {site : Site} {ts rest : List Token} {c : Chain}
    (read : Leaves (chain site ts) c rest) :
    ∃ used, ts = used ++ rest ∧ NotNext isOperator rest ∧
      Strung (fun e => Spells (.operand e)) (fun e => Spells (.operand e)) c.first c.links
        used rest := by
  obtain ⟨mid, first, last⟩ := leaves_chain.mp read
  have shorter : mid.length < ts.length := first.within
  obtain ⟨used, split, spelt⟩ := operand_sound first
  rcases last with ⟨clear, none, rfl⟩ | ⟨t, us, op, more, rfl, operator, next, links⟩
  · refine ⟨used, split, clear, ?_⟩
    rw [none]
    exact spelt
  · obtain ⟨used', rfl, clear, strung⟩ := chain_sound next
    refine ⟨used ++ t :: used', ?_, clear, ?_⟩
    · rw [split, List.append_assoc, List.cons_append]
    · rw [links]
      exact ⟨used, used', rfl, operator, spelt, strung⟩
termination_by 4 * ts.length + 1
decreasing_by
  · omega
  · simp only [List.length_cons] at shorter; omega

theorem arguments_sound {site : Site} {ts rest : List Token} {es : List Expr}
    (read : Leaves (arguments site ts) es rest) :
    ∃ used, ts = used ++ rest ∧ Spells (.arguments es) used rest := by
  obtain ⟨c, mid, first, last⟩ := leaves_arguments.mp read
  have shorter : mid.length < ts.length := first.within
  obtain ⟨used, split, clear, strung⟩ := chain_sound first
  rcases last with ⟨ends, rfl, rfl⟩ | ⟨t, us, more, rfl, separates, next, rfl⟩
  · refine ⟨used, split, .lastArgument (spells_tree strung) fun t head => ?_⟩
    rw [extendsArguments, ends t head, clear t head]
    rfl
  · obtain ⟨used', rfl, spelt⟩ := arguments_sound next
    refine ⟨used ++ t :: used', ?_, .argument (spells_tree strung) separates spelt⟩
    rw [split, List.append_assoc, List.cons_append]
termination_by 4 * ts.length + 2
decreasing_by
  · omega
  · simp only [List.length_cons] at shorter; omega

end

theorem expression_sound {site : Site} {ts rest : List Token} {e : Expr}
    (read : Leaves (expression site ts) e rest) :
    ∃ used, ts = used ++ rest ∧ Spells (.expression e) used rest := by
  obtain ⟨c, chained, rfl⟩ := leaves_expression.mp read
  obtain ⟨used, split, -, strung⟩ := chain_sound chained
  exact ⟨used, split, spells_tree strung⟩

/-! ### What the grammar spells is taken by the readers -/

/-- The operand reader takes the tokens as `e` and stops at `after`, unless a number follows. -/
def TakesOperand (e : Expr) (ts after : List Token) : Prop :=
  NotNext isNumber after → ∀ site, Leaves (operand site (ts ++ after)) e after

theorem isNumber_of_isOperator {kind : TokenKind} (operator : isOperator kind = true) :
    isNumber kind = false := by
  cases kind <;> first | rfl | cases operator

theorem chain_complete {first : Expr} {links : List Link} {ts after : List Token}
    (strung : Strung TakesOperand TakesOperand first links ts after)
    (number : NotNext isNumber after) (operator : NotNext isOperator after) (site : Site) :
    Leaves (chain site (ts ++ after)) ⟨first, links⟩ after := by
  induction links generalizing first ts with
  | nil => exact leaves_chain.mpr ⟨after, strung number site, .inl ⟨operator, rfl, rfl⟩⟩
  | cons link links ih =>
    obtain ⟨us, vs, rfl, isLink, head, rest⟩ := strung
    refine leaves_chain.mpr ⟨link.token :: (vs ++ after), ?_,
      .inr ⟨link.token, vs ++ after, link.op, ⟨link.operand, links⟩, rfl, isLink, ih rest, rfl⟩⟩
    rw [List.append_assoc, List.cons_append]
    apply head
    rw [notNext_cons]
    apply isNumber_of_isOperator
    rw [isOperator, isLink]
    rfl

/-- **What each phrase means to the readers.** -/
def Taken : Phrase → List Token → List Token → Prop
  | .operand e => TakesOperand e
  | .term e => TermOf TakesOperand e
  | .sum e => SumOf TakesOperand e
  | .expression e => ExpressionOf TakesOperand e
  | .arguments es => fun ts after =>
    NotNext isNumber after → ∀ site, Leaves (arguments site (ts ++ after)) es after

theorem isOperator_of_separates {kind : TokenKind} (separates : separatesArguments kind = true) :
    isOperator kind = false ∧ isNumber kind = false := by
  cases kind <;> first | exact ⟨rfl, rfl⟩ | cases separates

theorem spells_taken {phrase : Phrase} {ts after : List Token}
    (spelt : Spells phrase ts after) : Taken phrase ts after := by
  induction spelt with
  | arabic number arabic =>
    intro _ site
    exact leaves_operand.mpr (.inl ⟨number, leaves_numeral.mpr (.inl ⟨arabic, rfl, rfl⟩)⟩)
  | @glyphs t run after value number glyph together reads =>
    intro ends site
    have whole := glyphRun_of_isChain together ends
    refine leaves_operand.mpr (.inl ⟨number, leaves_numeral.mpr (.inr ⟨glyph, value, ?_, rfl, ?_⟩)⟩)
    · rw [List.append_eq, whole]
      exact reads
    · rw [List.append_eq, whole]
  | string string =>
    intro _ site
    exact leaves_operand.mpr (.inr (.inl ⟨string, rfl, rfl⟩))
  | name name =>
    intro _ site
    exact leaves_operand.mpr (.inr (.inr (.inl ⟨name, rfl, rfl⟩)))
  | bareCall keyword called bare =>
    intro _ site
    exact leaves_operand.mpr (.inr (.inr (.inr ⟨keyword,
      leaves_call.mpr ⟨called, .inl ⟨bare, rfl, rfl⟩⟩⟩)))
  | @call k callee mark es ts after keyword called opens values ih =>
    intro ends site
    exact leaves_operand.mpr (.inr (.inr (.inr ⟨keyword, leaves_call.mpr ⟨called,
      .inr ⟨mark, ts ++ after, es, rfl, opens, ih ends site, rfl⟩⟩⟩)))
  | @lastArgument e ts after value last ih =>
    intro ends site
    obtain ⟨c, strung, rfl⟩ := ih
    have clear : NotNext separatesArguments after ∧ NotNext isOperator after := by
      constructor
      · intro t head
        exact (Bool.or_eq_false_iff.mp (last t head)).1
      · intro t head
        exact (Bool.or_eq_false_iff.mp (last t head)).2
    exact leaves_arguments.mpr ⟨c, after, chain_complete strung ends clear.2 site,
      .inl ⟨clear.1, rfl, rfl⟩⟩
  | @argument e es mark ts us after value separates more ihValue ihMore =>
    intro ends site
    obtain ⟨c, strung, rfl⟩ := ihValue
    obtain ⟨operator, number⟩ := isOperator_of_separates separates
    rw [List.append_assoc, List.cons_append]
    exact leaves_arguments.mpr ⟨c, mark :: (us ++ after),
      chain_complete strung (notNext_cons.mpr number) (notNext_cons.mpr operator) site,
      .inr ⟨mark, us ++ after, es, rfl, separates, ihMore ends site, rfl⟩⟩
  | operandTerm operand ih => exact termOf_operand ih
  | product factor operator level operand ihFactor ihOperand =>
    exact termOf_join ihFactor operator level ihOperand
  | termSum term ih => exact sumOf_term ih
  | sum summand operator level term ihSum ihTerm => exact sumOf_join ihSum operator level ihTerm
  | sumExpression sum ih => exact expressionOf_sum ih
  | comparison compared operator level sum ihLeft ihSum =>
    exact expressionOf_join ihLeft operator level ihSum

/-- **An expression is read whole** when neither a number nor an operator follows. -/
theorem expression_complete {e : Expr} {ts after : List Token}
    (spelt : Spells (.expression e) ts after) (number : NotNext isNumber after)
    (operator : NotNext isOperator after) (site : Site) :
    Leaves (expression site (ts ++ after)) e after := by
  obtain ⟨c, strung, tree⟩ := spells_taken spelt
  exact leaves_expression.mpr ⟨c, chain_complete strung number operator site, tree⟩

end Grammar

end Guwen
