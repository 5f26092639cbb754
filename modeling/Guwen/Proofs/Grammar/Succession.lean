/-
**Succession: programs one after another.**

The rules look one token ahead and no further, so a derivation depends on the first token that
follows and on nothing else (`Spells.ofHead`, `Forms.ofHead`). Behind 也, 云云 and 之術也 it does
not even depend on that (`Forms.anywhere`).

* `Forms.append` — statements followed by statements form both.
* **`derives_append_iff`** — behind tokens that spell a program and are finished, further tokens are
  read as if they stood alone.
-/
import Guwen.Proofs.Grammar.Transport

namespace Guwen

namespace Grammar

/-! ### Only the next token counts -/

theorem NotNext.ofHead {kinds : TokenKind → Bool} {after other : List Token}
    (clear : NotNext kinds after) (same : other.head? = after.head?) : NotNext kinds other := by
  intro t head
  exact clear t (same ▸ head)

theorem head?_append_congr (ts : List Token) {after other : List Token}
    (same : other.head? = after.head?) : (ts ++ other).head? = (ts ++ after).head? := by
  rw [List.head?_append, List.head?_append, same]

theorem Spells.ofHead {phrase : Phrase} {ts after : List Token} (spelt : Spells phrase ts after)
    {other : List Token} (same : other.head? = after.head?) : Spells phrase ts other := by
  induction spelt generalizing other with
  | arabic number arabic => exact .arabic number arabic
  | glyphs number glyph together reads => exact .glyphs number glyph together reads
  | string string => exact .string string
  | name name => exact .name name
  | bareCall keyword called bare => exact .bareCall keyword called (bare.ofHead same)
  | call keyword called opens _ values => exact .call keyword called opens (values same)
  | lastArgument _ last value => exact .lastArgument (value same) (last.ofHead same)
  | argument _ separates _ value more => exact .argument (value rfl) separates (more same)
  | operandTerm _ operand => exact .operandTerm (operand same)
  | product _ operator level _ factor operand =>
    exact .product (factor rfl) operator level (operand same)
  | termSum _ term => exact .termSum (term same)
  | sum _ operator level _ summand term => exact .sum (summand rfl) operator level (term same)
  | sumExpression _ sum => exact .sumExpression (sum same)
  | comparison _ operator level _ compared sum =>
    exact .comparison (compared rfl) operator level (sum same)

theorem SpellsElements.ofHead {es : List Expr} {ts after : List Token}
    (spelt : SpellsElements es ts after) {other : List Token} (same : other.head? = after.head?) :
    SpellsElements es ts other := by
  induction spelt with
  | last value => exact .last (value.ofHead same)
  | more value comma _ ih => exact .more (value.ofHead rfl) comma (ih same)

theorem SpellsInitial.ofHead {isList : Bool} {value : Option Expr} {ts after : List Token}
    (spelt : SpellsInitial isList value ts after) {other : List Token}
    (same : other.head? = after.head?) : SpellsInitial isList value ts other := by
  cases spelt with
  | absent => exact .absent
  | present keyword value =>
    refine .present keyword ?_
    cases value with
    | single value => exact .single (value.ofHead same)
    | reference value reference => exact .reference (value.ofHead same) reference
    | list values proper => exact .list (values.ofHead same) proper

theorem Forms.ofHead {clause : Clause} {place : Place} {ts after : List Token}
    (formed : Forms clause place ts after) {other : List Token}
    (same : other.head? = after.head?) : Forms clause place ts other := by
  induction formed generalizing other with
  | declare keyword isType named initial closes =>
    exact .declare keyword isType named (initial.ofHead rfl) closes
  | @print _ _ _ _ closing _ keyword value closes =>
    exact .print keyword (value.ofHead (head?_append_congr closing same)) closes
  | @conditional _ _ _ closing _ _ _ _ us marks vs after keyword condition is _ otherwise _ closes
      ihFirst ihSecond =>
    have next : (marks ++ (vs ++ closing :: other)).head? =
        (marks ++ (vs ++ closing :: after)).head? :=
      head?_append_congr marks (head?_append_congr vs rfl)
    exact .conditional keyword (condition.ofHead rfl) is (ihFirst next) otherwise (ihSecond rfl)
      closes
  | loop keyword _ closes ih => exact .loop keyword (ih rfl) closes
  | @function _ _ _ _ _ _ _ _ _ _ closing _ keyword named first params second _ closes ih =>
    exact .function keyword named first params second (ih (head?_append_congr closing same)) closes
  | @returnValue _ _ _ _ closing _ keyword inside value closes =>
    exact .returnValue keyword inside (value.ofHead (head?_append_congr closing same)) closes
  | @returnNothing _ _ closing _ keyword inside nothing closes =>
    exact .returnNothing keyword inside (nothing.ofHead (head?_append_congr closing same)) closes
  | breaks keyword inside closes => exact .breaks keyword inside closes
  | @perform _ _ _ _ closing _ keyword call closes =>
    exact .perform keyword (call.ofHead (head?_append_congr closing same)) closes
  | @assign _ _ _ _ _ closing _ named is value closes =>
    exact .assign named is (value.ofHead (head?_append_congr closing same)) closes
  | none => exact .none
  | @more _ _ _ _ us _ _ _ ihFirst ihRest =>
    exact .more (ihFirst (head?_append_congr us same)) (ihRest same)

/-! ### Behind a finished statement -/

/-- **What follows a finished statement does not matter.** -/
theorem Forms.anywhere {s : Stmt} {place : Place} {ts after : List Token}
    (formed : Forms (.statement s) place ts after) (finished : Finished ts) (other : List Token) :
    Forms (.statement s) place ts other := by
  cases formed with
  | declare keyword isType named initial closes =>
    exact .declare keyword isType named (initial.ofHead rfl) closes
  | @print _ k _ ts closing _ keyword value closes =>
    have closed := ne_nil_of_finished (unfinished_cons (by rw [keyword]; rfl) value)
      (List.cons_ne_nil k ts) finished
    obtain ⟨t, is, rfl⟩ := closes.resolve_left closed
    exact .print keyword (value.ofHead rfl) closes
  | @conditional _ _ _ closing _ _ _ _ us marks vs after keyword condition is first otherwise second
      closes =>
    have next : (marks ++ (vs ++ closing :: other)).head? =
        (marks ++ (vs ++ closing :: after)).head? :=
      head?_append_congr marks (head?_append_congr vs rfl)
    exact .conditional keyword (condition.ofHead rfl) is (first.ofHead next) otherwise
      (second.ofHead rfl) closes
  | loop keyword inner closes => exact .loop keyword (inner.ofHead rfl) closes
  | function keyword named first params second inner closes =>
    obtain ⟨t, us, rfl, -⟩ := spellsEnd_head closes
    exact .function keyword named first params second (inner.ofHead rfl) closes
  | @returnValue _ k _ ts closing _ keyword inside value closes =>
    have closed := ne_nil_of_finished (unfinished_cons (by rw [keyword]; rfl) value)
      (List.cons_ne_nil k ts) finished
    obtain ⟨t, is, rfl⟩ := closes.resolve_left closed
    exact .returnValue keyword inside (value.ofHead rfl) closes
  | @returnNothing _ k closing _ keyword inside nothing closes =>
    have closed := ne_nil_of_finished (List.forall_mem_singleton.mpr (by rw [keyword]; rfl))
      (List.cons_ne_nil k []) finished
    obtain ⟨t, is, rfl⟩ := closes.resolve_left closed
    exact .returnNothing keyword inside (nothing.ofHead rfl) closes
  | breaks keyword inside closes => exact .breaks keyword inside closes
  | @perform _ k _ ts closing _ keyword call closes =>
    have closed := ne_nil_of_finished (spells_not_finishes call) (List.cons_ne_nil k ts) finished
    obtain ⟨t, is, rfl⟩ := closes.resolve_left closed
    exact .perform keyword (call.ofHead rfl) closes
  | @assign _ name mark _ ts closing _ named is value closes =>
    have closed := ne_nil_of_finished (List.forall_mem_cons.mpr
      ⟨by rw [named]; rfl, unfinished_cons (by rw [is]; rfl) value⟩)
      (List.cons_ne_nil name (mark :: ts)) finished
    obtain ⟨t, close, rfl⟩ := closes.resolve_left closed
    exact .assign named is (value.ofHead rfl) closes

/-- The first statement of finished ones, with more behind them all. -/
theorem Forms.first {s : Stmt} {ss : List Stmt} {place : Place} {ts vs : List Token}
    (head : Forms (.statement s) place ts (vs ++ []))
    (rest : Forms (.statements ss) place vs []) (finished : Finished (ts ++ vs))
    (us : List Token) :
    Forms (.statement s) place ts (vs ++ us) ∧ OverBefore ts (vs ++ us) ∧ Finished vs := by
  cases rest with
  | none =>
    rw [List.append_nil] at finished
    exact ⟨head.anywhere finished us, .inl finished, fun t last => by cases last⟩
  | more next rest =>
    obtain ⟨t, ws, rfl, starts⟩ := forms_head next
    refine ⟨head.ofHead rfl, .inr fun u first => ?_, fun u last => finished u ?_⟩
    · cases first
      exact .inl starts
    · rw [List.getLast?_append, last]
      rfl

theorem Forms.append {ss more : List Stmt} {place : Place} {ts us : List Token}
    (first : Forms (.statements ss) place ts []) (finished : Finished ts)
    (second : Forms (.statements more) place us []) :
    Forms (.statements (ss ++ more)) place (ts ++ us) [] := by
  induction ss generalizing ts with
  | nil =>
    cases first
    exact second
  | cons s ss ih =>
    cases first with
    | more head rest =>
      obtain ⟨formed, -, others⟩ := head.first rest finished us
      rw [List.append_assoc]
      refine .more ?_ (ih rest others)
      rwa [List.append_nil]

/-! ### Programs -/

/-- A reader leaves one thing only. -/
theorem Leaves.unique {α : Type} {p : List Token → Prop}
    {reading : Except Diagnostic (α × Subtype p)} {a b : α} {after other : List Token}
    (first : Leaves reading a after) (second : Leaves reading b other) :
    a = b ∧ after = other := by
  obtain ⟨within, rfl⟩ := first
  obtain ⟨same, rest⟩ := leaves_ok.mp second
  exact ⟨same, rest⟩

/-- A finished statement is the first one of whatever follows it. -/
theorem derives_cons {s : Stmt} {ts us : List Token} {q : Program}
    (formed : Forms (.statement s) .top ts us) (isOver : OverBefore ts us)
    (derived : Derives (ts ++ us) q) : ∃ more, Derives us more ∧ q = s :: more := by
  have read := statements_of_derives (top []) (ending_kind []) rfl derived
  have taken : Leaves (statement (top []) (ts ++ us)) s us :=
    forms_accepted formed (top []) (ending_kind []) rfl isOver
  rcases statements_eq_ok.mp read with ⟨empty, -⟩ | ⟨t, rest, s', mid, more, -, first, next, rfl⟩
  · obtain ⟨t, vs, rfl, -⟩ := forms_head formed
    cases empty
  · obtain ⟨rfl, rfl⟩ := taken.unique first
    exact ⟨more, statements_sound next, rfl⟩

/-- **Tokens behind a finished program are read as if they stood alone.** -/
theorem derives_append_iff {ts us : List Token} {p q : Program} (first : Derives ts p)
    (finished : Finished ts) :
    Derives (ts ++ us) q ↔ ∃ more, Derives us more ∧ q = p ++ more := by
  constructor
  · intro derived
    induction p generalizing ts q with
    | nil =>
      cases first
      exact ⟨q, derived, rfl⟩
    | cons s p ih =>
      cases first with
      | more head rest =>
        obtain ⟨formed, isOver, others⟩ := head.first rest finished us
        rw [List.append_assoc] at derived
        obtain ⟨later, next, rfl⟩ := derives_cons formed isOver derived
        obtain ⟨more, alone, rfl⟩ := ih rest others next
        exact ⟨more, alone, rfl⟩
  · rintro ⟨more, second, rfl⟩
    exact Forms.append first finished second

end Grammar

end Guwen
