/-
**The readers of statements, opened.**

One lemma per reader says exactly when it succeeds, with what, and what it leaves, in terms of the
readers it calls. Nothing after this module unfolds a reader of statements.

* `leaves_declaredName` to `leaves_signature` — names, values and parameters.
* `ends_functionEnd` — the end of a function, already in the words of the grammar.
* `leaves_statement`, `leaves_block` and the lemmas beside them — statements and blocks.
* `statements_eq_ok` — all statements of a program.
-/
import Guwen.Proofs.Grammar.ExpressionReading

namespace Guwen

namespace Grammar

/-! ### Single tokens, names and values -/

section

variable {α : Type} {p : List Token → Prop} {a : α} {rest : List Token} {c : Prop} [Decidable c]
  {first second : Except Diagnostic (α × Subtype p)}

theorem leaves_ite : Leaves (if c then first else second) a rest ↔
    (c ∧ Leaves first a rest) ∨ (¬ c ∧ Leaves second a rest) := by
  by_cases holds : c
  · rw [if_pos holds, and_iff_right holds, or_iff_left fun both => both.1 holds]
  · rw [if_neg holds, and_iff_right holds, or_iff_right fun both => holds both.1]

end

variable {site : Site} {ts rest : List Token}

theorem leaves_expect {kind : TokenKind} {cause : Diagnostic.Cause} {t : Token} :
    Leaves (expect site kind cause ts) t rest ↔ t.kind = kind ∧ ts = t :: rest := by
  cases ts with
  | nil => simp [expect, not_leaves_error]
  | cons head tail =>
    simp only [expect, leaves_ite, leaves_ok, not_leaves_error, and_false, or_false, Rest.tail,
      List.cons.injEq]
    constructor
    · rintro ⟨is, rfl, rfl⟩
      exact ⟨is, rfl, rfl⟩
    · rintro ⟨is, rfl, rfl⟩
      exact ⟨is, rfl, rfl⟩

theorem leaves_typeWord {t : Token} :
    Leaves (typeWord site ts) t rest ↔ t.kind.isType = true ∧ ts = t :: rest := by
  cases ts with
  | nil => simp [typeWord, not_leaves_error]
  | cons head tail =>
    simp only [typeWord, leaves_ite, leaves_ok, not_leaves_error, and_false, or_false, Rest.tail,
      List.cons.injEq]
    constructor
    · rintro ⟨is, rfl, rfl⟩
      exact ⟨is, rfl, rfl⟩
    · rintro ⟨is, rfl, rfl⟩
      exact ⟨is, rfl, rfl⟩

theorem leaves_declaredName {name : Token} :
    Leaves (declaredName site ts) name rest ↔ ∃ mark, mark.kind = .named ∧ name.kind = .string ∧
      name.lexeme.isBlank = false ∧ (skip .nameIt ts).1 = mark :: name :: rest := by
  unfold declaredName
  simp only [leaves_bind, leaves_expect, exists_prop, leaves_ite, not_leaves_error, and_false,
    false_or, leaves_pure, Bool.not_eq_true]
  constructor
  · rintro ⟨mark, mid, ⟨named, skipped⟩, _, _, ⟨string, rfl⟩, shown, rfl, rfl⟩
    exact ⟨mark, named, string, shown, skipped⟩
  · rintro ⟨mark, named, string, shown, skipped⟩
    exact ⟨mark, name :: rest, ⟨named, skipped⟩, name, rest, ⟨string, rfl⟩, shown, rfl, rfl⟩

theorem leaves_elements {isList : Bool} {es : List Expr} :
    Leaves (elements site isList ts) es rest ↔
      (NotNext (· == .comma) ts ∧ [] = es ∧ ts = rest) ∨
      ∃ comma us e more mid, ts = comma :: us ∧ comma.kind = .comma ∧ isList = true ∧
        Leaves (expression site us) e mid ∧ Leaves (elements site isList mid) more rest ∧
          e :: more = es := by
  cases ts with
  | nil => simp [elements, leaves_ok, NotNext]
  | cons t us =>
    rw [elements]
    simp only [leaves_ite, leaves_bind, leaves_pure, leaves_ok, exists_prop, not_leaves_error,
      and_false, or_false, notNext_cons, beq_eq_false_iff_ne, ne_eq]
    constructor
    · rintro (⟨comma, list, e, mid, first, more, _, next, rfl, rfl⟩ | ⟨other, rfl, rfl⟩)
      · exact .inr ⟨t, us, e, more, mid, rfl, comma, list, first, next, rfl⟩
      · exact .inl ⟨other, rfl, rfl⟩
    · rintro (⟨other, rfl, rfl⟩ | ⟨_, _, e, more, mid, same, comma, list, first, next, rfl⟩)
      · exact .inr ⟨other, rfl, rfl⟩
      · cases same
        exact .inl ⟨comma, list, e, mid, first, more, rest, next, rfl, rfl⟩

theorem leaves_initialValue {isList : Bool} {e : Expr} :
    Leaves (initialValue site isList ts) e rest ↔
      ∃ first mid more, Leaves (expression site ts) first mid ∧
        Leaves (elements site isList mid) more rest ∧
          (if isList then listValue (site.peek ts) first more else first) = e := by
  unfold initialValue
  simp only [leaves_bind, leaves_pure, exists_prop]
  constructor
  · rintro ⟨first, mid, read, more, _, next, rfl, rfl⟩
    exact ⟨first, mid, more, read, next, rfl⟩
  · rintro ⟨first, mid, more, read, next, rfl⟩
    exact ⟨first, mid, read, more, rest, next, rfl, rfl⟩

theorem leaves_initializer {isList : Bool} {value : Option Expr} :
    Leaves (initializer site isList ts) value rest ↔
      (NotNext (· == .value) ts ∧ none = value ∧ ts = rest) ∨
      ∃ k us e, ts = k :: us ∧ k.kind = .value ∧ Leaves (initialValue site isList us) e rest ∧
        some e = value := by
  cases ts with
  | nil => simp [initializer, leaves_ok, NotNext]
  | cons t us =>
    unfold initializer
    simp only [leaves_ite, leaves_bind, leaves_pure, leaves_ok, exists_prop, notNext_cons,
      beq_eq_false_iff_ne, ne_eq]
    constructor
    · rintro (⟨keyword, e, _, read, rfl, rfl⟩ | ⟨other, rfl, rfl⟩)
      · exact .inr ⟨t, us, e, rfl, keyword, read, rfl⟩
      · exact .inl ⟨other, rfl, rfl⟩
    · rintro (⟨other, rfl, rfl⟩ | ⟨_, _, e, same, keyword, read, rfl⟩)
      · exact .inr ⟨other, rfl, rfl⟩
      · cases same
        exact .inl ⟨keyword, e, rest, read, rfl, rfl⟩

/-! ### Statements without statements inside -/

theorem leaves_declaration {k : Token} {s : Stmt} :
    Leaves (declaration site k ts) s rest ↔ ∃ type us name vs value closing,
      type.kind.isType = true ∧ ts = type :: us ∧
        Leaves (declaredName (site.inside .declaration) us) name vs ∧
        Leaves (initializer (site.inside .declaration) (type.kind == .listType) vs) value
          (closing :: rest) ∧
        closing.kind = .close ∧ .declare k type name value = s := by
  unfold declaration
  simp only [leaves_bind, leaves_pure, leaves_expect, leaves_typeWord, exists_prop]
  constructor
  · rintro ⟨type, us, ⟨isType, rfl⟩, name, vs, named, value, _, initial, closing, _, ⟨closes, rfl⟩,
      rfl, rfl⟩
    exact ⟨type, us, name, vs, value, closing, isType, rfl, named, initial, closes, rfl⟩
  · rintro ⟨type, us, name, vs, value, closing, isType, rfl, named, initial, closes, rfl⟩
    exact ⟨type, us, ⟨isType, rfl⟩, name, vs, named, value, _, initial, closing, rest,
      ⟨closes, rfl⟩, rfl, rfl⟩

theorem leaves_print {k : Token} {s : Stmt} :
    Leaves (print site k ts) s rest ↔ ∃ e mid, Leaves (expression (site.inside .print) ts) e mid ∧
      (skip .close mid).1 = rest ∧ .print k e = s := by
  unfold print
  simp only [leaves_bind, leaves_pure, exists_prop]
  constructor
  · rintro ⟨e, mid, read, rfl, skipped⟩
    exact ⟨e, mid, read, skipped, rfl⟩
  · rintro ⟨e, mid, read, skipped, rfl⟩
    exact ⟨e, mid, read, rfl, skipped⟩

theorem leaves_callStatement {k : Token} {s : Stmt} :
    Leaves (callStatement site k ts) s rest ↔
      ∃ e mid, Leaves (call (site.inside .call) k ts) e mid ∧
        (skip .close mid).1 = rest ∧ .perform k e = s := by
  unfold callStatement
  simp only [leaves_bind, leaves_pure, exists_prop]
  constructor
  · rintro ⟨e, mid, read, rfl, skipped⟩
    exact ⟨e, mid, read, skipped, rfl⟩
  · rintro ⟨e, mid, read, skipped, rfl⟩
    exact ⟨e, mid, read, rfl, skipped⟩

theorem leaves_assignment {name : Token} {s : Stmt} :
    Leaves (assignment site name ts) s rest ↔
      ∃ mark us e mid, mark.kind = .value ∧ ts = mark :: us ∧
        Leaves (expression (site.inside .assignment) us) e mid ∧ (skip .close mid).1 = rest ∧
        .assign name e = s := by
  unfold assignment
  simp only [leaves_bind, leaves_pure, leaves_expect, exists_prop]
  constructor
  · rintro ⟨mark, us, ⟨is, rfl⟩, e, mid, read, rfl, skipped⟩
    exact ⟨mark, us, e, mid, is, rfl, read, skipped, rfl⟩
  · rintro ⟨mark, us, e, mid, is, rfl, read, skipped, rfl⟩
    exact ⟨mark, us, ⟨is, rfl⟩, e, mid, read, rfl, skipped⟩

theorem leaves_returns {k : Token} {s : Stmt} :
    Leaves (returns site k ts) s rest ↔ site.inFunction = true ∧
      ((startsExpression (site.peek ts).kind = true ∧ ∃ e mid,
          Leaves (expression (site.inside .returns) ts) e mid ∧ (skip .close mid).1 = rest ∧
            .returns k (some e) = s) ∨
        (startsExpression (site.peek ts).kind = false ∧ (skip .close ts).1 = rest ∧
          .returns k none = s)) := by
  have peek : (site.inside .returns).peek ts = site.peek ts := rfl
  have inFunction : (site.inside .returns).inFunction = site.inFunction := rfl
  unfold returns
  simp only [leaves_ite, leaves_bind, leaves_pure, exists_prop, not_leaves_error, and_false,
    false_or, inFunction, peek, Bool.not_eq_true', Bool.not_eq_false, Bool.not_eq_true]
  refine and_congr_right fun _ => or_congr ?_ ?_
  · refine and_congr_right fun _ => ?_
    constructor
    · rintro ⟨e, mid, read, rfl, skipped⟩
      exact ⟨e, mid, read, skipped, rfl⟩
    · rintro ⟨e, mid, read, skipped, rfl⟩
      exact ⟨e, mid, read, rfl, skipped⟩
  · exact and_congr_right fun _ => and_comm

theorem leaves_breaks {k : Token} {s : Stmt} :
    Leaves (breaks site k ts) s rest ↔
      site.inLoop = true ∧ (skip .close ts).1 = rest ∧ .breaks k = s := by
  unfold breaks
  simp only [leaves_ite, leaves_ok, not_leaves_error, and_false, or_false]
  exact and_congr_right fun _ => and_comm

/-! ### Parameters -/

theorem leaves_parameters {ps : List Param} :
    Leaves (parameters site ts) ps rest ↔ ∃ type us name vs, type.kind.isType = true ∧
      ts = type :: us ∧ Leaves (declaredName site us) name vs ∧
        (((site.peek (skip .comma vs).1).kind.isType = true ∧
            ∃ more, Leaves (parameters site (skip .comma vs).1) more rest ∧
              ⟨type, name⟩ :: more = ps) ∨
          ((site.peek (skip .comma vs).1).kind.isType = false ∧ [⟨type, name⟩] = ps ∧
            (skip .comma vs).1 = rest)) := by
  rw [parameters]
  simp only [leaves_bind, leaves_typeWord, leaves_ite, leaves_pure, exists_prop, Bool.not_eq_true]
  constructor
  · rintro ⟨type, us, ⟨isType, rfl⟩, name, vs, named,
      ⟨next, more, _, read, rfl, rfl⟩ | ⟨last, rfl, rfl⟩⟩
    · exact ⟨type, us, name, vs, isType, rfl, named, .inl ⟨next, more, read, rfl⟩⟩
    · exact ⟨type, us, name, vs, isType, rfl, named, .inr ⟨last, rfl, rfl⟩⟩
  · rintro ⟨type, us, name, vs, isType, rfl, named, ⟨next, more, read, rfl⟩ | ⟨last, rfl, rfl⟩⟩
    · exact ⟨type, us, ⟨isType, rfl⟩, name, vs, named, .inl ⟨next, more, rest, read, rfl, rfl⟩⟩
    · exact ⟨type, us, ⟨isType, rfl⟩, name, vs, named, .inr ⟨last, rfl, rfl⟩⟩

theorem leaves_signature {ps : List Param} :
    Leaves (signature site ts) ps rest ↔
      (NotNext (· == .params) (skip .invoke ts).1 ∧ [] = ps ∧
        (skip .invoke (skip .invoke ts).1).1 = rest) ∨
      ∃ k us mid, (skip .invoke ts).1 = k :: us ∧ k.kind = .params ∧
        Leaves (parameters site us) ps mid ∧ (skip .invoke mid).1 = rest := by
  unfold signature
  simp only
  generalize skip .invoke ts = skipped
  obtain ⟨mid, within⟩ := skipped
  cases mid with
  | nil => simp [leaves_pure, NotNext, skip]
  | cons t us =>
    simp only [leaves_ite, leaves_bind, leaves_pure, exists_prop, notNext_cons,
      beq_eq_false_iff_ne, ne_eq]
    constructor
    · rintro (⟨keyword, ps, mid, read, rfl, rfl⟩ | ⟨other, rfl, rfl⟩)
      · exact .inr ⟨t, us, mid, rfl, keyword, read, rfl⟩
      · exact .inl ⟨other, rfl, rfl⟩
    · rintro (⟨other, rfl, rfl⟩ | ⟨_, _, mid, same, keyword, read, rfl⟩)
      · exact .inr ⟨other, rfl, rfl⟩
      · cases same
        exact .inl ⟨keyword, ps, mid, read, rfl, rfl⟩

/-! ### The end of a function -/

/-- The reading of an end succeeds and leaves `rest`. -/
def Ends {p : List Token → Prop} (reading : Except Diagnostic (Subtype p)) (rest : List Token) :
    Prop := ∃ within, reading = .ok ⟨rest, within⟩

theorem leaves_bind_ends {α : Type} {p q : List Token → Prop} {a : α}
    {m : Except Diagnostic (Subtype q)} {f : Subtype q → Except Diagnostic (α × Subtype p)} :
    Leaves (m >>= f) a rest ↔ ∃ mid, ∃ read : Ends m mid, Leaves (f ⟨mid, read.1⟩) a rest := by
  constructor
  · rintro ⟨within, same⟩
    cases m with
    | error d => cases same
    | ok read => exact ⟨read.1, ⟨read.2, rfl⟩, within, same⟩
  · rintro ⟨mid, ⟨within, rfl⟩, last⟩
    exact last

theorem leaves_forward {α : Type} {p q : List Token → Prop} {a : α}
    {m : Except Diagnostic (α × Subtype q)} {g : Subtype q → Subtype p}
    (same : ∀ left, (g left).1 = left.1) :
    Leaves (m >>= fun read => pure (read.1, g read.2)) a rest ↔ Leaves m a rest := by
  simp only [leaves_bind, leaves_pure, same, exists_prop]
  constructor
  · rintro ⟨_, _, read, rfl, rfl⟩
    exact read
  · intro read
    exact ⟨a, rest, read, rfl, rfl⟩

theorem ends_forward {β : Type} {p q : List Token → Prop} {m : Except Diagnostic (β × Subtype q)}
    {g : Subtype q → Subtype p} (same : ∀ left, (g left).1 = left.1) :
    Ends (m >>= fun read => pure (g read.2)) rest ↔ ∃ b, Leaves m b rest := by
  constructor
  · rintro ⟨within, read⟩
    cases m with
    | error d => cases read
    | ok pair =>
      have equal : g pair.2 = ⟨rest, within⟩ := Except.ok.inj read
      have left : pair.2.1 = rest := by rw [← same, equal]
      exact ⟨pair.1, leaves_ok.mpr ⟨rfl, left⟩⟩
  · rintro ⟨b, within, rfl⟩
    have kept : p rest := by
      have holds := (g ⟨rest, within⟩).2
      rwa [same] at holds
    exact ⟨kept, congrArg Except.ok (Subtype.ext (same ⟨rest, within⟩))⟩

theorem not_ends_error {p : List Token → Prop} {d : Diagnostic} :
    ¬ Ends (.error d : Except Diagnostic (Subtype p)) rest := by
  rintro ⟨within, same⟩
  cases same

theorem ends_functionEnd {name : Token} :
    Ends (functionEnd site name ts) rest ↔
      ∃ closing, SpellsEnd name closing ∧ ts = closing ++ rest := by
  constructor
  · intro ends
    cases ts with
    | nil => exact absurd ends not_ends_error
    | cons t us =>
      unfold functionEnd at ends
      by_cases called : t.kind = .functionName
      · simp only [if_pos called] at ends
        cases us with
        | nil => exact absurd ends not_ends_error
        | cons again vs =>
          simp only at ends
          by_cases string : again.kind = .string
          · rw [if_pos string] at ends
            by_cases same : again.lexeme = name.lexeme
            · rw [if_pos same] at ends
              obtain ⟨last, expected⟩ := (ends_forward
                (g := fun left => Rest.behind (Rest.behind left)) fun _ => rfl).mp ends
              obtain ⟨closing, rfl⟩ := leaves_expect.mp expected
              exact ⟨[t, again, last], .named called string same closing, rfl⟩
            · rw [if_neg same] at ends
              exact absurd ends not_ends_error
          · rw [if_neg string] at ends
            obtain ⟨last, expected⟩ := (ends_forward (g := Rest.behind) fun _ => rfl).mp ends
            obtain ⟨closing, equal⟩ := leaves_expect.mp expected
            cases equal
            exact ⟨[t, again], .called called closing, rfl⟩
      · simp only [if_neg called] at ends
        obtain ⟨last, expected⟩ := (ends_forward (g := id) fun _ => rfl).mp ends
        obtain ⟨closing, equal⟩ := leaves_expect.mp expected
        cases equal
        exact ⟨[t], .plain closing, rfl⟩
  · rintro ⟨closing, spelt, rfl⟩
    cases spelt with
    | @plain t closing =>
      have other : t.kind ≠ .functionName := by rw [closing]; simp
      simp only [List.cons_append, List.nil_append]
      unfold functionEnd
      simp only [if_neg other]
      exact (ends_forward (g := id) fun _ => rfl).mpr ⟨t, leaves_expect.mpr ⟨closing, rfl⟩⟩
    | @called k t keyword closing =>
      have other : t.kind ≠ .string := by rw [closing]; simp
      simp only [List.cons_append, List.nil_append]
      unfold functionEnd
      simp only [if_pos keyword, if_neg other]
      exact (ends_forward (g := Rest.behind) fun _ => rfl).mpr
        ⟨t, leaves_expect.mpr ⟨closing, rfl⟩⟩
    | @named k again t keyword string same closing =>
      simp only [List.cons_append, List.nil_append]
      unfold functionEnd
      simp only [if_pos keyword, if_pos string, if_pos same]
      exact (ends_forward (g := fun left => Rest.behind (Rest.behind left)) fun _ => rfl).mpr
        ⟨t, leaves_expect.mpr ⟨closing, rfl⟩⟩

/-! ### Statements and blocks -/

/-- No statement starts with an end token. -/
theorem ne_eof_of_leaves_statement {t : Token} {us : List Token} {s : Stmt}
    (read : Leaves (statement site (t :: us)) s rest) : t.kind ≠ .eof := by
  intro is
  rw [statement, is] at read
  exact not_leaves_error read

theorem leaves_block {cause : Diagnostic.Cause} {closes : TokenKind → Bool} {ss : List Stmt} :
    Leaves (block site cause closes ts) ss rest ↔ ∃ t us, ts = t :: us ∧
      ((closes t.kind = true ∧ [] = ss ∧ ts = rest) ∨
        (closes t.kind = false ∧ ∃ s mid more, Leaves (statement site ts) s mid ∧
          Leaves (block site cause closes mid) more rest ∧ s :: more = ss)) := by
  cases ts with
  | nil => simp [block, not_leaves_error]
  | cons t us =>
    rw [block]
    simp only [leaves_ite, leaves_ok, leaves_bind, leaves_pure, exists_prop, Bool.not_eq_true,
      not_leaves_error, and_false, false_or]
    constructor
    · rintro (⟨ends, rfl, rfl⟩ | ⟨goes, -, s, mid, first, more, _, next, rfl, rfl⟩)
      · exact ⟨t, us, rfl, .inl ⟨ends, rfl, rfl⟩⟩
      · exact ⟨t, us, rfl, .inr ⟨goes, s, mid, more, first, next, rfl⟩⟩
    · rintro ⟨_, _, same, ⟨ends, rfl, rfl⟩ | ⟨goes, s, mid, more, first, next, rfl⟩⟩
      · cases same
        exact .inl ⟨ends, rfl, rfl⟩
      · cases same
        exact .inr ⟨goes, ne_eof_of_leaves_statement first, s, mid, first, more, rest, next, rfl,
          rfl⟩

theorem leaves_conditional {k : Token} {s : Stmt} :
    Leaves (conditional site k ts) s rest ↔ ∃ e mark us yes t vs,
      Leaves (expression site ts) e (mark :: us) ∧ mark.kind = .thereupon ∧
        Leaves (block site .expectedBlockEnd closesBranch us) yes (t :: vs) ∧
        ((t.kind = .otherwise ∧ ∃ no closing,
            Leaves (block site .expectedBlockEnd closesBlock vs) no (closing :: rest) ∧
              closing.kind = .blockEnd ∧ .conditional k e yes no = s) ∨
          (t.kind = .blockEnd ∧ vs = rest ∧ .conditional k e yes [] = s)) := by
  rw [conditional]
  simp only [leaves_bind, leaves_expect]
  constructor
  · rintro ⟨e, _, condition, mark, us, ⟨then_, rfl⟩, yes, mid, first, last⟩
    cases mid with
    | nil => exact absurd last not_leaves_error
    | cons t vs =>
      simp only [leaves_ite, leaves_bind, leaves_expect, leaves_pure, exists_prop] at last
      refine ⟨e, mark, us, yes, t, vs, condition, then_, first, ?_⟩
      rcases last with ⟨other, no, _, second, closing, _, ⟨closes, rfl⟩, rfl, rfl⟩ |
        ⟨-, closing, _, ⟨closes, equal⟩, rfl, rfl⟩
      · exact .inl ⟨other, no, closing, second, closes, rfl⟩
      · cases equal
        exact .inr ⟨closes, rfl, rfl⟩
  · rintro ⟨e, mark, us, yes, t, vs, condition, then_, first, last⟩
    refine ⟨e, _, condition, mark, us, ⟨then_, rfl⟩, yes, _, first, ?_⟩
    simp only [leaves_ite, leaves_bind, leaves_expect, leaves_pure, exists_prop]
    rcases last with ⟨other, no, closing, second, closes, rfl⟩ | ⟨closes, rfl, rfl⟩
    · exact .inl ⟨other, no, _, second, closing, rest, ⟨closes, rfl⟩, rfl, rfl⟩
    · have not : t.kind ≠ .otherwise := by rw [closes]; simp
      exact .inr ⟨not, t, vs, ⟨closes, rfl⟩, rfl, rfl⟩

theorem leaves_loop {k : Token} {s : Stmt} :
    Leaves (loop site k ts) s rest ↔ ∃ body closing,
      Leaves (block site .expectedBlockEnd closesBlock ts) body (closing :: rest) ∧
        closing.kind = .blockEnd ∧ .loop k body = s := by
  rw [loop]
  simp only [leaves_bind, leaves_expect, leaves_pure, exists_prop]
  constructor
  · rintro ⟨body, _, inner, closing, _, ⟨closes, rfl⟩, rfl, rfl⟩
    exact ⟨body, closing, inner, closes, rfl⟩
  · rintro ⟨body, closing, inner, closes, rfl⟩
    exact ⟨body, _, inner, closing, rest, ⟨closes, rfl⟩, rfl, rfl⟩

theorem leaves_function {k : Token} {s : Stmt} :
    Leaves (function site k ts) s rest ↔ ∃ name us ps vs body closing,
      Leaves (declaredName site ts) name us ∧ Leaves (signature site us) ps vs ∧
        Leaves (block site .expectedFunctionEnd closesBody vs) body (closing ++ rest) ∧
        SpellsEnd name closing ∧ .function k name ps body = s := by
  rw [function]
  simp only [leaves_bind, leaves_bind_ends, ends_functionEnd, leaves_pure, exists_prop]
  constructor
  · rintro ⟨name, us, named, ps, vs, params, body, _, inner, _, ⟨closing, closes, rfl⟩, rfl, rfl⟩
    exact ⟨name, us, ps, vs, body, closing, named, params, inner, closes, rfl⟩
  · rintro ⟨name, us, ps, vs, body, closing, named, params, inner, closes, rfl⟩
    exact ⟨name, us, named, ps, vs, params, body, _, inner, rest, ⟨closing, closes, rfl⟩, rfl, rfl⟩

theorem leaves_statement {t : Token} {s : Stmt} :
    Leaves (statement site (t :: ts)) s rest ↔
      (t.kind = .declare ∧ Leaves (declaration site t ts) s rest) ∨
      (t.kind = .print ∧ Leaves (print site t ts) s rest) ∨
      (t.kind = .whether ∧ Leaves (conditional (site.inside .conditional) t ts) s rest) ∨
      (t.kind = .loop ∧ Leaves (loop site.insideLoop t ts) s rest) ∨
      (t.kind = .function ∧ Leaves (function site.insideFunction t ts) s rest) ∨
      (t.kind = .returns ∧ Leaves (returns site t ts) s rest) ∨
      (t.kind = .breaks ∧ Leaves (breaks site t ts) s rest) ∨
      (t.kind = .apply ∧ Leaves (callStatement site t ts) s rest) ∨
      (t.kind = .identifier ∧ Leaves (assignment site t ts) s rest) := by
  rw [statement]
  split
  case h_10 =>
    refine iff_of_false not_leaves_error ?_
    simp_all
  all_goals
    rename_i is
    simp only [is, reduceCtorEq, false_and, true_and, or_false, false_or]
    first
    | exact leaves_forward (g := Rest.behind) fun _ => rfl
    | exact leaves_forward (g := Within.behind) fun _ => rfl

/-- Statements to the last token. -/
theorem statements_eq_ok {ss : List Stmt} :
    statements site ts = .ok ss ↔ (ts = [] ∧ ss = []) ∨
      ∃ t us s mid more, ts = t :: us ∧ Leaves (statement site ts) s mid ∧
        statements site mid = .ok more ∧ s :: more = ss := by
  cases ts with
  | nil => simp [statements, eq_comm]
  | cons t us =>
    rw [statements]
    constructor
    · intro read
      cases first : statement site (t :: us) with
      | error d =>
        rw [first] at read
        cases read
      | ok pair =>
        rw [first] at read
        cases next : statements site pair.2.1 with
        | error d =>
          have stuck : (do let ss ← statements site pair.2.1; pure (pair.1 :: ss)) = .ok ss := read
          rw [next] at stuck
          cases stuck
        | ok more =>
          have done : (do let ss ← statements site pair.2.1; pure (pair.1 :: ss)) = .ok ss := read
          rw [next] at done
          exact .inr ⟨t, us, pair.1, pair.2.1, more, rfl, ⟨pair.2.2, rfl⟩, next, Except.ok.inj done⟩
    · rintro (⟨absurd, -⟩ | ⟨_, _, s, mid, more, -, ⟨within, first⟩, next, rfl⟩)
      · cases absurd
      · rw [first]
        show (do let ss ← statements site mid; pure (s :: ss)) = .ok (s :: more)
        rw [next]
        rfl

end Grammar

end Guwen
