/-
**Soundness: what the readers take is formed by the grammar.**

Each reader that succeeds has taken a stretch of tokens off the front, and the grammar spells the
same tree with that stretch, before exactly the tokens that are left.

* `spells_head` — every phrase starts with a token that an expression can start with.
* `initialValue_sound`, `parameters_sound`, `signature_sound` — values and parameters.
* `statement_sound`, `block_sound` — statements and blocks, by the recursion of the readers.
-/
import Guwen.Proofs.Grammar.StatementReaders

namespace Guwen

namespace Grammar

/-! ### First tokens -/

/-- Every phrase starts with a token that an expression can start with. -/
theorem spells_head {phrase : Phrase} {ts after : List Token} (spelt : Spells phrase ts after) :
    ∃ t us, ts = t :: us ∧ startsExpression t.kind = true := by
  induction spelt with
  | arabic number _ => exact ⟨_, _, rfl, by rw [number]; rfl⟩
  | glyphs number _ _ _ => exact ⟨_, _, rfl, by rw [number]; rfl⟩
  | string string => exact ⟨_, _, rfl, by rw [string]; rfl⟩
  | name name => exact ⟨_, _, rfl, by rw [name]; rfl⟩
  | bareCall keyword _ _ => exact ⟨_, _, rfl, by rw [keyword]; rfl⟩
  | call keyword _ _ _ _ => exact ⟨_, _, rfl, by rw [keyword]; rfl⟩
  | lastArgument _ _ ih => exact ih
  | argument _ _ _ ih _ =>
    obtain ⟨t, us, rfl, starts⟩ := ih
    exact ⟨t, _, rfl, starts⟩
  | operandTerm _ ih => exact ih
  | product _ _ _ _ ih _ =>
    obtain ⟨t, us, rfl, starts⟩ := ih
    exact ⟨t, _, rfl, starts⟩
  | termSum _ ih => exact ih
  | sum _ _ _ _ ih _ =>
    obtain ⟨t, us, rfl, starts⟩ := ih
    exact ⟨t, _, rfl, starts⟩
  | sumExpression _ ih => exact ih
  | comparison _ _ _ _ ih _ =>
    obtain ⟨t, us, rfl, starts⟩ := ih
    exact ⟨t, _, rfl, starts⟩

/-! ### Optional tokens -/

theorem skip_split (kind : TokenKind) (ts : List Token) :
    ∃ lead, Optional kind lead ∧ ts = lead ++ (skip kind ts).1 := by
  cases ts with
  | nil => exact ⟨[], .inl rfl, rfl⟩
  | cons t ts =>
    unfold skip
    by_cases is : t.kind = kind
    · simp only [if_pos is]
      exact ⟨[t], .inr ⟨t, is, rfl⟩, rfl⟩
    · simp only [if_neg is]
      exact ⟨[], .inl rfl, rfl⟩

/-! ### What the readers take is formed by the grammar -/

variable {site : Site} {ts rest : List Token}

theorem declaredName_sound {name : Token} (read : Leaves (declaredName site ts) name rest) :
    ∃ used, ts = used ++ rest ∧ SpellsName name used := by
  obtain ⟨mark, named, string, shown, skipped⟩ := leaves_declaredName.mp read
  obtain ⟨lead, optional, split⟩ := skip_split .nameIt ts
  refine ⟨lead ++ [mark, name], ?_, lead, mark, optional, named, string, shown, rfl⟩
  rw [split, skipped, List.append_assoc]
  rfl

theorem elements_sound {site : Site} {ts rest : List Token} {isList : Bool} {es : List Expr}
    (read : Leaves (elements site isList ts) es rest) :
    (es = [] ∧ ts = rest) ∨ (isList = true ∧ ∃ comma used, comma.kind = .comma ∧
      ts = comma :: (used ++ rest) ∧ SpellsElements es used rest) := by
  rcases leaves_elements.mp read with
    ⟨-, rfl, rfl⟩ | ⟨comma, us, e, more, mid, split, is, list, first, next, rfl⟩
  · exact .inl ⟨rfl, rfl⟩
  · have shorter : mid.length < us.length := first.within
    obtain ⟨used, splitFirst, spelt⟩ := expression_sound first
    refine .inr ⟨list, comma, ?_⟩
    rcases elements_sound next with ⟨rfl, rfl⟩ | ⟨-, comma', used', is', rfl, spelt'⟩
    · exact ⟨used, is, by rw [split, splitFirst], .last spelt⟩
    · refine ⟨used ++ comma' :: used', is, ?_, .more spelt is' spelt'⟩
      rw [split, splitFirst, List.append_assoc, List.cons_append]
termination_by ts.length
decreasing_by subst_vars; simp only [List.length_cons]; omega

theorem listValue_of_isReference {start : Token} {e : Expr} (reference : isReference e = true) :
    listValue start e [] = e := by
  cases e <;> first | rfl | cases reference

theorem listValue_of_not_isReference {start : Token} {e : Expr} (other : isReference e = false) :
    listValue start e [] = .list start [e] := by
  cases e <;> first | rfl | cases other

theorem listValue_cons {start : Token} {e e' : Expr} {es : List Expr} :
    listValue start e (e' :: es) = .list start (e :: e' :: es) := by
  cases e <;> rfl

theorem initialValue_sound {isList : Bool} {e : Expr}
    (read : Leaves (initialValue site isList ts) e rest) :
    ∃ used, ts = used ++ rest ∧ SpellsValue isList e used rest := by
  obtain ⟨first, mid, more, head, next, value⟩ := leaves_initialValue.mp read
  obtain ⟨used, rfl, spelt⟩ := expression_sound head
  obtain ⟨start, us, rfl, -⟩ := spells_head spelt
  have peek : site.peek (start :: us ++ mid) = start := rfl
  rw [peek] at value
  rcases elements_sound next with ⟨rfl, rfl⟩ | ⟨rfl, comma, used', is, rfl, spelt'⟩
  · refine ⟨start :: us, rfl, ?_⟩
    cases isList with
    | false =>
      cases value
      exact .single spelt
    | true =>
      rw [if_pos rfl] at value
      by_cases reference : isReference first = true
      · rw [listValue_of_isReference reference] at value
        cases value
        exact .reference spelt reference
      · rw [listValue_of_not_isReference (Bool.eq_false_iff.mpr reference)] at value
        cases value
        refine .list (.last spelt) fun e single => ?_
        cases single
        exact Bool.eq_false_iff.mpr reference
  · refine ⟨start :: (us ++ comma :: used'), ?_, ?_⟩
    · rw [List.cons_append, List.cons_append, List.append_assoc, List.cons_append]
    · obtain ⟨e', es, rfl⟩ : ∃ e' es, more = e' :: es := by
        cases spelt' with
        | last => exact ⟨_, _, rfl⟩
        | more => exact ⟨_, _, rfl⟩
      rw [if_pos rfl, listValue_cons] at value
      cases value
      refine .list (.more spelt is spelt') fun e single => ?_
      cases single

theorem initializer_sound {isList : Bool} {value : Option Expr}
    (read : Leaves (initializer site isList ts) value rest) :
    ∃ used, ts = used ++ rest ∧ SpellsInitial isList value used rest := by
  rcases leaves_initializer.mp read with ⟨-, rfl, rfl⟩ | ⟨k, us, e, rfl, keyword, value, rfl⟩
  · exact ⟨[], rfl, .absent⟩
  · obtain ⟨used, rfl, spelt⟩ := initialValue_sound value
    exact ⟨k :: used, rfl, .present keyword spelt⟩

theorem parameters_sound {site : Site} {ts rest : List Token} {ps : List Param}
    (read : Leaves (parameters site ts) ps rest) :
    ∃ used, ts = used ++ rest ∧ SpellsParams ps used := by
  obtain ⟨type, us, name, vs, isType, split, named, last⟩ := leaves_parameters.mp read
  have shorter : vs.length < us.length := named.within
  have skipped : (skip .comma vs).1.length ≤ vs.length := (skip .comma vs).2
  obtain ⟨used, splitName, spelt⟩ := declaredName_sound named
  obtain ⟨comma, optional, splitComma⟩ := skip_split .comma vs
  rcases last with ⟨-, more, next, rfl⟩ | ⟨-, rfl, rfl⟩
  · obtain ⟨used', splitRest, spelt'⟩ := parameters_sound next
    refine ⟨type :: (used ++ comma ++ used'), ?_, .more isType spelt optional spelt'⟩
    rw [split, splitName, List.cons_append, List.append_assoc, List.append_assoc, ← splitRest,
      ← splitComma]
  · refine ⟨type :: (used ++ comma), ?_, .last isType spelt optional⟩
    rw [split, splitName, List.cons_append, List.append_assoc, ← splitComma]
termination_by ts.length
decreasing_by subst_vars; simp only [List.length_cons]; omega

theorem signature_sound {ps : List Param} (read : Leaves (signature site ts) ps rest) :
    ∃ before sig behind, ts = before ++ (sig ++ (behind ++ rest)) ∧ Optional .invoke before ∧
      SpellsSignature ps sig ∧ Optional .invoke behind := by
  obtain ⟨before, optional, split⟩ := skip_split .invoke ts
  rcases leaves_signature.mp read with ⟨-, rfl, rfl⟩ | ⟨k, us, mid, skipped, keyword, params, rfl⟩
  · obtain ⟨behind, optional', split'⟩ := skip_split .invoke (skip .invoke ts).1
    refine ⟨before, [], behind, ?_, optional, .absent, optional'⟩
    rw [List.nil_append, ← split', ← split]
  · obtain ⟨used, rfl, spelt⟩ := parameters_sound params
    obtain ⟨behind, optional', split'⟩ := skip_split .invoke mid
    refine ⟨before, k :: used, behind, ?_, optional, .present keyword spelt, optional'⟩
    rw [← split', List.cons_append, ← skipped, ← split]

/-- The place that a site stands for. -/
def Site.place (site : Site) : Place := ⟨site.inFunction, site.inLoop⟩

theorem declaration_sound {k : Token} {s : Stmt} (keyword : k.kind = .declare)
    (read : Leaves (declaration site k ts) s rest) :
    ∃ used, ts = used ++ rest ∧ Forms (.statement s) site.place (k :: used) rest := by
  obtain ⟨type, us, name, vs, value, closing, isType, rfl, named, initial, closes, rfl⟩ :=
    leaves_declaration.mp read
  obtain ⟨ns, rfl, spelt⟩ := declaredName_sound named
  obtain ⟨used, rfl, value⟩ := initializer_sound initial
  refine ⟨type :: (ns ++ (used ++ [closing])), ?_, .declare keyword isType spelt value closes⟩
  simp only [List.cons_append, List.append_assoc, List.nil_append]

theorem print_sound {k : Token} {s : Stmt} (keyword : k.kind = .print)
    (read : Leaves (print site k ts) s rest) :
    ∃ used, ts = used ++ rest ∧ Forms (.statement s) site.place (k :: used) rest := by
  obtain ⟨e, mid, value, rfl, rfl⟩ := leaves_print.mp read
  obtain ⟨used, rfl, spelt⟩ := expression_sound value
  obtain ⟨closing, optional, split⟩ := skip_split .close mid
  rw [split] at spelt
  refine ⟨used ++ closing, ?_, .print keyword spelt optional⟩
  rw [List.append_assoc, ← split]

theorem assignment_sound {name : Token} {s : Stmt} (named : name.kind = .identifier)
    (read : Leaves (assignment site name ts) s rest) :
    ∃ used, ts = used ++ rest ∧ Forms (.statement s) site.place (name :: used) rest := by
  obtain ⟨mark, us, e, mid, is, rfl, value, rfl, rfl⟩ := leaves_assignment.mp read
  obtain ⟨used, rfl, spelt⟩ := expression_sound value
  obtain ⟨closing, optional, split⟩ := skip_split .close mid
  rw [split] at spelt
  refine ⟨mark :: (used ++ closing), ?_, .assign named is spelt optional⟩
  rw [List.cons_append, List.append_assoc, ← split]

theorem callStatement_sound {k : Token} {s : Stmt} (keyword : k.kind = .apply)
    (read : Leaves (callStatement site k ts) s rest) :
    ∃ used, ts = used ++ rest ∧ Forms (.statement s) site.place (k :: used) rest := by
  obtain ⟨e, mid, value, rfl, rfl⟩ := leaves_callStatement.mp read
  obtain ⟨used, rfl, spelt⟩ := call_sound keyword value
  obtain ⟨closing, optional, split⟩ := skip_split .close mid
  rw [split] at spelt
  refine ⟨used ++ closing, ?_, .perform keyword spelt optional⟩
  rw [List.append_assoc, ← split]

theorem returns_sound {k : Token} {s : Stmt} (keyword : k.kind = .returns)
    (read : Leaves (returns site k ts) s rest) :
    ∃ used, ts = used ++ rest ∧ Forms (.statement s) site.place (k :: used) rest := by
  obtain ⟨inside, ⟨-, e, mid, value, rfl, rfl⟩ | ⟨nothing, rfl, rfl⟩⟩ := leaves_returns.mp read
  · obtain ⟨used, rfl, spelt⟩ := expression_sound value
    obtain ⟨closing, optional, split⟩ := skip_split .close mid
    rw [split] at spelt
    refine ⟨used ++ closing, ?_, .returnValue keyword inside spelt optional⟩
    rw [List.append_assoc, ← split]
  · obtain ⟨closing, optional, split⟩ := skip_split .close ts
    refine ⟨closing, split, .returnNothing keyword inside ?_ optional⟩
    rw [← split]
    intro t head
    cases ts with
    | nil => cases head
    | cons first ts =>
      cases head
      exact nothing

theorem breaks_sound {k : Token} {s : Stmt} (keyword : k.kind = .breaks)
    (read : Leaves (breaks site k ts) s rest) :
    ∃ used, ts = used ++ rest ∧ Forms (.statement s) site.place (k :: used) rest := by
  obtain ⟨inside, rfl, rfl⟩ := leaves_breaks.mp read
  obtain ⟨closing, optional, split⟩ := skip_split .close ts
  exact ⟨closing, split, .breaks keyword inside optional⟩

mutual

theorem statement_sound {site : Site} {ts rest : List Token} {s : Stmt}
    (read : Leaves (statement site ts) s rest) :
    ∃ used, ts = used ++ rest ∧ Forms (.statement s) site.place used rest := by
  cases ts with
  | nil =>
    rw [statement] at read
    exact absurd read not_leaves_error
  | cons t ts =>
    suffices ∃ used, ts = used ++ rest ∧ Forms (.statement s) site.place (t :: used) rest by
      obtain ⟨used, rfl, formed⟩ := this
      exact ⟨t :: used, rfl, formed⟩
    rcases leaves_statement.mp read with ⟨is, read⟩ | ⟨is, read⟩ | ⟨is, read⟩ | ⟨is, read⟩ |
      ⟨is, read⟩ | ⟨is, read⟩ | ⟨is, read⟩ | ⟨is, read⟩ | ⟨is, read⟩
    · exact declaration_sound is read
    · exact print_sound is read
    · exact conditional_sound is read
    · exact loop_sound is read rfl
    · exact function_sound is read rfl
    · exact returns_sound is read
    · exact breaks_sound is read
    · exact callStatement_sound is read
    · exact assignment_sound is read
termination_by 3 * ts.length
decreasing_by all_goals subst_vars; simp only [List.length_cons]; omega

theorem block_sound {site : Site} {cause : Diagnostic.Cause} {closes : TokenKind → Bool}
    {ts rest : List Token} {ss : List Stmt} (read : Leaves (block site cause closes ts) ss rest) :
    ∃ used, ts = used ++ rest ∧ Forms (.statements ss) site.place used rest ∧
      ∃ t us, rest = t :: us ∧ closes t.kind = true := by
  obtain ⟨t, us, split, ⟨ends, rfl, rfl⟩ | ⟨-, s, mid, more, first, next, rfl⟩⟩ :=
    leaves_block.mp read
  · exact ⟨[], rfl, .none, t, us, split, ends⟩
  · have shorter : mid.length < ts.length := first.within
    obtain ⟨used, splitFirst, formed⟩ := statement_sound first
    obtain ⟨used', splitRest, formed', closing⟩ := block_sound next
    rw [splitRest] at formed
    refine ⟨used ++ used', ?_, .more formed formed', closing⟩
    rw [splitFirst, splitRest, List.append_assoc]
termination_by 3 * ts.length + 1
decreasing_by all_goals omega

theorem conditional_sound {site : Site} {k : Token} {ts rest : List Token} {s : Stmt}
    (keyword : k.kind = .whether)
    (read : Leaves (conditional (site.inside .conditional) k ts) s rest) :
    ∃ used, ts = used ++ rest ∧ Forms (.statement s) site.place (k :: used) rest := by
  obtain ⟨e, mark, us, yes, t, vs, condition, is, first, last⟩ := leaves_conditional.mp read
  have shorter : us.length + 1 < ts.length := condition.within
  have within : vs.length + 1 ≤ us.length := first.within
  obtain ⟨used, splitCondition, spelt⟩ := expression_sound condition
  obtain ⟨usedYes, splitYes, formedYes, -⟩ := block_sound first
  rcases last with ⟨otherwise, no, closing, second, closes, rfl⟩ | ⟨closes, rfl, rfl⟩
  · obtain ⟨usedNo, splitNo, formedNo, -⟩ := block_sound second
    rw [splitYes, splitNo] at spelt
    rw [splitNo] at formedYes
    refine ⟨used ++ mark :: (usedYes ++ ([t] ++ (usedNo ++ [closing]))), ?_,
      .conditional keyword spelt is formedYes (.inr ⟨t, otherwise, rfl⟩) formedNo closes⟩
    rw [splitCondition, splitYes, splitNo]
    simp only [List.cons_append, List.append_assoc, List.nil_append]
  · rw [splitYes] at spelt
    refine ⟨used ++ mark :: (usedYes ++ ([] ++ ([] ++ [t]))), ?_,
      .conditional keyword spelt is formedYes (.inl ⟨rfl, rfl⟩) .none closes⟩
    rw [splitCondition, splitYes]
    simp only [List.cons_append, List.append_assoc, List.nil_append]
termination_by 3 * ts.length + 2
decreasing_by all_goals omega

theorem loop_sound {site inner : Site} {k : Token} {ts rest : List Token} {s : Stmt}
    (keyword : k.kind = .loop) (read : Leaves (loop inner k ts) s rest)
    (place : inner.place = site.place.insideLoop) :
    ∃ used, ts = used ++ rest ∧ Forms (.statement s) site.place (k :: used) rest := by
  obtain ⟨body, closing, inside, closes, rfl⟩ := leaves_loop.mp read
  obtain ⟨used, rfl, formed, -⟩ := block_sound inside
  rw [place] at formed
  refine ⟨used ++ [closing], ?_, .loop keyword formed closes⟩
  rw [List.append_assoc]
  rfl
termination_by 3 * ts.length + 2
decreasing_by omega

theorem function_sound {site inner : Site} {k : Token} {ts rest : List Token} {s : Stmt}
    (keyword : k.kind = .function) (read : Leaves (function inner k ts) s rest)
    (place : inner.place = .insideFunction) :
    ∃ used, ts = used ++ rest ∧ Forms (.statement s) site.place (k :: used) rest := by
  obtain ⟨name, us, ps, vs, body, closing, named, params, inside, closes, rfl⟩ :=
    leaves_function.mp read
  have shorter : us.length < ts.length := named.within
  have within : vs.length ≤ us.length := params.within
  obtain ⟨ns, splitName, spelt⟩ := declaredName_sound named
  obtain ⟨before, sig, behind, splitSig, first, spelt', second⟩ := signature_sound params
  obtain ⟨used, splitBody, formed, -⟩ := block_sound inside
  rw [place] at formed
  refine ⟨ns ++ (before ++ (sig ++ (behind ++ (used ++ closing)))), ?_,
    .function keyword spelt first spelt' second formed closes⟩
  rw [splitName, splitSig, splitBody]
  simp only [List.append_assoc]
termination_by 3 * ts.length + 2
decreasing_by omega

end

end Grammar

end Guwen
