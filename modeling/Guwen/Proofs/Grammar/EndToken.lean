/-
**Readers stop at an end token by themselves.**

`Program.ofTokens` hands the readers the tokens before the end only. Nothing rests on that cut: a
reader that is given all tokens, whatever end it has been told of, does before an end token what it
does at the end of the tokens, and leaves that token and all behind it.

* `Stops` — two outcomes that agree, but for an end token and what stands behind it.
* `operand_stops`, …, `statement_stops` — each reader, by the recursion of the readers.
* `statementsToEnd` — the statements up to the first end token, of tokens that are not cut.
* **`ofTokens_eq_statementsToEnd`** — reading without the cut is reading.
-/
import Guwen.Proofs.Grammar.PromptReaders

namespace Guwen

namespace Grammar

/-! ### The same outcome before an end token -/

/-- **The second outcome is the first before the end token `e`:** the same refusal, or the same
result with `e` and the tokens behind it left over as well. -/
inductive Stops {α : Type} {p q : List Token → Prop} (e : Token) (behind : List Token) :
    Except Diagnostic (α × Subtype p) → Except Diagnostic (α × Subtype q) → Prop where
  | reads {a : α} {rest : List Token} {left : p rest} {left' : q (rest ++ e :: behind)} :
      Stops e behind (.ok (a, ⟨rest, left⟩)) (.ok (a, ⟨rest ++ e :: behind, left'⟩))
  | refuses {d : Diagnostic} : Stops e behind (.error d) (.error d)

/-- Readings go on together from where they stop together. -/
theorem Stops.bind {α β : Type} {p q : List Token → Prop} {p' q' : List Token → Prop} {e : Token}
    {behind : List Token} {m : Except Diagnostic (α × Subtype p)}
    {m' : Except Diagnostic (α × Subtype q)}
    {f : α × Subtype p → Except Diagnostic (β × Subtype p')}
    {f' : α × Subtype q → Except Diagnostic (β × Subtype q')} (stops : Stops e behind m m')
    (next : ∀ a rest left left',
      Stops e behind (f (a, ⟨rest, left⟩)) (f' (a, ⟨rest ++ e :: behind, left'⟩))) :
    Stops e behind (m >>= f) (m' >>= f') := by
  cases stops with
  | reads => exact next ..
  | refuses => exact .refuses

theorem peek_stops (site : Site) (e : Token) (behind ts : List Token) :
    site.peek (ts ++ e :: behind) = (site.endingAt e).peek ts := by
  cases ts <;> rfl

section

variable {e : Token} (ends : e.kind = .eof) (behind : List Token)

/-! ### Expressions -/

include ends

theorem glyphRun_stops (last : Token) (ts : List Token) :
    glyphRun last (ts ++ e :: behind) =
      ((glyphRun last ts).1, (glyphRun last ts).2 ++ e :: behind) := by
  induction ts generalizing last with
  | nil => simp [glyphRun, ends]
  | cons t ts ih =>
    rw [List.cons_append, glyphRun, glyphRun, ih]
    split
    · rfl
    · rfl

theorem numeral_stops (site : Site) (start : Token) (ts : List Token) :
    Stops e behind (numeral (site.endingAt e) start ts)
      (numeral site start (ts ++ e :: behind)) := by
  unfold numeral
  split
  · exact .reads
  · simp only [glyphRun_stops ends behind]
    cases numeralValue (start.lexeme ++ (glyphRun start ts).1.flatMap Token.lexeme) with
    | ok value => exact .reads
    | error d => exact .refuses

mutual

theorem operand_stops (site : Site) (ts : List Token) :
    Stops e behind (operand (site.endingAt e) ts) (operand site (ts ++ e :: behind)) := by
  cases ts with
  | nil =>
    rw [List.nil_append, operand_refuses (by rw [ends]; rfl), operand]
    exact .refuses
  | cons t ts =>
    rw [List.cons_append]
    by_cases starts : startsExpression t.kind = true
    · rcases startsExpression_iff.mp starts with number | string | name | keyword
      · rw [operand, operand, number]
        exact (numeral_stops ends behind site t ts).bind fun _ _ _ _ => .reads
      · rw [operand, operand, string]
        exact .reads
      · rw [operand, operand, name]
        exact .reads
      · rw [operand, operand, keyword]
        exact (call_stops site t ts).bind fun _ _ _ _ => .reads
    · have other := Bool.eq_false_iff.mpr starts
      rw [operand_refuses other, operand_refuses other]
      exact .refuses
termination_by 4 * ts.length
decreasing_by subst_vars; simp only [List.length_cons]; omega

theorem call_stops (site : Site) (keyword : Token) (ts : List Token) :
    Stops e behind (call (site.endingAt e) keyword ts) (call site keyword (ts ++ e :: behind)) := by
  rw [call.eq_def, call.eq_def]
  cases ts with
  | nil =>
    simp only [List.nil_append, ends]
    exact .refuses
  | cons callee ts =>
    dsimp only [List.cons_append]
    split
    · cases ts with
      | nil =>
        simp only [List.nil_append, ends]
        exact .reads
      | cons mark ts =>
        dsimp only [List.cons_append]
        split
        · exact (arguments_stops site ts).bind fun _ _ _ _ => .reads
        · exact .reads
    · exact .refuses
termination_by 4 * ts.length + 3
decreasing_by subst_vars; simp only [List.length_cons]; omega

theorem chain_stops (site : Site) (ts : List Token) :
    Stops e behind (chain (site.endingAt e) ts) (chain site (ts ++ e :: behind)) := by
  rw [chain, chain]
  refine (operand_stops site ts).bind fun first rest shorter _ => ?_
  cases rest with
  | nil =>
    simp only [List.nil_append, ends]
    exact .reads
  | cons t after =>
    dsimp only [List.cons_append]
    cases Operator.ofKind? t.kind with
    | none => exact .reads
    | some op =>
      have inner : after.length < ts.length := Nat.lt_of_succ_lt shorter
      exact (chain_stops site after).bind fun _ _ _ _ => .reads
termination_by 4 * ts.length + 1

theorem arguments_stops (site : Site) (ts : List Token) :
    Stops e behind (arguments (site.endingAt e) ts) (arguments site (ts ++ e :: behind)) := by
  rw [arguments, arguments]
  refine (chain_stops site ts).bind fun c rest shorter _ => ?_
  cases rest with
  | nil =>
    simp only [List.nil_append, ends]
    exact .reads
  | cons t after =>
    dsimp only [List.cons_append]
    split
    · have inner : after.length < ts.length := Nat.lt_of_succ_lt shorter
      exact (arguments_stops site after).bind fun _ _ _ _ => .reads
    · exact .reads
termination_by 4 * ts.length + 2

end

theorem expression_stops (site : Site) (ts : List Token) :
    Stops e behind (expression (site.endingAt e) ts) (expression site (ts ++ e :: behind)) :=
  (chain_stops ends behind site ts).bind fun _ _ _ _ => .reads

/-! ### Single tokens, names and types -/

theorem skip_stops (kind : TokenKind) (ts : List Token) (other : kind ≠ .eof) :
    ∃ rest left left', skip kind ts = ⟨rest, left⟩ ∧
      skip kind (ts ++ e :: behind) = ⟨rest ++ e :: behind, left'⟩ := by
  cases ts with
  | nil =>
    refine ⟨[], Nat.le_refl _, Nat.le_refl _, rfl, ?_⟩
    rw [skip.eq_def]
    exact if_neg (ends ▸ other.symm)
  | cons t ts =>
    by_cases is : t.kind = kind
    · exact ⟨ts, Nat.le_succ _, Nat.le_succ _, if_pos is, if_pos is⟩
    · exact ⟨t :: ts, Nat.le_refl _, Nat.le_refl _, if_neg is, if_neg is⟩

/-- Reading ends behind a token that may be there. -/
theorem stops_skip {α : Type} {p q : List Token → Prop} (kind : TokenKind) (a : α)
    (ts : List Token) (other : kind ≠ .eof) (left : p (skip kind ts).1)
    (left' : q (skip kind (ts ++ e :: behind)).1) :
    Stops e behind (.ok (a, ⟨(skip kind ts).1, left⟩))
      (.ok (a, ⟨(skip kind (ts ++ e :: behind)).1, left'⟩)) := by
  obtain ⟨rest, _, _, cut, whole⟩ := skip_stops ends behind kind ts other
  revert left left'
  rw [cut, whole]
  exact fun _ _ => .reads

theorem expect_ending (site : Site) {kind : TokenKind} (cause : Diagnostic.Cause)
    (other : kind ≠ .eof) :
    expect site kind cause (e :: behind) = .error (site.refuse cause e) :=
  if_neg (ends ▸ other.symm)

theorem expect_stops (site : Site) (kind : TokenKind) (cause : Diagnostic.Cause)
    (ts : List Token) (other : kind ≠ .eof) :
    Stops e behind (expect (site.endingAt e) kind cause ts)
      (expect site kind cause (ts ++ e :: behind)) := by
  cases ts with
  | nil =>
    rw [List.nil_append, expect_ending ends behind site cause other]
    exact .refuses
  | cons t ts =>
    rw [List.cons_append, expect, expect]
    split
    · exact .reads
    · exact .refuses

theorem typeWord_stops (site : Site) (ts : List Token) :
    Stops e behind (typeWord (site.endingAt e) ts) (typeWord site (ts ++ e :: behind)) := by
  cases ts with
  | nil =>
    rw [List.nil_append, typeWord, typeWord, ends]
    exact .refuses
  | cons t ts =>
    rw [List.cons_append, typeWord, typeWord]
    split
    · exact .reads
    · exact .refuses

theorem declaredName_stops (site : Site) (ts : List Token) :
    Stops e behind (declaredName (site.endingAt e) ts)
      (declaredName site (ts ++ e :: behind)) := by
  obtain ⟨ts₁, _, _, cut, whole⟩ := skip_stops ends behind .nameIt ts (by decide)
  rw [declaredName, declaredName, cut, whole]
  refine (expect_stops ends behind site .named _ ts₁ (by decide)).bind fun _ ts₂ _ _ => ?_
  refine (expect_stops ends behind site .string _ ts₂ (by decide)).bind fun name ts₃ _ _ => ?_
  dsimp only
  split
  · exact .refuses
  · exact .reads

/-! ### Statements without statements inside -/

theorem elements_stops (site : Site) (isList : Bool) (ts : List Token) :
    Stops e behind (elements (site.endingAt e) isList ts)
      (elements site isList (ts ++ e :: behind)) := by
  cases ts with
  | nil =>
    rw [List.nil_append, elements, elements, if_neg (by simp [ends])]
    exact .reads
  | cons t ts =>
    rw [List.cons_append, elements, elements]
    split
    · cases isList with
      | false => exact .refuses
      | true =>
        refine (expression_stops ends behind site ts).bind fun _ ts₁ shorter _ => ?_
        have inner : ts₁.length < (t :: ts).length := Nat.lt_succ_of_lt shorter
        exact (elements_stops site true ts₁).bind fun _ _ _ _ => .reads
    · exact .reads
termination_by ts.length

theorem initialValue_stops (site : Site) (isList : Bool) (ts : List Token) :
    Stops e behind (initialValue (site.endingAt e) isList ts)
      (initialValue site isList (ts ++ e :: behind)) := by
  rw [initialValue, initialValue, peek_stops]
  refine (expression_stops ends behind site ts).bind fun _ ts₁ _ _ => ?_
  exact (elements_stops ends behind site isList ts₁).bind fun _ _ _ _ => .reads

theorem initializer_stops (site : Site) (isList : Bool) (ts : List Token) :
    Stops e behind (initializer (site.endingAt e) isList ts)
      (initializer site isList (ts ++ e :: behind)) := by
  cases ts with
  | nil =>
    rw [List.nil_append, initializer, initializer, if_neg (by simp [ends])]
    exact .reads
  | cons t ts =>
    rw [List.cons_append, initializer, initializer]
    split
    · exact (initialValue_stops ends behind site isList ts).bind fun _ _ _ _ => .reads
    · exact .reads

theorem declaration_stops (site : Site) (keyword : Token) (ts : List Token) :
    Stops e behind (declaration (site.endingAt e) keyword ts)
      (declaration site keyword (ts ++ e :: behind)) := by
  refine (typeWord_stops ends behind (site.inside .declaration) ts).bind fun type ts₁ _ _ => ?_
  refine (declaredName_stops ends behind (site.inside .declaration) ts₁).bind fun _ ts₂ _ _ => ?_
  refine (initializer_stops ends behind (site.inside .declaration) _ ts₂).bind fun _ ts₃ _ _ => ?_
  exact (expect_stops ends behind (site.inside .declaration) .close _ ts₃ (by decide)).bind
    fun _ _ _ _ => .reads

theorem print_stops (site : Site) (keyword : Token) (ts : List Token) :
    Stops e behind (print (site.endingAt e) keyword ts)
      (print site keyword (ts ++ e :: behind)) := by
  refine (expression_stops ends behind (site.inside .print) ts).bind fun value ts₁ _ _ => ?_
  exact stops_skip ends behind .close (Stmt.print keyword value) ts₁ (by decide) _ _

theorem returns_stops (site : Site) (keyword : Token) (ts : List Token) :
    Stops e behind (returns (site.endingAt e) keyword ts)
      (returns site keyword (ts ++ e :: behind)) := by
  rw [returns, returns]
  dsimp only
  rw [peek_stops]
  -- Neither test looks at the end that the site knows of.
  change Stops e behind (if !site.inFunction then _ else _) (if !site.inFunction then _ else _)
  split
  · exact .refuses
  · change Stops e behind (if startsExpression ((site.endingAt e).peek ts).kind then _ else _)
      (if startsExpression ((site.endingAt e).peek ts).kind then _ else _)
    split
    · refine (expression_stops ends behind (site.inside .returns) ts).bind fun value ts₁ _ _ => ?_
      exact stops_skip ends behind .close (Stmt.returns keyword value) ts₁ (by decide) _ _
    · exact stops_skip ends behind .close (Stmt.returns keyword none) ts (by decide) _ _

theorem breaks_stops (site : Site) (keyword : Token) (ts : List Token) :
    Stops e behind (breaks (site.endingAt e) keyword ts)
      (breaks site keyword (ts ++ e :: behind)) := by
  change Stops e behind (if site.inLoop then _ else _) (if site.inLoop then _ else _)
  split
  · exact stops_skip ends behind .close (Stmt.breaks keyword) ts (by decide) _ _
  · exact .refuses

theorem callStatement_stops (site : Site) (keyword : Token) (ts : List Token) :
    Stops e behind (callStatement (site.endingAt e) keyword ts)
      (callStatement site keyword (ts ++ e :: behind)) := by
  refine (call_stops ends behind (site.inside .call) keyword ts).bind fun value ts₁ _ _ => ?_
  exact stops_skip ends behind .close (Stmt.perform keyword value) ts₁ (by decide) _ _

theorem assignment_stops (site : Site) (name : Token) (ts : List Token) :
    Stops e behind (assignment (site.endingAt e) name ts)
      (assignment site name (ts ++ e :: behind)) := by
  refine (expect_stops ends behind (site.inside .assignment) .value _ ts (by decide)).bind
    fun _ ts₁ _ _ => ?_
  refine (expression_stops ends behind (site.inside .assignment) ts₁).bind
    fun value ts₂ _ _ => ?_
  exact stops_skip ends behind .close (Stmt.assign name value) ts₂ (by decide) _ _

/-! ### Parameters and the end of a function -/

theorem parameters_stops (site : Site) (ts : List Token) :
    Stops e behind (parameters (site.endingAt e) ts) (parameters site (ts ++ e :: behind)) := by
  rw [parameters, parameters]
  refine (typeWord_stops ends behind site ts).bind fun _ ts₁ shorter _ => ?_
  refine (declaredName_stops ends behind site ts₁).bind fun _ ts₂ shorter₁ _ => ?_
  obtain ⟨ts₃, le₃, _, cut, whole⟩ := skip_stops ends behind .comma ts₂ (by decide)
  dsimp only
  rw [cut, whole]
  dsimp only
  rw [peek_stops]
  split
  · have inner : ts₃.length < ts.length := by omega
    exact (parameters_stops site ts₃).bind fun _ _ _ _ => .reads
  · exact .reads
termination_by ts.length

theorem signature_stops (site : Site) (ts : List Token) :
    Stops e behind (signature (site.endingAt e) ts) (signature site (ts ++ e :: behind)) := by
  obtain ⟨ts₁, _, _, cut, whole⟩ := skip_stops ends behind .invoke ts (by decide)
  rw [signature, signature, cut, whole]
  cases ts₁ with
  | nil =>
    dsimp only [List.nil_append]
    rw [if_neg (by simp [ends])]
    exact stops_skip ends behind .invoke [] [] (by decide) _ _
  | cons t rest =>
    dsimp only [List.cons_append]
    split
    · refine (parameters_stops ends behind site rest).bind fun params ts₂ _ _ => ?_
      exact stops_skip ends behind .invoke params ts₂ (by decide) _ _
    · exact stops_skip ends behind .invoke [] (t :: rest) (by decide) _ _

/-- The end of a function, which gives nothing but what it leaves. -/
theorem functionEnd_stops {β : Type} {p q : List Token → Prop} (site : Site) (name : Token)
    (ts : List Token) {f : Rest ts → Except Diagnostic (β × Subtype p)}
    {f' : Rest (ts ++ e :: behind) → Except Diagnostic (β × Subtype q)}
    (next : ∀ rest left left', Stops e behind (f ⟨rest, left⟩) (f' ⟨rest ++ e :: behind, left'⟩)) :
    Stops e behind (functionEnd (site.endingAt e) name ts >>= f)
      (functionEnd site name (ts ++ e :: behind) >>= f') := by
  rw [functionEnd.eq_def, functionEnd.eq_def]
  cases ts with
  | nil =>
    dsimp only [List.nil_append]
    rw [if_neg (by simp [ends]), expect_ending ends behind site _ (by decide)]
    exact .refuses
  | cons t ts =>
    dsimp only [List.cons_append]
    split
    · cases ts with
      | nil =>
        dsimp only [List.nil_append]
        rw [if_neg (by simp [ends]), expect_ending ends behind site _ (by decide)]
        exact .refuses
      | cons again ts =>
        dsimp only [List.cons_append]
        split
        · split
          · rw [bind_assoc, bind_assoc]
            exact (expect_stops ends behind site .functionEnd _ ts (by decide)).bind
              fun _ _ _ _ => next ..
          · exact .refuses
        · rw [bind_assoc, bind_assoc]
          exact (expect_stops ends behind site .functionEnd _ (again :: ts) (by decide)).bind
            fun _ _ _ _ => next ..
    · rw [bind_assoc, bind_assoc]
      exact (expect_stops ends behind site .functionEnd _ (t :: ts) (by decide)).bind
        fun _ _ _ _ => next ..

/-! ### Statements and blocks -/

mutual

/-- **A statement stops before an end token by itself:** it is refused there as at the end of the
tokens, or read and the end token left. -/
theorem statement_stops (site : Site) (ts : List Token) :
    Stops e behind (statement (site.endingAt e) ts) (statement site (ts ++ e :: behind)) := by
  cases ts with
  | nil =>
    rw [List.nil_append, statement_refuses (by rw [ends]; rfl), statement]
    exact .refuses
  | cons t ts =>
    rw [List.cons_append]
    by_cases starts : startsStatement t.kind = true
    · rcases startsStatement_iff.mp starts with is | is | is | is | is | is | is | is | is
      all_goals rw [statement, statement, is]
      · exact (declaration_stops ends behind site t ts).bind fun _ _ _ _ => .reads
      · exact (print_stops ends behind site t ts).bind fun _ _ _ _ => .reads
      · exact (conditional_stops (site.inside .conditional) t ts).bind fun _ _ _ _ => .reads
      · exact (loop_stops site.insideLoop t ts).bind fun _ _ _ _ => .reads
      · exact (function_stops site.insideFunction t ts).bind fun _ _ _ _ => .reads
      · exact (returns_stops ends behind site t ts).bind fun _ _ _ _ => .reads
      · exact (breaks_stops ends behind site t ts).bind fun _ _ _ _ => .reads
      · exact (callStatement_stops ends behind site t ts).bind fun _ _ _ _ => .reads
      · exact (assignment_stops ends behind site t ts).bind fun _ _ _ _ => .reads
    · have other := Bool.eq_false_iff.mpr starts
      rw [statement_refuses other, statement_refuses other]
      exact .refuses
termination_by 3 * ts.length
decreasing_by all_goals subst_vars; simp only [List.length_cons]; omega

/-- A block that an end token does not close is refused there. -/
theorem block_stops (site : Site) (unclosed : Diagnostic.Cause) {closes : TokenKind → Bool}
    (unclosing : closes .eof = false) (ts : List Token) :
    Stops e behind (block (site.endingAt e) unclosed closes ts)
      (block site unclosed closes (ts ++ e :: behind)) := by
  cases ts with
  | nil =>
    rw [List.nil_append, block, block, if_neg (by simp [ends, unclosing]), if_pos ends]
    exact .refuses
  | cons t ts =>
    rw [List.cons_append, block, block]
    split
    · exact .reads
    · split
      · exact .refuses
      refine (statement_stops site (t :: ts)).bind fun _ ts₁ shorter _ => ?_
      exact (block_stops site unclosed unclosing ts₁).bind fun _ _ _ _ => .reads
termination_by 3 * ts.length + 1
decreasing_by all_goals subst_vars; omega

theorem conditional_stops (site : Site) (keyword : Token) (ts : List Token) :
    Stops e behind (conditional (site.endingAt e) keyword ts)
      (conditional site keyword (ts ++ e :: behind)) := by
  rw [conditional, conditional]
  refine (expression_stops ends behind site ts).bind fun _ ts₁ shorter _ => ?_
  refine (expect_stops ends behind site .thereupon _ ts₁ (by decide)).bind
    fun _ ts₂ shorter₁ _ => ?_
  refine (block_stops site .expectedBlockEnd rfl ts₂).bind fun _ ts₃ within _ => ?_
  cases ts₃ with
  | nil =>
    dsimp only [List.nil_append]
    rw [if_neg (by simp [ends]), expect_ending ends behind site _ (by decide)]
    exact .refuses
  | cons t rest =>
    dsimp only [List.cons_append]
    split
    · have inner : rest.length < ts.length := by
        rw [List.length_cons] at within
        omega
      refine (block_stops site .expectedBlockEnd rfl rest).bind fun _ ts₄ _ _ => ?_
      exact (expect_stops ends behind site .blockEnd _ ts₄ (by decide)).bind fun _ _ _ _ => .reads
    · exact (expect_stops ends behind site .blockEnd _ (t :: rest) (by decide)).bind
        fun _ _ _ _ => .reads
termination_by 3 * ts.length + 2
decreasing_by all_goals omega

theorem loop_stops (site : Site) (keyword : Token) (ts : List Token) :
    Stops e behind (loop (site.endingAt e) keyword ts)
      (loop site keyword (ts ++ e :: behind)) := by
  rw [loop, loop]
  refine (block_stops site .expectedBlockEnd rfl ts).bind fun _ ts₁ _ _ => ?_
  exact (expect_stops ends behind site .blockEnd _ ts₁ (by decide)).bind fun _ _ _ _ => .reads
termination_by 3 * ts.length + 2

theorem function_stops (site : Site) (keyword : Token) (ts : List Token) :
    Stops e behind (function (site.endingAt e) keyword ts)
      (function site keyword (ts ++ e :: behind)) := by
  rw [function, function]
  refine (declaredName_stops ends behind site ts).bind fun name ts₁ shorter _ => ?_
  refine (signature_stops ends behind site ts₁).bind fun _ ts₂ within _ => ?_
  have inner : ts₂.length < ts.length := by omega
  refine (block_stops site .expectedFunctionEnd rfl ts₂).bind fun _ ts₃ _ _ => ?_
  exact functionEnd_stops ends behind site name ts₃ fun _ _ _ => .reads
termination_by 3 * ts.length + 2

end

end

/-! ### Programs -/

/-- **The statements up to the first end token,** which stands among tokens that are not cut. -/
def statementsToEnd (site : Site) (ts : List Token) : Except Diagnostic (List Stmt) :=
  match ts with
  | [] => .ok []
  | t :: rest =>
    if t.kind = .eof then .ok []
    else do
      let (s, ⟨ts₁, _⟩) ← statement site (t :: rest)
      let ss ← statementsToEnd site ts₁
      return s :: ss
termination_by ts.length
decreasing_by assumption

/-- The statements up to an end token, whatever stands behind it. -/
theorem statementsToEnd_append {e : Token} (ends : e.kind = .eof) (behind : List Token)
    (site : Site) (ts : List Token) (before : ∀ t ∈ ts, t.kind ≠ .eof) :
    statementsToEnd site (ts ++ e :: behind) = statements (site.endingAt e) ts := by
  cases ts with
  | nil => rw [List.nil_append, statementsToEnd, if_pos ends, statements]
  | cons t rest =>
    rw [List.cons_append, statementsToEnd, if_neg (before t List.mem_cons_self), statements]
    have stops := statement_stops ends behind site (t :: rest)
    rw [List.cons_append] at stops
    -- What is left of the cut tokens has no end token either: it is an end of them.
    generalize cut : statement (site.endingAt e) (t :: rest) = first at stops ⊢
    generalize statement site (t :: (rest ++ e :: behind)) = whole at stops ⊢
    cases stops with
    | refuses => rfl
    | @reads s ts₁ shorter _ =>
      obtain ⟨used, split, -⟩ := statement_takes ⟨shorter, cut⟩
      have clear : ∀ u ∈ ts₁, u.kind ≠ .eof := fun u member =>
        before u (split ▸ List.mem_append_right used member)
      have more := statementsToEnd_append ends behind site ts₁ clear
      exact congrArg (· >>= fun ss => Except.ok (s :: ss)) more
termination_by ts.length

/-- The end stands behind the tokens before it, also where it had to be added. -/
theorem exists_append_ending (tokens : List Token) :
    ∃ behind, tokens ++ [ending tokens] = body tokens ++ ending tokens :: behind := by
  have split : body tokens ++ tokens.dropWhile (·.kind != .eof) = tokens :=
    List.takeWhile_append_dropWhile
  cases dropped : tokens.dropWhile (·.kind != .eof) with
  | nil =>
    rw [dropped, List.append_nil] at split
    exact ⟨[], by rw [split]⟩
  | cons e after =>
    have ends := List.head?_dropWhile_not (·.kind != .eof) tokens
    rw [dropped] at ends split
    have last : ending (body tokens ++ e :: after) = e :=
      (body_of_first body_ne_eof (by simpa using ends) after).2
    rw [split] at last
    refine ⟨after ++ [e], ?_⟩
    calc tokens ++ [ending tokens] = (body tokens ++ e :: after) ++ [e] := by rw [last, split]
      _ = body tokens ++ ending tokens :: (after ++ [e]) := by
        rw [last, List.append_assoc, List.cons_append]

/-- **Reading without the cut is reading.** The statements up to the first end token of all tokens,
with an end token added, are those of the program, whatever end the site knows of. -/
theorem ofTokens_eq_statementsToEnd (tokens : List Token) (known : Token) :
    Program.ofTokens tokens =
      statementsToEnd ((top tokens).endingAt known) (tokens ++ [ending tokens]) := by
  obtain ⟨behind, split⟩ := exists_append_ending tokens
  rw [split, statementsToEnd_append (ending_kind tokens) behind _ _ body_ne_eof]
  rfl

end Grammar

end Guwen
