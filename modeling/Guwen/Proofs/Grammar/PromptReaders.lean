/-
**The readers are prompt.**

Every reader looks one token ahead, and what stands before a token that it refuses begins what the
reader stands for. Each lemma puts its reader together from the readers that it calls, by the
recursion of the readers.
-/
import Guwen.Proofs.Grammar.Continuation
import Guwen.Proofs.Grammar.Promptness

namespace Guwen

namespace Grammar

/-! ### Numerals -/

/-- A run of glyphs ends before a token whatever stands behind it. -/
theorem glyphRun_ahead {last : Token} {ts other : List Token}
    (some : (glyphRun last ts).2 ≠ []) (same : other.head? = (glyphRun last ts).2.head?) :
    glyphRun last ((glyphRun last ts).1 ++ other) = ((glyphRun last ts).1, other) := by
  induction ts generalizing last with
  | nil => exact absurd rfl some
  | cons t ts ih =>
    rw [glyphRun] at some same ⊢
    split at some
    next goesOn =>
      rw [if_pos goesOn] at same ⊢
      rw [List.cons_append, glyphRun, if_pos goesOn, ih some same]
    next ends =>
      rw [if_neg ends] at same ⊢
      obtain ⟨us, rfl⟩ : ∃ us, other = t :: us := List.head?_eq_some_iff.mp same
      rw [List.nil_append, glyphRun, if_neg ends]

theorem numeral_prompt {viable : List Token → Prop} (site : Site) (start ending : Token)
    (ts : List Token) : Prompt viable (reading (numeral · start) site) ending ts := by
  constructor
  · intro e rest done
    rcases leaves_numeral.mp (outcome_eq_ok.mp done) with
      ⟨arabic, rfl, rfl⟩ | ⟨glyph, value, reads, rfl, rfl⟩
    · refine ⟨[], rfl, fun _ ending' other _ => outcome_eq_ok.mpr ?_⟩
      exact leaves_numeral.mpr (.inl ⟨arabic, rfl, rfl⟩)
    · refine ⟨(glyphRun start ts).1, (glyphRun_append start ts).symm, ?_⟩
      intro some ending' other same
      have run := glyphRun_ahead some same
      refine outcome_eq_ok.mpr (leaves_numeral.mpr (.inr ⟨glyph, value, ?_, rfl, ?_⟩))
      · rw [run]
        exact reads
      · rw [run]
  · intro d refused syntactic
    rw [lexical_of_numeral (outcome_eq_error.mp refused)] at syntactic
    cases syntactic

/-! ### Expressions -/

theorem startsExpression_iff {kind : TokenKind} : startsExpression kind = true ↔
    kind = .number ∨ kind = .string ∨ kind = .identifier ∨ kind = .apply := by
  cases kind <;> simp [startsExpression]

/-- What the readers know of tokens that were spelt and of the tokens that are left. -/
theorem of_split {ts used rest : List Token} {P : List Token → Prop} (split : ts = used ++ rest)
    (sound : ∃ used', ts = used' ++ rest ∧ P used') : P used := by
  obtain ⟨used', split', holds⟩ := sound
  rwa [List.append_cancel_right (split.symm.trans split')]

/-- A chain behind its first operand. -/
def chainBehind (site : Site) (first : Expr) : Reading Chain := fun ending rest =>
  match rest with
  | [] => .ok (⟨first, []⟩, [])
  | t :: after =>
    match Operator.ofKind? t.kind with
    | none => .ok (⟨first, []⟩, t :: after)
    | some op => reading chain site ending after >>= fun more =>
        .ok (⟨first, ⟨t, op, more.1.first⟩ :: more.1.links⟩, more.2)

theorem reading_chain (site : Site) : reading chain site = fun ending ts =>
    reading operand site ending ts >>= fun first => chainBehind site first.1 ending first.2 := by
  funext ending ts
  rw [reading, chain]
  refine outcome_bind fun first left => ?_
  obtain ⟨rest, shorter⟩ := left
  cases rest with
  | nil => rfl
  | cons t after =>
    dsimp only [chainBehind]
    cases Operator.ofKind? t.kind with
    | none => rfl
    | some op => exact outcome_bind fun _ _ => rfl

/-- Arguments behind the first of them. -/
def argumentsBehind (site : Site) (c : Chain) : Reading (List Expr) := fun ending rest =>
  match rest with
  | [] => .ok ([c.tree], [])
  | t :: after =>
    if separatesArguments t.kind then
      reading arguments site ending after >>= fun more => .ok (c.tree :: more.1, more.2)
    else .ok ([c.tree], t :: after)

theorem reading_arguments (site : Site) : reading arguments site = fun ending ts =>
    reading chain site ending ts >>= fun c => argumentsBehind site c.1 ending c.2 := by
  funext ending ts
  rw [reading, arguments]
  refine outcome_bind fun c left => ?_
  obtain ⟨rest, shorter⟩ := left
  cases rest with
  | nil => rfl
  | cons t after =>
    dsimp only [argumentsBehind]
    simp only [← separatesArguments_iff]
    split
    · exact outcome_bind fun _ _ => rfl
    · rfl

theorem operand_refuses {site : Site} {t : Token} (other : startsExpression t.kind = false)
    (ts : List Token) : operand site (t :: ts) = .error (site.refuse .expectedExpression t) := by
  rw [operand]
  split
  all_goals first
    | rfl
    | next is =>
      rw [is] at other
      cases other

mutual

theorem operand_prompt (site : Site) (ending : Token) (ts : List Token) :
    Prompt (Begins fun e => Spells (.operand e)) (reading operand site) ending ts := by
  cases ts with
  | nil =>
    refine .refuseEnd site .expectedExpression begins_operand (outcome_eq_error.mpr ?_)
    rw [operand]
    rfl
  | cons t ts =>
    by_cases starts : startsExpression t.kind = true
    · rcases startsExpression_iff.mp starts with number | string | name | keyword
      · refine .cons (numeral_prompt site t ending ts) fun ending' other _ => ?_
        rw [reading, operand, number]
        exact outcome_behind fun _ _ => rfl
      · refine .cons (.pure (a := .literal t .string t.lexeme)) fun ending' other _ => ?_
        rw [reading, operand, string]
        rfl
      · refine .cons (.pure (a := .use t none)) fun ending' other _ => ?_
        rw [reading, operand, name]
        rfl
      · refine .cons (call_prompt site keyword ending ts) fun ending' other _ => ?_
        rw [reading, operand, keyword]
        exact outcome_behind fun _ _ => rfl
    · have other := Bool.eq_false_iff.mpr starts
      exact .refuse site .expectedExpression begins_operand fun ending' us =>
        outcome_eq_error.mpr (operand_refuses other us)
termination_by 4 * ts.length
decreasing_by subst_vars; simp only [List.length_cons]; omega

theorem call_prompt (site : Site) {k : Token} (keyword : k.kind = .apply) (ending : Token)
    (ts : List Token) :
    Prompt (fun front => Begins (fun e => Spells (.operand e)) (k :: front))
      (reading (call · k) site) ending ts := by
  cases ts with
  | nil =>
    refine .refuseEnd site .expectedCallee (begins_callee keyword) ?_
    rw [reading, call.eq_def]
    rfl
  | cons callee ts =>
    by_cases called : callee.kind = .identifier ∨ callee.kind = .string
    · cases ts with
      | nil =>
        refine .whole (a := .call k callee [] none) ?_
        rw [reading, call.eq_def]
        dsimp only
        rw [if_pos called]
        rfl
      | cons mark ts =>
        by_cases opens : opensArguments mark.kind = true
        · have values := ((arguments_prompt site ending ts).mono fun front _ =>
            begins_call keyword called opens).map fun es => Expr.call k callee es none
          refine .cons (.cons values fun ending' other _ => ?_) fun _ _ _ => rfl
          rw [reading, call.eq_def]
          dsimp only
          rw [if_pos called, if_pos (opensArguments_iff.mp opens)]
          exact outcome_bind fun _ _ => rfl
        · refine .cons (.look (a := .call k callee [] none) fun ending' other => ?_)
            fun _ _ _ => rfl
          rw [reading, call.eq_def]
          dsimp only
          rw [if_pos called, if_neg fun is => opens (opensArguments_iff.mpr is)]
          rfl
    · refine .refuse site .expectedCallee (begins_callee keyword) fun ending' other => ?_
      rw [reading, call.eq_def]
      dsimp only
      rw [if_neg called]
      rfl
termination_by 4 * ts.length + 3
decreasing_by subst_vars; simp only [List.length_cons]; omega

theorem chain_prompt (site : Site) (ending : Token) (ts : List Token) :
    Prompt (Begins SpellsChain) (reading chain site) ending ts := by
  rw [reading_chain]
  refine ((operand_prompt site ending ts).mono fun _ _ => begins_chain).bind ?_
  intro first used rest done split
  have read : Leaves (operand _ ts) first rest := outcome_eq_ok.mp done
  have shorter : rest.length < ts.length := read.within
  have spelt := of_split split (operand_sound read)
  cases rest with
  | nil => exact .whole rfl
  | cons t after =>
    have inner : after.length < ts.length := Nat.lt_of_succ_lt shorter
    cases operator : Operator.ofKind? t.kind with
    | none =>
      refine .look (a := ⟨first, []⟩) fun ending' other => ?_
      rw [chainBehind, operator]
    | some op =>
      have links := ((chain_prompt site ending after).mono fun front _ =>
        begins_link spelt operator).map fun more =>
          (⟨first, ⟨t, op, more.first⟩ :: more.links⟩ : Chain)
      refine .cons links fun ending' other _ => ?_
      rw [chainBehind, operator]
termination_by 4 * ts.length + 1

theorem arguments_prompt (site : Site) (ending : Token) (ts : List Token) :
    Prompt (Begins fun es => Spells (.arguments es)) (reading arguments site) ending ts := by
  rw [reading_arguments]
  refine ((chain_prompt site ending ts).mono fun _ _ => begins_lastArgument).bind ?_
  intro c used rest done split
  have read : Leaves (chain _ ts) c rest := outcome_eq_ok.mp done
  have shorter : rest.length < ts.length := read.within
  have spelt := of_split split (expression_sound (leaves_expression.mpr ⟨c, read, rfl⟩))
  cases rest with
  | nil => exact .whole rfl
  | cons t after =>
    have inner : after.length < ts.length := Nat.lt_of_succ_lt shorter
    by_cases separates : separatesArguments t.kind = true
    · have values := ((arguments_prompt site ending after).mono fun front _ =>
        begins_argument spelt separates).map fun more => c.tree :: more
      refine .cons values fun ending' other _ => ?_
      rw [argumentsBehind, if_pos separates]
    · refine .look (a := [c.tree]) fun ending' other => ?_
      rw [argumentsBehind, if_neg separates]
termination_by 4 * ts.length + 2

end

theorem expression_prompt (site : Site) (ending : Token) (ts : List Token) :
    Prompt BeginsExpression (reading expression site) ending ts := by
  have tree := ((chain_prompt site ending ts).mono fun _ _ => begins_expression).map Chain.tree
  exact tree.congr fun ending' other _ => outcome_bind fun _ _ => rfl

/-! ### Single tokens -/

section

variable {viable : List Token → Prop} {ending : Token} {ts : List Token}

/-- Taking one token, if it is of the right kind. -/
theorem token_prompt {read : Reading Token} (picks : Token → Prop) (site : Site)
    (cause : Diagnostic.Cause) (possible : viable [])
    (ended : ∀ ending', read ending' [] = .error (site.refuse cause ending'))
    (taken : ∀ ending' t us, picks t → read ending' (t :: us) = .ok (t, us))
    (refused : ∀ ending' t us, ¬ picks t → read ending' (t :: us) = .error (site.refuse cause t)) :
    Prompt viable read ending ts := by
  cases ts with
  | nil => exact .refuseEnd site cause possible (ended ending)
  | cons t us =>
    by_cases picked : picks t
    · exact .cons .pure fun ending' other _ => taken ending' t other picked
    · exact .refuse site cause possible fun ending' other => refused ending' t other picked

theorem expect_prompt (site : Site) (kind : TokenKind) (cause : Diagnostic.Cause)
    (possible : viable []) : Prompt viable (reading (expect · kind cause) site) ending ts := by
  refine token_prompt (fun t => t.kind = kind) site cause possible (fun _ => rfl) ?_ ?_
  · intro ending' t us is
    rw [reading, expect, if_pos is]
    rfl
  · intro ending' t us other
    rw [reading, expect, if_neg other]
    rfl

/-- The token that is expected is there. -/
theorem expected_prompt {kind : TokenKind} {t : Token} (site : Site) (cause : Diagnostic.Cause)
    (is : t.kind = kind) : Prompt viable (reading (expect · kind cause) site) ending (t :: ts) := by
  refine .cons (.pure (a := t)) fun ending' other _ => ?_
  rw [reading, expect, if_pos is]
  rfl

theorem typeWord_prompt (site : Site) (possible : viable []) :
    Prompt viable (reading typeWord site) ending ts := by
  refine token_prompt (fun t => t.kind.isType = true) site .expectedType possible
    (fun _ => rfl) ?_ ?_
  · intro ending' t us is
    rw [reading, typeWord, if_pos is]
    rfl
  · intro ending' t us other
    rw [reading, typeWord, if_neg other]
    rfl

/-- Reading behind an optional token. -/
theorem behind_prompt {α : Type} {read : Reading α} (kind : TokenKind)
    (behind : ∀ lead rest, Optional kind lead → ts = lead ++ rest →
      Prompt (fun front => viable (lead ++ front)) read ending rest) :
    Prompt viable (fun ending' us => read ending' (skip kind us).1) ending ts := by
  cases ts with
  | nil =>
    refine (behind [] [] (.inl rfl) rfl).congr fun ending' other head => ?_
    cases List.head?_eq_none_iff.mp head
    rfl
  | cons t us =>
    by_cases is : t.kind = kind
    · refine .cons (behind [t] us (.inr ⟨t, is, rfl⟩) rfl) fun ending' other _ => ?_
      rw [skip, if_pos is]
    · refine (behind [] (t :: us) (.inl rfl) rfl).congr fun ending' other head => ?_
      obtain ⟨vs, rfl⟩ : ∃ vs, other = t :: vs := List.head?_eq_some_iff.mp head
      rw [skip, if_neg is]

/-- An optional token, skipped with a result at hand. -/
def skipping {α : Type} (kind : TokenKind) (a : α) : Reading α :=
  fun _ ts => .ok (a, (skip kind ts).1)

theorem skip_prompt {α : Type} (kind : TokenKind) (a : α) :
    Prompt viable (skipping kind a) ending ts :=
  behind_prompt kind fun _ _ _ _ => .pure

theorem kind_of_expect {site : Site} {kind : TokenKind} {cause : Diagnostic.Cause} {t : Token}
    {used rest : List Token} (done : reading (expect · kind cause) site ending ts = .ok (t, rest))
    (split : ts = used ++ rest) : t.kind = kind ∧ used = [t] := by
  obtain ⟨is, same⟩ := leaves_expect.mp (outcome_eq_ok.mp done)
  exact ⟨is, of_split (P := (· = [t])) split ⟨[t], same, rfl⟩⟩

theorem isType_of_typeWord {site : Site} {t : Token} {used rest : List Token}
    (done : reading typeWord site ending ts = .ok (t, rest)) (split : ts = used ++ rest) :
    t.kind.isType = true ∧ used = [t] := by
  obtain ⟨is, same⟩ := leaves_typeWord.mp (outcome_eq_ok.mp done)
  exact ⟨is, of_split (P := (· = [t])) split ⟨[t], same, rfl⟩⟩

end

/-! ### Names and values -/

/-- A name in quotes that is not blank. -/
def quotedName (site : Site) : Reading Token := fun ending ts =>
  reading (expect · .string .expectedName) site ending ts >>= fun name =>
    if name.1.lexeme.isBlank then .error (site.refuse .emptyName name.1) else .ok name

theorem quotedName_prompt {viable : List Token → Prop} {ending : Token} {ts : List Token}
    (site : Site) (possible : viable []) : Prompt viable (quotedName site) ending ts := by
  cases ts with
  | nil => exact .refuseEnd site .expectedName possible rfl
  | cons t us =>
    by_cases string : t.kind = .string
    · by_cases blank : t.lexeme.isBlank = true
      · refine .refuse site .emptyName possible fun ending' other => ?_
        rw [quotedName, reading, expect, if_pos string]
        exact if_pos blank
      · refine .cons (.pure (a := t)) fun ending' other _ => ?_
        rw [quotedName, reading, expect, if_pos string]
        exact if_neg blank
    · refine .refuse site .expectedName possible fun ending' other => ?_
      rw [quotedName, reading, expect, if_neg string]
      rfl

theorem declaredName_prompt (site : Site) (ending : Token) (ts : List Token) :
    Prompt BeginsName (reading declaredName site) ending ts := by
  have parts : Prompt BeginsName _ ending ts := behind_prompt .nameIt fun lead rest optional _ => by
    have bare := begins_lead optional
    rw [← List.append_nil lead] at bare
    exact (expect_prompt site .named .expectedNamed bare).bind fun mark used rest' done split => by
      obtain ⟨named, rfl⟩ := kind_of_expect done split
      exact quotedName_prompt site (begins_name optional named)
  refine parts.congr fun ending' other _ => ?_
  refine outcome_bind fun mark left => outcome_bind fun name left' => ?_
  dsimp only
  split <;> rfl

theorem elements_prompt (site : Site) (isList : Bool) (ending : Token) (ts : List Token) :
    Prompt (Begins (SpellsMore isList)) (reading (elements · isList) site) ending ts := by
  cases ts with
  | nil =>
    refine .whole (a := []) ?_
    rw [reading, elements]
    rfl
  | cons t us =>
    by_cases comma : t.kind = .comma
    · cases isList with
      | false =>
        refine .refuse site .listOutsideList
          ⟨[], [], List.nil_prefix, fun _ _ => .inl ⟨rfl, rfl⟩⟩ fun ending' other => ?_
        rw [reading, elements, if_pos comma]
        rfl
      | true =>
        have parts : Prompt (fun front => Begins (SpellsMore true) (t :: front)) _ ending us :=
          ((expression_prompt site ending us).mono fun _ _ => begins_element comma).bind
            fun e used rest done split => by
              have read : Leaves (expression _ us) e rest := outcome_eq_ok.mp done
              have shorter : rest.length < us.length := read.within
              have spelt := of_split split (expression_sound read)
              exact ((elements_prompt site true ending rest).mono fun front within more =>
                begins_elements comma spelt more within).map fun es => e :: es
        refine .cons parts fun ending' other _ => ?_
        rw [reading, elements, if_pos comma]
        exact outcome_bind fun _ _ => outcome_bind fun _ _ => rfl
    · refine .look (a := []) fun ending' other => ?_
      rw [reading, elements, if_neg comma]
      rfl
termination_by ts.length

theorem initialValue_prompt (site : Site) (isList : Bool) (ending : Token) (ts : List Token) :
    Prompt (Begins (SpellsValue isList)) (reading (initialValue · isList) site) ending ts := by
  have parts (start : Token) : Prompt (Begins (SpellsValue isList)) _ ending ts :=
    ((expression_prompt site ending ts).mono fun _ _ => begins_value isList).bind
      fun first used rest done split => by
        have spelt := of_split split (expression_sound (outcome_eq_ok.mp done))
        exact ((elements_prompt site isList ending rest).mono fun front within more =>
          begins_list spelt more within).map fun more =>
            if isList then listValue start first more else first
  -- the token that the value starts with is the first of the tokens, if there is one
  cases ts with
  | nil =>
    refine (parts ending).congr fun ending' other head => ?_
    cases List.head?_eq_none_iff.mp head
    dsimp only [reading, initialValue, expression]
    rw [chain, operand]
    rfl
  | cons t us =>
    refine (parts t).congr fun ending' other head => ?_
    obtain ⟨vs, rfl⟩ : ∃ vs, other = t :: vs := List.head?_eq_some_iff.mp head
    exact outcome_bind fun _ _ => outcome_bind fun _ _ => rfl

theorem initializer_prompt (site : Site) (isList : Bool) (ending : Token) (ts : List Token) :
    Prompt (Begins (SpellsInitial isList)) (reading (initializer · isList) site) ending ts := by
  cases ts with
  | nil => exact .whole (a := none) rfl
  | cons t us =>
    by_cases keyword : t.kind = .value
    · have value := ((initialValue_prompt site isList ending us).mono fun _ _ =>
        begins_initial keyword).map some
      refine .cons value fun ending' other _ => ?_
      rw [reading, initializer, if_pos keyword]
      exact outcome_bind fun _ _ => rfl
    · refine .look (a := none) fun ending' other => ?_
      rw [reading, initializer, if_neg keyword]
      rfl

/-! ### Parameters and the end of a function -/

/-- Parameters behind the first of them and an optional 、. -/
def parametersBehind (site : Site) (param : Param) : Reading (List Param) := fun ending ts =>
  if ((site.endingAt ending).peek ts).kind.isType then
    reading parameters site ending ts >>= fun more => .ok (param :: more.1, more.2)
  else .ok ([param], ts)

theorem parametersBehind_prompt {viable : List Token → Prop} {site : Site} {ending : Token}
    {ts : List Token} (param : Param) (possible : viable [])
    (more : Prompt viable (reading parameters site) ending ts) :
    Prompt viable (parametersBehind site param) ending ts := by
  cases ts with
  | nil =>
    by_cases isType : ending.kind.isType = true
    · refine .refuseEnd site .expectedType possible ((if_pos isType).trans ?_)
      rw [reading, parameters]
      rfl
    · exact .whole (a := [param]) (if_neg isType)
  | cons t us =>
    by_cases isType : t.kind.isType = true
    · refine (more.map fun ps => param :: ps).congr fun ending' other head => ?_
      obtain ⟨vs, rfl⟩ : ∃ vs, other = t :: vs := List.head?_eq_some_iff.mp head
      exact if_pos isType
    · exact .look (a := [param]) fun ending' other => if_neg isType

theorem begins_noParams : BeginsParams [] :=
  (begins_param (show (Token.keyword .numberType).kind.isType = true from rfl)
    (begins_lead (.inl rfl))).shorten List.nil_prefix

theorem parameters_prompt (site : Site) (ending : Token) (ts : List Token) :
    Prompt BeginsParams (reading parameters site) ending ts := by
  have parts : Prompt BeginsParams _ ending ts := (typeWord_prompt site begins_noParams).bind
    fun type used rest done split => by
      obtain ⟨isType, rfl⟩ := isType_of_typeWord done split
      exact ((declaredName_prompt site ending rest).mono fun _ _ => begins_param isType).bind
        fun name ns rest' done' split' => by
          have named := of_split split' (declaredName_sound (outcome_eq_ok.mp done'))
          exact behind_prompt .comma fun comma rest'' optional split'' => by
            have shorter : rest''.length < ts.length := by
              rw [split, split', split'']
              simp only [List.length_append, List.length_cons]
              omega
            have single : BeginsParams (type :: (ns ++ comma)) :=
              ⟨_, _, List.prefix_refl _, fun _ _ => .last isType named optional⟩
            have further : Prompt (fun front => BeginsParams (type :: (ns ++ (comma ++ front))))
                (reading parameters site) ending rest'' :=
              (parameters_prompt site ending rest'').mono fun front _ more => by
                have whole := begins_params isType named optional more
                rwa [List.append_assoc] at whole
            rw [← List.append_nil comma] at single
            exact parametersBehind_prompt ⟨type, name⟩ single further
  refine parts.congr fun ending' other _ => ?_
  rw [reading, parameters]
  refine outcome_bind fun type left => outcome_bind fun name left' => ?_
  dsimp only [parametersBehind]
  split
  · exact outcome_bind fun _ _ => rfl
  · rfl
termination_by ts.length

/-- What follows a first optional 欲行是術. -/
def signatureBehind (site : Site) : Reading (List Param) := fun ending ts =>
  match ts with
  | [] => .ok ([], [])
  | t :: rest =>
    if t.kind = .params then
      reading parameters site ending rest >>= fun ps => skipping .invoke ps.1 ending ps.2
    else skipping .invoke [] ending (t :: rest)

theorem reading_signature (site : Site) : reading signature site = fun ending ts =>
    signatureBehind site ending (skip .invoke ts).1 := by
  funext ending ts
  dsimp only [reading, signature]
  generalize skip .invoke ts = skipped
  obtain ⟨ts₁, le₁⟩ := skipped
  cases ts₁ with
  | nil => rfl
  | cons t rest =>
    dsimp only [signatureBehind]
    split
    · exact outcome_bind fun _ _ => rfl
    · rfl

theorem signature_prompt (site : Site) (ending : Token) (ts : List Token) :
    Prompt (Begins fun ps ts _ => SpellsHeading ps ts) (reading signature site) ending ts := by
  rw [reading_signature]
  refine behind_prompt .invoke fun before rest optional split => ?_
  cases rest with
  | nil => exact .whole (a := []) rfl
  | cons t rest =>
    by_cases keyword : t.kind = .params
    · have params := ((parameters_prompt site ending rest).mono fun _ _ =>
        begins_heading optional keyword).bind fun ps _ _ _ _ => skip_prompt .invoke ps
      exact .cons params fun ending' other _ => if_pos keyword
    · refine (skip_prompt .invoke []).congr fun ending' other head => ?_
      obtain ⟨us, rfl⟩ : ∃ us, other = t :: us := List.head?_eq_some_iff.mp head
      exact if_neg keyword

theorem heading_sound {site : Site} {ts rest : List Token} {ps : List Param}
    (read : Leaves (signature site ts) ps rest) :
    ∃ used, ts = used ++ rest ∧ SpellsHeading ps used := by
  obtain ⟨before, sig, behind, split, first, params, second⟩ := signature_sound read
  refine ⟨before ++ (sig ++ behind), ?_, before, sig, behind, rfl, first, params, second⟩
  rw [split]
  simp only [List.append_assoc]

/-- The end of a function, with nothing as its result. -/
def endReading (site : Site) (name : Token) : Reading Unit := fun ending ts =>
  (functionEnd (site.endingAt ending) name ts).map fun left => ((), left.1)

theorem functionEnd_prompt (site : Site) (name ending : Token) (ts : List Token) :
    Prompt (Begins fun (_ : Unit) us _ => SpellsEnd name us) (endReading site name) ending ts := by
  have plain : Begins (fun (_ : Unit) us _ => SpellsEnd name us) [] :=
    ⟨(), [.keyword .functionEnd], List.nil_prefix, fun _ _ => .plain rfl⟩
  have closing {viable : List Token → Prop} (possible : viable []) (us : List Token) :
      Prompt viable _ ending us :=
    (expect_prompt site .functionEnd .expectedFunctionEnd possible).map fun _ => ()
  cases ts with
  | nil => exact .refuseEnd site .expectedFunctionEnd plain rfl
  | cons t rest =>
    by_cases keyword : t.kind = .functionName
    · have called : Begins (fun (_ : Unit) us _ => SpellsEnd name us) [t] :=
        ⟨(), [t, .keyword .functionEnd], ⟨[_], rfl⟩, fun _ _ => .called keyword rfl⟩
      have behind : Prompt
          (fun front => Begins (fun (_ : Unit) us _ => SpellsEnd name us) (t :: front))
          (fun ending' us => endReading site name ending' (t :: us)) ending rest := by
        cases rest with
        | nil =>
          refine .refuseEnd site .expectedFunctionEnd called ?_
          dsimp only [endReading, functionEnd]
          rw [if_pos keyword]
          rfl
        | cons again after =>
          by_cases string : again.kind = .string
          · by_cases same : again.lexeme = name.lexeme
            · have named : Begins (fun (_ : Unit) us _ => SpellsEnd name us) [t, again] :=
                ⟨(), [t, again, .keyword .functionEnd], ⟨[_], rfl⟩,
                  fun _ _ => .named keyword string same rfl⟩
              refine .cons (closing named after) fun ending' other _ => ?_
              dsimp only [endReading, functionEnd, reading]
              rw [if_pos keyword, if_pos string, if_pos same]
              cases expect (site.endingAt ending') .functionEnd .expectedFunctionEnd other <;> rfl
            · refine .refuse site .functionNameMismatch called fun ending' other => ?_
              dsimp only [endReading, functionEnd]
              rw [if_pos keyword, if_pos string, if_neg same]
              rfl
          · refine (closing called (again :: after)).congr fun ending' other head => ?_
            obtain ⟨us, rfl⟩ : ∃ us, other = again :: us := List.head?_eq_some_iff.mp head
            dsimp only [endReading, functionEnd, reading]
            rw [if_pos keyword, if_neg string]
            cases expect (site.endingAt ending') .functionEnd .expectedFunctionEnd (again :: us) <;>
              rfl
      exact .cons behind fun _ _ _ => rfl
    · refine (closing plain (t :: rest)).congr fun ending' other head => ?_
      obtain ⟨us, rfl⟩ : ∃ us, other = t :: us := List.head?_eq_some_iff.mp head
      dsimp only [endReading, functionEnd, reading]
      rw [if_neg keyword]
      cases expect (site.endingAt ending') .functionEnd .expectedFunctionEnd (t :: us) <;> rfl

/-! ### Statements without statements inside -/

section

variable {place : Place} {k : Token}

theorem begins_type (keyword : k.kind = .declare) : BeginsStatement place [k] :=
  (begins_declareName keyword (show (Token.keyword .numberType).kind.isType = true from rfl)
    (begins_lead (.inl rfl))).shorten ⟨[_], rfl⟩

theorem declaration_prompt (site : Site) (keyword : k.kind = .declare) (ending : Token)
    (ts : List Token) :
    Prompt (fun front => BeginsStatement place (k :: front)) (reading (declaration · k) site)
      ending ts := by
  have parts : Prompt (fun front => BeginsStatement place (k :: front)) _ ending ts :=
    (typeWord_prompt (site.inside .declaration) (begins_type keyword)).bind
      fun type used rest done split => by
        obtain ⟨isType, rfl⟩ := isType_of_typeWord done split
        exact ((declaredName_prompt (site.inside .declaration) ending rest).mono fun _ _ =>
          begins_declareName keyword isType).bind fun name ns rest' done' split' => by
            have named := of_split split' (declaredName_sound (outcome_eq_ok.mp done'))
            exact ((initializer_prompt (site.inside .declaration) (type.kind == .listType) ending
              rest').mono fun _ _ => begins_declareValue keyword isType named).bind
                fun value us rest'' done'' split'' => by
                  have initial := of_split split'' (initializer_sound (outcome_eq_ok.mp done''))
                  have unclosed : BeginsStatement place (k :: type :: (ns ++ us)) :=
                    begins_declareValue keyword isType named
                      ⟨value, us, List.prefix_refl us, fun _ settled => initial.settled settled⟩
                  rw [← List.append_nil us] at unclosed
                  exact (expect_prompt (site.inside .declaration) .close .expectedClose
                    unclosed).map fun _ => Stmt.declare k type name value
  exact parts.congr fun ending' other _ => outcome_bind fun _ _ => outcome_bind fun _ _ =>
    outcome_bind fun _ _ => outcome_bind fun _ _ => rfl

theorem print_prompt (site : Site) (keyword : k.kind = .print) (ending : Token) (ts : List Token) :
    Prompt (fun front => BeginsStatement place (k :: front)) (reading (print · k) site)
      ending ts := by
  have value : Prompt (fun front => BeginsStatement place (k :: front)) _ ending ts :=
    (expression_prompt (site.inside .print) ending ts).mono fun _ _ => begins_print keyword
  refine (value.bind fun e _ _ _ _ => skip_prompt .close (Stmt.print k e)).congr ?_
  exact fun ending' other _ => outcome_bind fun _ _ => rfl

theorem callStatement_prompt (site : Site) (keyword : k.kind = .apply) (ending : Token)
    (ts : List Token) :
    Prompt (fun front => BeginsStatement place (k :: front)) (reading (callStatement · k) site)
      ending ts := by
  have value : Prompt (fun front => BeginsStatement place (k :: front)) _ ending ts :=
    (call_prompt (site.inside .call) keyword ending ts).mono fun _ _ => begins_perform keyword
  refine (value.bind fun e _ _ _ _ => skip_prompt .close (Stmt.perform k e)).congr ?_
  exact fun ending' other _ => outcome_bind fun _ _ => rfl

theorem assignment_prompt (site : Site) (named : k.kind = .identifier) (ending : Token)
    (ts : List Token) :
    Prompt (fun front => BeginsStatement place (k :: front)) (reading (assignment · k) site)
      ending ts := by
  have bare : BeginsStatement place [k] :=
    (begins_assign named (show (Token.keyword .value).kind = .value from rfl)
      (begins_expression (begins_chain begins_operand))).shorten ⟨[_], rfl⟩
  have parts : Prompt (fun front => BeginsStatement place (k :: front)) _ ending ts :=
    (expect_prompt (site.inside .assignment) .value .expectedValue bare).bind
      fun mark used rest done split => by
        obtain ⟨is, rfl⟩ := kind_of_expect done split
        exact ((expression_prompt (site.inside .assignment) ending rest).mono fun _ _ =>
          begins_assign named is).bind fun e _ _ _ _ => skip_prompt .close (Stmt.assign k e)
  exact parts.congr fun ending' other _ => outcome_bind fun _ _ => outcome_bind fun _ _ => rfl

/-- 乃得 inside a function reads a value if one can start, and nothing otherwise. -/
theorem reading_returns {site : Site} (inside : site.inFunction = true) (ending : Token)
    (ts : List Token) : reading (returns · k) site ending ts =
      if startsExpression ((site.endingAt ending).peek ts).kind then
        reading expression (site.inside .returns) ending ts >>= fun e =>
          skipping .close (Stmt.returns k (some e.1)) ending e.2
      else skipping .close (Stmt.returns k none) ending ts := by
  have inFunction : ¬ (!((site.endingAt ending).inside .returns).inFunction) = true := by
    show ¬ (!site.inFunction) = true
    rw [inside]
    decide
  dsimp only [reading, returns]
  rw [if_neg inFunction]
  by_cases starts : startsExpression ((site.endingAt ending).peek ts).kind = true
  · rw [if_pos starts]
    exact (congrArg outcome (if_pos starts)).trans (outcome_bind fun _ _ => rfl)
  · rw [if_neg starts]
    exact congrArg outcome (if_neg starts)

theorem returns_prompt {site : Site} (keyword : k.kind = .returns)
    (inside : site.inFunction = true) (within : place.inFunction = true) (ending : Token)
    (ts : List Token) :
    Prompt (fun front => BeginsStatement place (k :: front)) (reading (returns · k) site)
      ending ts := by
  have value : Prompt (fun front => BeginsStatement place (k :: front)) _ ending ts :=
    ((expression_prompt (site.inside .returns) ending ts).mono fun _ _ =>
      begins_returnValue keyword within).bind fun e _ _ _ _ =>
        skip_prompt .close (Stmt.returns k (some e))
  cases ts with
  | nil =>
    by_cases starts : startsExpression ending.kind = true
    · refine .refuseEnd (site.inside .returns) .expectedExpression
        (begins_returnValue keyword within (begins_expression (begins_chain begins_operand))) ?_
      rw [reading_returns inside]
      refine (if_pos starts).trans ?_
      dsimp only [reading, expression]
      rw [chain, operand]
      rfl
    · exact .whole ((reading_returns inside ending []).trans (if_neg starts))
  | cons t us =>
    by_cases starts : startsExpression t.kind = true
    · refine value.congr fun ending' other head => (reading_returns inside ending' other).trans ?_
      obtain ⟨vs, rfl⟩ : ∃ vs, other = t :: vs := List.head?_eq_some_iff.mp head
      exact if_pos starts
    · refine (skip_prompt .close (Stmt.returns k none)).congr fun ending' other head =>
        (reading_returns inside ending' other).trans ?_
      obtain ⟨vs, rfl⟩ : ∃ vs, other = t :: vs := List.head?_eq_some_iff.mp head
      exact if_neg starts

theorem breaks_prompt {viable : List Token → Prop} {site : Site} (k : Token)
    (inside : site.inLoop = true) (ending : Token) (ts : List Token) :
    Prompt viable (reading (breaks · k) site) ending ts := by
  refine (skip_prompt .close (Stmt.breaks k)).congr fun ending' other _ => ?_
  have inLoop : (site.endingAt ending').inLoop = true := inside
  rw [reading, breaks, if_pos inLoop]
  rfl

end

/-! ### Statements and blocks -/

theorem startsStatement_iff {kind : TokenKind} : startsStatement kind = true ↔
    kind = .declare ∨ kind = .print ∨ kind = .whether ∨ kind = .loop ∨ kind = .function ∨
      kind = .returns ∨ kind = .breaks ∨ kind = .apply ∨ kind = .identifier := by
  cases kind <;> simp [startsStatement]

theorem statement_refuses {site : Site} {t : Token} (other : startsStatement t.kind = false)
    (ts : List Token) : statement site (t :: ts) = .error (site.refuse .undefinedStatement t) := by
  rw [statement]
  split
  all_goals first
    | rfl
    | next is =>
      rw [is] at other
      cases other

theorem begins_noStatement {place : Place} : BeginsStatement place [] :=
  (begins_print (show (Token.keyword .print).kind = .print from rfl)
    (begins_expression (begins_chain begins_operand))).shorten List.nil_prefix

/-- What follows the first block of a conditional. -/
def branchBehind (site : Site) (k : Token) (condition : Expr) (yes : List Stmt) : Reading Stmt :=
  fun ending ts =>
    match ts with
    | [] => .error (site.refuse .expectedBlockEnd ending)
    | t :: rest =>
      if t.kind = .otherwise then
        reading (block · .expectedBlockEnd closesBlock) site ending rest >>= fun no =>
          reading (expect · .blockEnd .expectedBlockEnd) site ending no.2 >>= fun closing =>
            .ok (.conditional k condition yes no.1, closing.2)
      else
        reading (expect · .blockEnd .expectedBlockEnd) site ending (t :: rest) >>= fun closing =>
          .ok (.conditional k condition yes [], closing.2)

theorem blockEnd_of_closesBlock {kind : TokenKind} (closes : closesBlock kind = true) :
    kind = .blockEnd := by
  cases kind <;> first | rfl | cases closes

theorem blockEnd_of_closesBranch {kind : TokenKind} (closes : closesBranch kind = true)
    (other : kind ≠ .otherwise) : kind = .blockEnd := by
  cases kind <;> first | rfl | exact absurd rfl other | cases closes

mutual

theorem statement_prompt (site : Site) (ending : Token) (ts : List Token) :
    Prompt (BeginsStatement site.place) (reading statement site) ending ts := by
  cases ts with
  | nil =>
    refine .refuseEnd site .undefinedStatement begins_noStatement ?_
    rw [reading, statement]
    rfl
  | cons t ts =>
    by_cases starts : startsStatement t.kind = true
    · rcases startsStatement_iff.mp starts with is | is | is | is | is | is | is | is | is
      · refine .cons (declaration_prompt site is ending ts) fun ending' other _ => ?_
        rw [reading, statement, is]
        exact outcome_behind fun _ _ => rfl
      · refine .cons (print_prompt site is ending ts) fun ending' other _ => ?_
        rw [reading, statement, is]
        exact outcome_behind fun _ _ => rfl
      · refine .cons (conditional_prompt (site.inside .conditional) is ending ts)
          fun ending' other _ => ?_
        rw [reading, statement, is]
        exact outcome_behind fun _ _ => rfl
      · refine .cons (loop_prompt site.insideLoop is rfl ending ts) fun ending' other _ => ?_
        rw [reading, statement, is]
        exact outcome_behind fun _ _ => rfl
      · refine .cons (function_prompt site.insideFunction is rfl ending ts)
          fun ending' other _ => ?_
        rw [reading, statement, is]
        exact outcome_behind fun _ _ => rfl
      · by_cases inside : site.inFunction = true
        · refine .cons (returns_prompt is inside inside ending ts) fun ending' other _ => ?_
          rw [reading, statement, is]
          exact outcome_behind fun _ _ => rfl
        · refine .refuse (site.inside .returns) .onlyInsideFunction begins_noStatement
            fun ending' other => ?_
          have outside : (!((site.endingAt ending').inside .returns).inFunction) = true := by
            show (!site.inFunction) = true
            rw [Bool.eq_false_iff.mpr inside]
            rfl
          rw [reading, statement, is]
          dsimp only [returns]
          rw [if_pos outside]
          rfl
      · by_cases inside : site.inLoop = true
        · refine .cons (breaks_prompt t inside ending ts) fun ending' other _ => ?_
          rw [reading, statement, is]
          exact outcome_behind fun _ _ => rfl
        · refine .refuse (site.inside .breaks) .onlyInsideLoop begins_noStatement
            fun ending' other => ?_
          have outside : ¬ (site.endingAt ending').inLoop = true := inside
          rw [reading, statement, is]
          dsimp only [breaks]
          rw [if_neg outside]
          rfl
      · refine .cons (callStatement_prompt site is ending ts) fun ending' other _ => ?_
        rw [reading, statement, is]
        exact outcome_behind fun _ _ => rfl
      · refine .cons (assignment_prompt site is ending ts) fun ending' other _ => ?_
        rw [reading, statement, is]
        exact outcome_behind fun _ _ => rfl
    · have other := Bool.eq_false_iff.mpr starts
      exact .refuse site .undefinedStatement begins_noStatement fun ending' us =>
        outcome_eq_error.mpr (statement_refuses other us)
termination_by 3 * ts.length
decreasing_by all_goals (subst_vars; simp only [List.length_cons]; omega)

theorem block_prompt (site : Site) (unclosed : Diagnostic.Cause) (closes : TokenKind → Bool)
    (ending : Token) (ts : List Token) :
    Prompt (BeginsStatements site.place) (reading (block · unclosed closes) site) ending ts := by
  have nothing : BeginsStatements site.place [] :=
    ⟨[], [], List.nil_prefix, fun _ _ => .none⟩
  cases ts with
  | nil =>
    refine .refuseEnd site unclosed nothing ?_
    rw [reading, block]
    rfl
  | cons t us =>
    by_cases closing : closes t.kind = true
    · refine .look (a := []) fun ending' other => ?_
      rw [reading, block, if_pos closing]
      rfl
    by_cases last : t.kind = .eof
    · refine .refuse site unclosed nothing fun ending' other => ?_
      rw [reading, block, if_neg closing, if_pos last]
      rfl
    · have parts : Prompt (BeginsStatements site.place) _ ending (t :: us) :=
        ((statement_prompt site ending (t :: us)).mono fun _ _ => begins_statement).bind
          fun s used rest done split => by
            have read : Leaves (statement _ (t :: us)) s rest := outcome_eq_ok.mp done
            have shorter : rest.length < (t :: us).length := read.within
            have formed := of_split split (statement_sound read)
            exact ((block_prompt site unclosed closes ending rest).mono fun front within more =>
              begins_statements formed more within).map fun ss => s :: ss
      refine parts.congr fun ending' other head => ?_
      obtain ⟨vs, rfl⟩ : ∃ vs, other = t :: vs := List.head?_eq_some_iff.mp head
      rw [reading, block, if_neg closing, if_neg last]
      exact outcome_bind fun _ _ => outcome_bind fun _ _ => rfl
termination_by 3 * ts.length + 1
decreasing_by all_goals (subst_vars; omega)

theorem branch_prompt (site : Site) {k mark : Token} {condition : Expr} {yes : List Stmt}
    {es us rest ts : List Token} {ending : Token} (keyword : k.kind = .whether)
    (spelt : Spells (.expression condition) es rest) (is : mark.kind = .thereupon)
    (formed : Forms (.statements yes) site.place us ts)
    (closed : ∃ t vs, ts = t :: vs ∧ closesBranch t.kind = true) :
    Prompt (fun front => BeginsStatement site.place (k :: (es ++ mark :: (us ++ front))))
      (branchBehind site k condition yes) ending ts := by
  obtain ⟨t, vs, rfl, closes⟩ := closed
  by_cases otherwise : t.kind = .otherwise
  · have parts : Prompt (fun front =>
        BeginsStatement site.place (k :: (es ++ mark :: (us ++ t :: front)))) _ ending vs :=
      ((block_prompt site .expectedBlockEnd closesBlock ending vs).mono fun _ _ =>
        begins_no keyword spelt is formed otherwise).bind fun no used rest' done split => by
          obtain ⟨-, -, -, u, ws, rfl, ends⟩ := block_sound (outcome_eq_ok.mp done)
          exact (expected_prompt site .expectedBlockEnd (blockEnd_of_closesBlock ends)).map
            fun _ => Stmt.conditional k condition yes no
    exact .cons parts fun ending' other _ => if_pos otherwise
  · refine ((expected_prompt site .expectedBlockEnd (blockEnd_of_closesBranch closes
      otherwise)).map fun _ => Stmt.conditional k condition yes []).congr
        fun ending' other head => ?_
    obtain ⟨ws, rfl⟩ : ∃ ws, other = t :: ws := List.head?_eq_some_iff.mp head
    exact if_neg otherwise
termination_by 3 * ts.length

theorem conditional_prompt (site : Site) {k : Token} (keyword : k.kind = .whether)
    (ending : Token) (ts : List Token) :
    Prompt (fun front => BeginsStatement site.place (k :: front)) (reading (conditional · k) site)
      ending ts := by
  have parts : Prompt (fun front => BeginsStatement site.place (k :: front)) _ ending ts :=
    ((expression_prompt site ending ts).mono fun _ _ => begins_condition keyword).bind
      fun e es rest done split => by
        have spelt := of_split split (expression_sound (outcome_eq_ok.mp done))
        have condition : BeginsStatement site.place (k :: (es ++ [])) := by
          rw [List.append_nil]
          exact begins_condition keyword (begins_of_spells spelt)
        exact (expect_prompt site .thereupon .expectedThereupon condition).bind
          fun mark used rest' done' split' => by
            obtain ⟨is, rfl⟩ := kind_of_expect done' split'
            have shorter : rest'.length < ts.length := by
              rw [split, split']
              simp only [List.length_append, List.length_cons]
              omega
            exact ((block_prompt site .expectedBlockEnd closesBranch ending rest').mono fun _ _ =>
              begins_yes keyword spelt is).bind fun yes us rest'' done'' split'' => by
                have read : Leaves (block _ _ _ rest') yes rest'' := outcome_eq_ok.mp done''
                have within : rest''.length ≤ rest'.length := read.within
                obtain ⟨formed, closed⟩ := of_split split'' (block_sound read)
                exact branch_prompt site keyword spelt is formed closed
  refine parts.congr fun ending' other _ => ?_
  rw [reading, conditional]
  refine outcome_bind fun _ _ => outcome_bind fun _ _ => outcome_bind fun yes left => ?_
  obtain ⟨rest, within⟩ := left
  cases rest with
  | nil => rfl
  | cons t rest =>
    dsimp only [branchBehind]
    split
    · exact outcome_bind fun _ _ => outcome_bind fun _ _ => rfl
    · exact outcome_bind fun _ _ => rfl
termination_by 3 * ts.length + 2
decreasing_by all_goals omega

theorem loop_prompt {place : Place} (site : Site) {k : Token} (keyword : k.kind = .loop)
    (inner : site.place = place.insideLoop) (ending : Token) (ts : List Token) :
    Prompt (fun front => BeginsStatement place (k :: front)) (reading (loop · k) site)
      ending ts := by
  have parts : Prompt (fun front => BeginsStatement place (k :: front)) _ ending ts :=
    ((block_prompt site .expectedBlockEnd closesBlock ending ts).mono fun _ _ body =>
      begins_loop keyword (inner ▸ body)).bind fun body used rest done split => by
        obtain ⟨-, -, -, t, us, rfl, ends⟩ := block_sound (outcome_eq_ok.mp done)
        exact (expected_prompt site .expectedBlockEnd (blockEnd_of_closesBlock ends)).map
          fun _ => Stmt.loop k body
  refine parts.congr fun ending' other _ => ?_
  rw [reading, loop]
  exact outcome_bind fun _ _ => outcome_bind fun _ _ => rfl
termination_by 3 * ts.length + 2
decreasing_by omega

theorem function_prompt {place : Place} (site : Site) {k : Token} (keyword : k.kind = .function)
    (inner : site.place = .insideFunction) (ending : Token) (ts : List Token) :
    Prompt (fun front => BeginsStatement place (k :: front)) (reading (function · k) site)
      ending ts := by
  have parts : Prompt (fun front => BeginsStatement place (k :: front)) _ ending ts :=
    ((declaredName_prompt site ending ts).mono fun _ _ => begins_functionName keyword).bind
      fun name ns rest done split => by
        have named := of_split split (declaredName_sound (outcome_eq_ok.mp done))
        exact ((signature_prompt site ending rest).mono fun _ _ =>
          begins_signature keyword named).bind fun ps hs rest' done' split' => by
            have heading := of_split split' (heading_sound (outcome_eq_ok.mp done'))
            have shorter : rest.length < ts.length := (outcome_eq_ok.mp done).within
            have within : rest'.length ≤ rest.length := (outcome_eq_ok.mp done').within
            exact ((block_prompt site .expectedFunctionEnd closesBody ending rest').mono
              fun _ _ body => begins_body keyword named heading (inner ▸ body)).bind
                fun body used rest'' done'' split'' => by
                  obtain ⟨formed, -⟩ := of_split split'' (block_sound (outcome_eq_ok.mp done''))
                  have formed' : Forms (.statements body) .insideFunction used rest'' :=
                    inner ▸ formed
                  exact ((functionEnd_prompt site name ending rest'').mono fun _ _ =>
                    begins_functionEnd keyword named heading formed').map
                      fun _ => Stmt.function k name ps body
  refine parts.congr fun ending' other _ => ?_
  rw [reading, function]
  refine outcome_bind fun name _ => outcome_bind fun _ _ => outcome_bind fun _ left => ?_
  dsimp only [endReading]
  cases functionEnd (site.endingAt ending') name left.1 <;> rfl
termination_by 3 * ts.length + 2
decreasing_by omega

end

end Grammar

end Guwen
