/-
**Readers stay within their tokens.**

What a reader leaves is an end of the tokens it was given, so it never looks past the end token; and
what it refuses is one of those tokens, or the end token, or a number that cannot be read.

* `Blames ending ts d` — the diagnostic is about one of the tokens or about the end token.
* `Stays ending ts reading` — the reading leaves an end of `ts` and blames nothing else.
* **`statement_stays`** and the lemmas before it say that of every reader.
* `statements_blames` — a program that is refused is refused for one of its tokens.
-/
import Guwen.Proofs.Grammar.StatementReaders

namespace Guwen

namespace Grammar

/-! ### Staying within the tokens -/

/-- **What a refusal is about:** one of the tokens, the end token, or a number among the tokens that
cannot be read. -/
inductive Blames (ending : Token) (ts : List Token) : Diagnostic → Prop where
  | token {t : Token} (cause : Diagnostic.Cause) (context : Diagnostic.Context) :
      t ∈ ts ∨ t = ending → Blames ending ts (.atToken .syntactic cause context t)
  | numeral {site : Site} {start : Token} {us : List Token} {d : Diagnostic} :
      start :: us <:+ ts → start.kind = .number → numeral site start us = .error d →
      Blames ending ts d

theorem Blames.mono {ending : Token} {us ts : List Token} {d : Diagnostic} (within : us <:+ ts)
    (blames : Blames ending us d) : Blames ending ts d := by
  cases blames with
  | token cause context whom => exact .token cause context (whom.imp_left (within.subset ·))
  | numeral inside number failed => exact .numeral (inside.trans within) number failed

/-- **The reading stays within `ts`:** it leaves an end of them, and blames one of them or the end
token. What is left of a result is given by `left`. -/
structure StaysBy {β : Type} (left : β → List Token) (ending : Token) (ts : List Token)
    (reading : Except Diagnostic β) : Prop where
  keeps : ∀ b, reading = .ok b → left b <:+ ts
  blames : ∀ d, reading = .error d → Blames ending ts d

/-- The reading of some part stays within `ts`. -/
abbrev Stays {α : Type} {p : List Token → Prop} (ending : Token) (ts : List Token)
    (reading : Except Diagnostic (α × Subtype p)) : Prop :=
  StaysBy (fun b => b.2.1) ending ts reading

namespace StaysBy

variable {β γ : Type} {left : β → List Token} {left' : γ → List Token} {ending : Token}
  {us ts : List Token} {reading : Except Diagnostic β}

theorem ok {b : β} (within : left b <:+ ts) : StaysBy left ending ts (.ok b) := by
  constructor
  · intro b' same
    cases same
    exact within
  · intro d same
    cases same

theorem refuse (site : Site) (cause : Diagnostic.Cause) {t : Token} (whom : t ∈ ts ∨ t = ending) :
    StaysBy left ending ts (.error (site.refuse cause t)) := by
  constructor
  · intro b same
    cases same
  · intro d same
    cases same
    exact .token cause site.context whom

theorem mono (stays : StaysBy left ending us reading) (within : us <:+ ts) :
    StaysBy left ending ts reading :=
  ⟨fun b read => (stays.keeps b read).trans within,
    fun d failed => (stays.blames d failed).mono within⟩

/-- Reading goes on within what is left. -/
theorem bind {f : β → Except Diagnostic γ} (stays : StaysBy left ending ts reading)
    (more : ∀ b, reading = .ok b → left b <:+ ts → StaysBy left' ending ts (f b)) :
    StaysBy left' ending ts (reading >>= f) := by
  cases same : reading with
  | error d =>
    constructor
    · intro b absurd
      cases absurd
    · intro d' same'
      cases same'
      exact stays.blames d same
  | ok b => exact more b same (stays.keeps b same)

theorem ite {c : Prop} [Decidable c] {other : Except Diagnostic β}
    (yes : c → StaysBy left ending ts reading) (no : ¬ c → StaysBy left ending ts other) :
    StaysBy left ending ts (if c then reading else other) := by
  by_cases holds : c
  · rw [if_pos holds]
    exact yes holds
  · rw [if_neg holds]
    exact no holds

end StaysBy

/-! ### Expressions -/

theorem skip_suffix (kind : TokenKind) (ts : List Token) : (skip kind ts).1 <:+ ts := by
  cases ts with
  | nil => exact List.suffix_refl _
  | cons t ts =>
    rw [skip]
    split
    · exact List.suffix_cons t ts
    · exact List.suffix_refl _

theorem numeral_stays {site : Site} {start : Token} {ts : List Token}
    (number : start.kind = .number) : Stays site.ending (start :: ts) (numeral site start ts) := by
  constructor
  · rintro ⟨e, rest, within⟩ read
    rcases leaves_numeral.mp ⟨within, read⟩ with ⟨_, _, rfl⟩ | ⟨_, _, _, _, rfl⟩
    · exact List.suffix_cons start ts
    · exact ⟨start :: (glyphRun start ts).1, by rw [List.cons_append, glyphRun_append]⟩
  · intro d failed
    exact .numeral (List.suffix_refl _) number failed

mutual

theorem operand_stays (site : Site) (ts : List Token) : Stays site.ending ts (operand site ts) := by
  cases ts with
  | nil =>
    rw [operand]
    exact .refuse site _ (.inr rfl)
  | cons t rest =>
    rw [operand]
    split
    · rename_i number
      exact (numeral_stays number).bind fun b _ within => .ok within
    · exact .ok (List.suffix_cons t rest)
    · exact .ok (List.suffix_cons t rest)
    · exact ((call_stays site t rest).mono (List.suffix_cons t rest)).bind
        fun b _ within => .ok within
    · exact .refuse site _ (.inl List.mem_cons_self)
termination_by 4 * ts.length
decreasing_by subst_vars; simp only [List.length_cons]; omega

theorem call_stays (site : Site) (keyword : Token) (ts : List Token) :
    Stays site.ending ts (call site keyword ts) := by
  cases ts with
  | nil =>
    rw [call]
    exact .refuse site _ (.inr rfl)
  | cons callee rest =>
    unfold call
    refine .ite (fun _ => ?_) fun _ => .refuse site _ (.inl List.mem_cons_self)
    cases rest with
    | nil => exact .ok (List.suffix_cons callee _)
    | cons mark after =>
      refine .ite (fun _ => ?_) fun _ => .ok (List.suffix_cons callee _)
      have within : after <:+ callee :: mark :: after :=
        (List.suffix_cons mark after).trans (List.suffix_cons callee _)
      exact ((arguments_stays site after).mono within).bind fun b _ within => .ok within
termination_by 4 * ts.length + 3
decreasing_by subst_vars; simp only [List.length_cons]; omega

theorem chain_stays (site : Site) (ts : List Token) : Stays site.ending ts (chain site ts) := by
  unfold chain
  refine (operand_stays site ts).bind ?_
  rintro ⟨first, rest, shorter⟩ - within
  cases rest with
  | nil => exact .ok within
  | cons t after =>
    have inner : after.length < ts.length := Nat.lt_of_succ_lt shorter
    dsimp only
    split
    · exact .ok within
    · exact ((chain_stays site after).mono ((List.suffix_cons t after).trans within)).bind
        fun b _ within => .ok within
termination_by 4 * ts.length + 1

theorem arguments_stays (site : Site) (ts : List Token) :
    Stays site.ending ts (arguments site ts) := by
  unfold arguments
  refine (chain_stays site ts).bind ?_
  rintro ⟨c, rest, shorter⟩ - within
  cases rest with
  | nil => exact .ok within
  | cons t after =>
    have inner : after.length < ts.length := Nat.lt_of_succ_lt shorter
    refine .ite (fun _ => ?_) fun _ => .ok within
    exact ((arguments_stays site after).mono ((List.suffix_cons t after).trans within)).bind
      fun b _ within => .ok within
termination_by 4 * ts.length + 2

end

theorem expression_stays (site : Site) (ts : List Token) :
    Stays site.ending ts (expression site ts) :=
  (chain_stays site ts).bind fun _ _ within => .ok within

/-! ### Parts of statements -/

theorem expect_stays (site : Site) (kind : TokenKind) (cause : Diagnostic.Cause) (ts : List Token) :
    Stays site.ending ts (expect site kind cause ts) := by
  cases ts with
  | nil => exact .refuse site cause (.inr rfl)
  | cons t ts =>
    exact .ite (fun _ => .ok (List.suffix_cons t ts))
      fun _ => .refuse site cause (.inl List.mem_cons_self)

theorem typeWord_stays (site : Site) (ts : List Token) :
    Stays site.ending ts (typeWord site ts) := by
  cases ts with
  | nil => exact .refuse site _ (.inr rfl)
  | cons t ts =>
    exact .ite (fun _ => .ok (List.suffix_cons t ts))
      fun _ => .refuse site _ (.inl List.mem_cons_self)

theorem declaredName_stays (site : Site) (ts : List Token) :
    Stays site.ending ts (declaredName site ts) := by
  unfold declaredName
  refine ((expect_stays site _ _ _).mono (skip_suffix .nameIt ts)).bind ?_
  rintro ⟨mark, ts₂, lt₂⟩ - within₂
  refine ((expect_stays site _ _ ts₂).mono within₂).bind ?_
  rintro ⟨name, ts₃, lt₃⟩ read within₃
  refine .ite (fun _ => ?_) fun _ => .ok within₃
  obtain ⟨_, rfl⟩ := leaves_expect.mp ⟨lt₃, read⟩
  exact .refuse site _ (.inl (within₂.subset List.mem_cons_self))

theorem elements_stays (site : Site) (isList : Bool) (ts : List Token) :
    Stays site.ending ts (elements site isList ts) := by
  cases ts with
  | nil =>
    rw [elements]
    exact .ok (List.suffix_refl _)
  | cons t rest =>
    rw [elements]
    refine .ite (fun _ => .ite (fun _ => ?_) fun _ => .refuse site _ (.inl List.mem_cons_self))
      fun _ => .ok (List.suffix_refl _)
    refine ((expression_stays site rest).mono (List.suffix_cons t rest)).bind ?_
    rintro ⟨e, ts₁, lt₁⟩ - within
    exact ((elements_stays site isList ts₁).mono within).bind fun _ _ within => .ok within
termination_by ts.length
decreasing_by subst_vars; exact Nat.lt_succ_of_lt lt₁

theorem initialValue_stays (site : Site) (isList : Bool) (ts : List Token) :
    Stays site.ending ts (initialValue site isList ts) := by
  unfold initialValue
  refine (expression_stays site ts).bind ?_
  rintro ⟨first, ts₁, lt₁⟩ - within
  exact ((elements_stays site isList ts₁).mono within).bind fun _ _ within => .ok within

theorem initializer_stays (site : Site) (isList : Bool) (ts : List Token) :
    Stays site.ending ts (initializer site isList ts) := by
  cases ts with
  | nil => exact .ok (List.suffix_refl _)
  | cons t rest =>
    refine .ite (fun _ => ?_) fun _ => .ok (List.suffix_refl _)
    exact ((initialValue_stays site isList rest).mono (List.suffix_cons t rest)).bind
      fun _ _ within => .ok within

theorem parameters_stays (site : Site) (ts : List Token) :
    Stays site.ending ts (parameters site ts) := by
  unfold parameters
  refine (typeWord_stays site ts).bind ?_
  rintro ⟨type, ts₁, lt₁⟩ - within₁
  refine ((declaredName_stays site ts₁).mono within₁).bind ?_
  rintro ⟨name, ts₂, lt₂⟩ - within₂
  have within₃ := (skip_suffix .comma ts₂).trans within₂
  have shorter : (skip .comma ts₂).1.length < ts.length :=
    Nat.lt_of_le_of_lt (skip .comma ts₂).2 (Nat.lt_trans lt₂ lt₁)
  refine .ite (fun _ => ?_) fun _ => .ok within₃
  exact ((parameters_stays site _).mono within₃).bind fun _ _ within => .ok within
termination_by ts.length

theorem signature_stays (site : Site) (ts : List Token) :
    Stays site.ending ts (signature site ts) := by
  unfold signature
  have within₁ := skip_suffix .invoke ts
  generalize skip .invoke ts = skipped at within₁ ⊢
  obtain ⟨ts₁, le₁⟩ := skipped
  cases ts₁ with
  | nil => exact .ok within₁
  | cons t rest =>
    refine .ite (fun _ => ?_) fun _ => .ok ((skip_suffix .invoke (t :: rest)).trans within₁)
    refine ((parameters_stays site rest).mono ((List.suffix_cons t rest).trans within₁)).bind ?_
    rintro ⟨ps, ts₂, lt₂⟩ - within₂
    exact .ok ((skip_suffix .invoke ts₂).trans within₂)

theorem functionEnd_stays (site : Site) (name : Token) (ts : List Token) :
    StaysBy Subtype.val site.ending ts (functionEnd site name ts) := by
  cases ts with
  | nil => exact .refuse site _ (.inr rfl)
  | cons t rest =>
    refine .ite (fun _ => ?_) fun _ => (expect_stays site _ _ _).bind fun _ _ within => .ok within
    cases rest with
    | nil => exact .refuse site _ (.inr rfl)
    | cons again after =>
      have within : again :: after <:+ t :: again :: after := List.suffix_cons t _
      refine .ite (fun _ => ?_) fun _ =>
        ((expect_stays site _ _ _).mono within).bind fun _ _ within => .ok within
      refine .ite (fun _ => ?_) fun _ => .refuse site _ (.inl (within.subset List.mem_cons_self))
      exact ((expect_stays site _ _ _).mono ((List.suffix_cons again after).trans within)).bind
        fun _ _ within => .ok within

/-! ### Statements without statements inside -/

theorem declaration_stays (site : Site) (keyword : Token) (ts : List Token) :
    Stays site.ending ts (declaration site keyword ts) := by
  unfold declaration
  refine (typeWord_stays (site.inside .declaration) ts).bind ?_
  rintro ⟨type, ts₁, lt₁⟩ - within₁
  refine ((declaredName_stays (site.inside .declaration) ts₁).mono within₁).bind ?_
  rintro ⟨name, ts₂, lt₂⟩ - within₂
  refine ((initializer_stays (site.inside .declaration) _ ts₂).mono within₂).bind ?_
  rintro ⟨value, ts₃, le₃⟩ - within₃
  exact ((expect_stays (site.inside .declaration) _ _ ts₃).mono within₃).bind
    fun _ _ within => .ok within

theorem print_stays (site : Site) (keyword : Token) (ts : List Token) :
    Stays site.ending ts (print site keyword ts) := by
  unfold print
  refine (expression_stays (site.inside .print) ts).bind ?_
  rintro ⟨value, ts₁, lt₁⟩ - within
  exact .ok ((skip_suffix .close ts₁).trans within)

theorem returns_stays (site : Site) (keyword : Token) (ts : List Token) :
    Stays site.ending (keyword :: ts) (returns site keyword ts) := by
  unfold returns
  have behind := List.suffix_cons keyword ts
  refine .ite (fun _ => .refuse _ _ (.inl List.mem_cons_self)) fun _ => .ite (fun _ => ?_) fun _ =>
    .ok ((skip_suffix .close ts).trans behind)
  refine ((expression_stays (site.inside .returns) ts).mono behind).bind ?_
  rintro ⟨value, ts₁, lt₁⟩ - within
  exact .ok ((skip_suffix .close ts₁).trans within)

theorem breaks_stays (site : Site) (keyword : Token) (ts : List Token) :
    Stays site.ending (keyword :: ts) (breaks site keyword ts) := by
  unfold breaks
  exact .ite (fun _ => .ok ((skip_suffix .close ts).trans (List.suffix_cons keyword ts)))
    fun _ => .refuse _ _ (.inl List.mem_cons_self)

theorem callStatement_stays (site : Site) (keyword : Token) (ts : List Token) :
    Stays site.ending ts (callStatement site keyword ts) := by
  unfold callStatement
  refine (call_stays (site.inside .call) keyword ts).bind ?_
  rintro ⟨value, ts₁, lt₁⟩ - within
  exact .ok ((skip_suffix .close ts₁).trans within)

theorem assignment_stays (site : Site) (name : Token) (ts : List Token) :
    Stays site.ending ts (assignment site name ts) := by
  unfold assignment
  refine (expect_stays (site.inside .assignment) _ _ ts).bind ?_
  rintro ⟨mark, ts₁, lt₁⟩ - within₁
  refine ((expression_stays (site.inside .assignment) ts₁).mono within₁).bind ?_
  rintro ⟨value, ts₂, lt₂⟩ - within₂
  exact .ok ((skip_suffix .close ts₂).trans within₂)

/-! ### Statements and blocks -/

mutual

/-- **A statement stays within its tokens.** -/
theorem statement_stays (site : Site) (ts : List Token) :
    Stays site.ending ts (statement site ts) := by
  cases ts with
  | nil =>
    rw [statement]
    exact .refuse site _ (.inr rfl)
  | cons t rest =>
    have behind := List.suffix_cons t rest
    rw [statement]
    split
    · exact ((declaration_stays site t rest).mono behind).bind fun _ _ within => .ok within
    · exact ((print_stays site t rest).mono behind).bind fun _ _ within => .ok within
    · exact ((conditional_stays (site.inside .conditional) t rest).mono behind).bind
        fun _ _ within => .ok within
    · exact ((loop_stays site.insideLoop t rest).mono behind).bind fun _ _ within => .ok within
    · exact ((function_stays site.insideFunction t rest).mono behind).bind
        fun _ _ within => .ok within
    · exact (returns_stays site t rest).bind fun _ _ within => .ok within
    · exact (breaks_stays site t rest).bind fun _ _ within => .ok within
    · exact ((callStatement_stays site t rest).mono behind).bind fun _ _ within => .ok within
    · exact ((assignment_stays site t rest).mono behind).bind fun _ _ within => .ok within
    · exact .refuse site _ (.inl List.mem_cons_self)
termination_by 3 * ts.length
decreasing_by all_goals (subst_vars; simp only [List.length_cons]; omega)

theorem block_stays (site : Site) (unclosed : Diagnostic.Cause) (closes : TokenKind → Bool)
    (ts : List Token) : Stays site.ending ts (block site unclosed closes ts) := by
  cases ts with
  | nil =>
    rw [block]
    exact .refuse site _ (.inr rfl)
  | cons t rest =>
    rw [block]
    refine .ite (fun _ => .ok (List.suffix_refl _)) fun _ => ?_
    refine .ite (fun _ => .refuse site _ (.inl List.mem_cons_self)) fun _ => ?_
    refine (statement_stays site (t :: rest)).bind ?_
    rintro ⟨s, ts₁, lt₁⟩ - within
    exact ((block_stays site unclosed closes ts₁).mono within).bind fun _ _ within => .ok within
termination_by 3 * ts.length + 1
decreasing_by all_goals (subst_vars; omega)

theorem conditional_stays (site : Site) (keyword : Token) (ts : List Token) :
    Stays site.ending ts (conditional site keyword ts) := by
  unfold conditional
  refine (expression_stays site ts).bind ?_
  rintro ⟨condition, ts₁, lt₁⟩ - within₁
  refine ((expect_stays site _ _ ts₁).mono within₁).bind ?_
  rintro ⟨mark, ts₂, lt₂⟩ - within₂
  refine ((block_stays site _ _ ts₂).mono within₂).bind ?_
  rintro ⟨yes, ts₃, le₃⟩ - within₃
  cases ts₃ with
  | nil => exact .refuse site _ (.inr rfl)
  | cons t rest =>
    have shorter : rest.length < ts.length := by
      rw [List.length_cons] at le₃
      omega
    have within := (List.suffix_cons t rest).trans within₃
    refine .ite (fun _ => ?_) fun _ => ((expect_stays site _ _ (t :: rest)).mono within₃).bind
      fun _ _ within => .ok within
    refine ((block_stays site _ _ rest).mono within).bind ?_
    rintro ⟨no, ts₄, le₄⟩ - within₄
    exact ((expect_stays site _ _ ts₄).mono within₄).bind fun _ _ within => .ok within
termination_by 3 * ts.length + 2
decreasing_by all_goals omega

theorem loop_stays (site : Site) (keyword : Token) (ts : List Token) :
    Stays site.ending ts (loop site keyword ts) := by
  unfold loop
  refine (block_stays site _ _ ts).bind ?_
  rintro ⟨body, ts₁, le₁⟩ - within
  exact ((expect_stays site _ _ ts₁).mono within).bind fun _ _ within => .ok within
termination_by 3 * ts.length + 2
decreasing_by omega

theorem function_stays (site : Site) (keyword : Token) (ts : List Token) :
    Stays site.ending ts (function site keyword ts) := by
  unfold function
  refine (declaredName_stays site ts).bind ?_
  rintro ⟨name, ts₁, lt₁⟩ - within₁
  refine ((signature_stays site ts₁).mono within₁).bind ?_
  rintro ⟨params, ts₂, le₂⟩ - within₂
  refine ((block_stays site _ _ ts₂).mono within₂).bind ?_
  rintro ⟨body, ts₃, le₃⟩ - within₃
  exact ((functionEnd_stays site name ts₃).mono within₃).bind fun _ _ within => .ok within
termination_by 3 * ts.length + 2
decreasing_by omega

end

/-- **A program that is refused is refused for one of its tokens.** -/
theorem statements_blames {site : Site} {ts : List Token} {d : Diagnostic}
    (failed : statements site ts = .error d) : Blames site.ending ts d := by
  induction length : ts.length using Nat.strong_induction_on generalizing ts with
  | _ n ih =>
    subst length
    cases ts with
    | nil =>
      rw [statements] at failed
      cases failed
    | cons t rest =>
      have stays := statement_stays site (t :: rest)
      rw [statements] at failed
      cases first : statement site (t :: rest) with
      | error d' =>
        rw [first] at failed
        cases failed
        exact stays.blames d first
      | ok read =>
        obtain ⟨s, ts₁, shorter⟩ := read
        rw [first] at failed
        have within := stays.keeps _ first
        cases more : statements site ts₁ with
        | error d' =>
          have same : d' = d := by
            simp only [bind, Except.bind, more] at failed
            cases failed
            rfl
          subst same
          exact (ih _ shorter more rfl).mono within
        | ok ss =>
          simp only [bind, Except.bind, more] at failed
          cases failed

end Grammar

end Guwen
