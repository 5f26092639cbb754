/-
**A refusal carries the context of its site.**

`RefusesIn context reading` says that whatever the reading refuses, it refuses in that context. The
readers of expressions and of the parts of statements refuse in the context of the site they are
given, and the readers of statements that hold no statements in a context of their own.
-/
import Guwen.Grammar.Statement

namespace Guwen

namespace Grammar

/-- **Every refusal of the reading carries the context.** -/
def RefusesIn {β : Type} (context : Diagnostic.Context) (reading : Except Diagnostic β) : Prop :=
  ∀ d, reading = .error d → d.context = context

namespace RefusesIn

variable {β γ : Type} {context : Diagnostic.Context} {reading other : Except Diagnostic β}

theorem ok {b : β} : RefusesIn context (.ok b) := by
  intro d failed
  cases failed

theorem refuse (site : Site) (cause : Diagnostic.Cause) (t : Token) :
    RefusesIn site.context (.error (site.refuse cause t) : Except Diagnostic β) := by
  intro d failed
  cases failed
  rfl

theorem bind {f : β → Except Diagnostic γ} (first : RefusesIn context reading)
    (more : ∀ b, RefusesIn context (f b)) : RefusesIn context (reading >>= f) := by
  cases reading with
  | error d =>
    intro d' failed
    cases failed
    exact first d rfl
  | ok b => exact more b

theorem ite {c : Prop} [Decidable c] (yes : RefusesIn context reading)
    (no : RefusesIn context other) : RefusesIn context (if c then reading else other) := by
  by_cases holds : c
  · rw [if_pos holds]
    exact yes
  · rw [if_neg holds]
    exact no

end RefusesIn

/-! ### Expressions -/

variable (site : Site)

theorem refusesIn_numeral (start : Token) (ts : List Token) :
    RefusesIn site.context (numeral site start ts) := by
  unfold numeral
  refine .ite .ok ?_
  dsimp only
  split
  · exact .ok
  · intro d failed
    cases failed
    rfl

mutual

theorem refusesIn_operand (ts : List Token) : RefusesIn site.context (operand site ts) := by
  cases ts with
  | nil =>
    rw [operand]
    exact .refuse site _ _
  | cons t rest =>
    rw [operand]
    split
    · exact (refusesIn_numeral site t rest).bind fun _ => .ok
    · exact .ok
    · exact .ok
    · exact (refusesIn_call t rest).bind fun _ => .ok
    · exact .refuse site _ _
termination_by 4 * ts.length
decreasing_by subst_vars; simp only [List.length_cons]; omega

theorem refusesIn_call (keyword : Token) (ts : List Token) :
    RefusesIn site.context (call site keyword ts) := by
  cases ts with
  | nil =>
    rw [call]
    exact .refuse site _ _
  | cons callee rest =>
    unfold call
    refine .ite ?_ (.refuse site _ _)
    cases rest with
    | nil => exact .ok
    | cons mark after => exact .ite ((refusesIn_arguments after).bind fun _ => .ok) .ok
termination_by 4 * ts.length + 3
decreasing_by subst_vars; simp only [List.length_cons]; omega

theorem refusesIn_chain (ts : List Token) : RefusesIn site.context (chain site ts) := by
  unfold chain
  refine (refusesIn_operand ts).bind ?_
  rintro ⟨first, rest, shorter⟩
  cases rest with
  | nil => exact .ok
  | cons t after =>
    have inner : after.length < ts.length := Nat.lt_of_succ_lt shorter
    dsimp only
    split
    · exact .ok
    · exact (refusesIn_chain after).bind fun _ => .ok
termination_by 4 * ts.length + 1

theorem refusesIn_arguments (ts : List Token) : RefusesIn site.context (arguments site ts) := by
  unfold arguments
  refine (refusesIn_chain ts).bind ?_
  rintro ⟨c, rest, shorter⟩
  cases rest with
  | nil => exact .ok
  | cons t after =>
    have inner : after.length < ts.length := Nat.lt_of_succ_lt shorter
    exact .ite ((refusesIn_arguments after).bind fun _ => .ok) .ok
termination_by 4 * ts.length + 2

end

theorem refusesIn_expression (ts : List Token) : RefusesIn site.context (expression site ts) :=
  (refusesIn_chain site ts).bind fun _ => .ok

/-! ### Parts of statements -/

theorem refusesIn_expect (kind : TokenKind) (cause : Diagnostic.Cause) (ts : List Token) :
    RefusesIn site.context (expect site kind cause ts) := by
  cases ts with
  | nil => exact .refuse site _ _
  | cons t ts => exact .ite .ok (.refuse site _ _)

theorem refusesIn_typeWord (ts : List Token) : RefusesIn site.context (typeWord site ts) := by
  cases ts with
  | nil => exact .refuse site _ _
  | cons t ts => exact .ite .ok (.refuse site _ _)

theorem refusesIn_declaredName (ts : List Token) :
    RefusesIn site.context (declaredName site ts) := by
  unfold declaredName
  refine (refusesIn_expect site _ _ _).bind fun _ => (refusesIn_expect site _ _ _).bind fun _ => ?_
  exact .ite (.refuse site _ _) .ok

theorem refusesIn_elements (isList : Bool) (ts : List Token) :
    RefusesIn site.context (elements site isList ts) := by
  cases ts with
  | nil =>
    rw [elements]
    exact .ok
  | cons t rest =>
    rw [elements]
    refine .ite (.ite ?_ (.refuse site _ _)) .ok
    refine (refusesIn_expression site rest).bind ?_
    rintro ⟨e, ts₁, lt₁⟩
    exact (refusesIn_elements isList ts₁).bind fun _ => .ok
termination_by ts.length
decreasing_by subst_vars; exact Nat.lt_succ_of_lt lt₁

theorem refusesIn_initializer (isList : Bool) (ts : List Token) :
    RefusesIn site.context (initializer site isList ts) := by
  cases ts with
  | nil => exact .ok
  | cons t rest =>
    refine .ite (.bind ?_ fun _ => .ok) .ok
    unfold initialValue
    exact (refusesIn_expression site rest).bind fun _ =>
      (refusesIn_elements site isList _).bind fun _ => .ok

theorem refusesIn_parameters (ts : List Token) : RefusesIn site.context (parameters site ts) := by
  unfold parameters
  refine (refusesIn_typeWord site ts).bind ?_
  rintro ⟨type, ts₁, lt₁⟩
  refine (refusesIn_declaredName site ts₁).bind ?_
  rintro ⟨name, ts₂, lt₂⟩
  have shorter : (skip .comma ts₂).1.length < ts.length :=
    Nat.lt_of_le_of_lt (skip .comma ts₂).2 (Nat.lt_trans lt₂ lt₁)
  exact .ite ((refusesIn_parameters _).bind fun _ => .ok) .ok
termination_by ts.length

theorem refusesIn_signature (ts : List Token) : RefusesIn site.context (signature site ts) := by
  unfold signature
  generalize skip .invoke ts = skipped
  obtain ⟨ts₁, le₁⟩ := skipped
  cases ts₁ with
  | nil => exact .ok
  | cons t rest => exact .ite ((refusesIn_parameters site rest).bind fun _ => .ok) .ok

theorem refusesIn_functionEnd (name : Token) (ts : List Token) :
    RefusesIn site.context (functionEnd site name ts) := by
  have closed (ts : List Token) {γ : Type} (f : Token × Rest ts → γ) : RefusesIn site.context
      (expect site .functionEnd .expectedFunctionEnd ts >>= fun b => (.ok (f b))) :=
    (refusesIn_expect site _ _ ts).bind fun _ => .ok
  cases ts with
  | nil => exact .refuse site _ _
  | cons t rest =>
    refine .ite ?_ (closed _ _)
    cases rest with
    | nil => exact .refuse site _ _
    | cons again after => exact .ite (.ite (closed _ _) (.refuse site _ _)) (closed _ _)

end Grammar

end Guwen
