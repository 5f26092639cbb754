/-
**The discipline of the stacks.**

Readers with stacks and readers with sites agree, because every statement brings the stacks back to
where they were. So what follows a statement is read in the context in which the statement stood,
however many statements there were before.

* `Complete past` — a part of the history in which every statement that is begun is finished.
* `RefusedIn past outside context` — the context that a refusal at the end of such a part has.
* `Follows st context reading run` — the run gives what the reading gives, and restores the stacks.
* **`follows_statement`** — a statement read with stacks follows the statement read at its site.
* `Stacks.program_disciplined` — the stacks are restored, and every refusal is in the context of the
  innermost statement that is begun and not finished.
-/
import Guwen.Proofs.Grammar.RefusalContext
import Guwen.Proofs.Grammar.Stacks

namespace Guwen

namespace Grammar

/-! ### Parts of the history -/

/-- Every statement begun in a part of the history is finished in it, and no other one. -/
def Complete (past : List Milestone) : Prop :=
  ∀ closed older, innermostBehind closed (past ++ older) = innermostBehind closed older

theorem Complete.nil : Complete [] := fun _ _ => rfl

theorem Complete.append {past more : List Milestone} (before : Complete past)
    (after : Complete more) : Complete (more ++ past) := by
  intro closed older
  rw [List.append_assoc, after, before]

theorem Complete.recorded {past : List Milestone} (inside : Complete past)
    (kind : Diagnostic.Context) : Complete (.finished :: past ++ [.begun kind]) := by
  intro closed older
  rw [List.append_assoc, List.cons_append, innermostBehind, inside, List.singleton_append,
    innermostBehind]

/-- What `context` has to be for a refusal at the end of a part of the history that started in the
context `outside`: the kind of the innermost statement that the part leaves open, if there is one,
and else `outside`. -/
def RefusedIn (past : List Milestone) (outside context : Diagnostic.Context) : Prop :=
  (∀ older, innermost? (past ++ older) = some context) ∨
    (context = outside ∧ ∀ older, innermost? (past ++ older) = innermost? older)

theorem RefusedIn.nil (context : Diagnostic.Context) : RefusedIn [] context context :=
  .inr ⟨rfl, fun _ => rfl⟩

theorem RefusedIn.append {past more : List Milestone} {outside context : Diagnostic.Context}
    (before : Complete past) (refused : RefusedIn more outside context) :
    RefusedIn (more ++ past) outside context := by
  simp only [RefusedIn, List.append_assoc]
  refine refused.imp (fun inside older => inside _) ?_
  rintro ⟨same, none⟩
  exact ⟨same, fun older => (none _).trans (before 0 older)⟩

/-- Inside a statement that is begun, its kind takes the place of what stands outside. -/
theorem RefusedIn.begun {past : List Milestone} {kind context : Diagnostic.Context}
    (refused : RefusedIn past kind context) (outside : Diagnostic.Context) :
    RefusedIn (past ++ [.begun kind]) outside context := by
  left
  intro older
  rw [List.append_assoc]
  obtain inside | ⟨rfl, none⟩ := refused
  · exact inside _
  · exact none _

/-! ### Both kinds of readers agree -/

/-- **The run follows the reading,** from the stacks `st` on and in a context. It gives the same and
leaves the same, and the stacks are as they were, but more has happened; or it is refused for the
same, and the context is that of the innermost open statement. -/
structure Follows {β : Type} (st : Stacks) (context : Diagnostic.Context)
    (reading : Except Diagnostic β) (run : Except Halt (β × Stacks)) : Prop where
  returns : ∀ b, reading = .ok b → ∃ past, Complete past ∧ run = .ok (b, st.later past)
  refuses : ∀ d, reading = .error d →
    ∃ past, RefusedIn past context d.context ∧ run = .error ⟨d, past ++ st.history⟩

namespace Follows

variable {β γ : Type} {st : Stacks} {context : Diagnostic.Context}
  {reading other : Except Diagnostic β} {run run' : Except Halt (β × Stacks)}

theorem ok (b : β) : Follows st context (.ok b) (.ok (b, st)) := by
  constructor
  · intro b' same
    cases same
    exact ⟨[], .nil, rfl⟩
  · intro d absurd
    cases absurd

theorem refuse {d : Diagnostic} (same : d.context = context) :
    Follows st context (.error d : Except Diagnostic β) (st.reads (.error d)) := by
  constructor
  · intro b absurd
    cases absurd
  · intro d' same'
    cases same'
    exact ⟨[], same ▸ .nil _, rfl⟩

/-- Both are refused, or neither is. -/
theorem cases (follows : Follows st context reading run) :
    (∃ b past, Complete past ∧ reading = .ok b ∧ run = .ok (b, st.later past)) ∨
      ∃ d past, RefusedIn past context d.context ∧ reading = .error d ∧
        run = .error ⟨d, past ++ st.history⟩ := by
  cases same : reading with
  | ok b =>
    obtain ⟨past, complete, returned⟩ := follows.returns b same
    exact .inl ⟨b, past, complete, rfl, returned⟩
  | error d =>
    obtain ⟨past, refused, halted⟩ := follows.refuses d same
    exact .inr ⟨d, past, refused, rfl, halted⟩

theorem restores (follows : Follows st context reading run) {b : β} {st' : Stacks}
    (returned : run = .ok (b, st')) :
    ∃ past, Complete past ∧ reading = .ok b ∧ st' = st.later past := by
  obtain ⟨b', past, complete, read, returned'⟩ | ⟨d, past, -, -, halted⟩ := follows.cases
  · cases returned.symm.trans returned'
    exact ⟨past, complete, read, rfl⟩
  · cases returned.symm.trans halted

theorem refused (follows : Follows st context reading run) {d : Diagnostic}
    {history : List Milestone} (halted : run = .error ⟨d, history⟩) :
    ∃ past, RefusedIn past context d.context ∧ reading = .error d ∧
      history = past ++ st.history := by
  obtain ⟨b, past, -, -, returned⟩ | ⟨d', past, refused, failed, halted'⟩ := follows.cases
  · cases halted.symm.trans returned
  · cases halted.symm.trans halted'
    exact ⟨past, refused, failed, rfl⟩

theorem ok_iff (follows : Follows st context reading run) {b : β} :
    reading = .ok b ↔ ∃ st', run = .ok (b, st') := by
  constructor
  · intro read
    obtain ⟨past, -, returned⟩ := follows.returns b read
    exact ⟨_, returned⟩
  · rintro ⟨st', returned⟩
    obtain ⟨past, -, read, -⟩ := follows.restores returned
    exact read

theorem error_iff (follows : Follows st context reading run) {d : Diagnostic} :
    reading = .error d ↔ ∃ history, run = .error ⟨d, history⟩ := by
  constructor
  · intro failed
    obtain ⟨past, -, halted⟩ := follows.refuses d failed
    exact ⟨_, halted⟩
  · rintro ⟨history, halted⟩
    obtain ⟨past, -, failed, -⟩ := follows.refused halted
    exact failed

/-- A part without statements changes nothing. -/
theorem reads {f : β → Except Diagnostic γ} {g : β → Except Halt (γ × Stacks)}
    (refuses : RefusesIn context reading) (more : ∀ b, Follows st context (f b) (g b)) :
    Follows st context (reading >>= f) (st.reads reading >>= g) := by
  cases reading with
  | ok b => exact more b
  | error d => exact ⟨(refuse (refuses d rfl)).returns, (refuse (refuses d rfl)).refuses⟩

/-- A part with statements brings the stacks back, and what comes next starts there. -/
theorem bind {f : β → Except Diagnostic γ} {g : β × Stacks → Except Halt (γ × Stacks)}
    (first : Follows st context reading run)
    (more : ∀ b past, Follows (st.later past) context (f b) (g (b, st.later past))) :
    Follows st context (reading >>= f) (run >>= g) := by
  cases reading with
  | error d =>
    obtain ⟨past, refused, halted⟩ := first.refuses d rfl
    rw [halted]
    constructor
    · intro b absurd
      cases absurd
    · intro d' same
      cases same
      exact ⟨past, refused, rfl⟩
  | ok b =>
    obtain ⟨past, complete, returned⟩ := first.returns b rfl
    rw [returned]
    have next := more b past
    constructor
    · intro c read
      obtain ⟨past', complete', returned'⟩ := next.returns c read
      refine ⟨past' ++ past, complete.append complete', returned'.trans ?_⟩
      simp only [Stacks.later, List.append_assoc]
    · intro d failed
      obtain ⟨past', refused, halted⟩ := next.refuses d failed
      refine ⟨past' ++ past, refused.append complete, halted.trans ?_⟩
      simp only [Stacks.later, List.append_assoc]

theorem ite {c : Prop} [Decidable c] (yes : Follows st context reading run)
    (no : Follows st context other run') :
    Follows st context (if c then reading else other) (if c then run else run') := by
  by_cases holds : c
  · rw [if_pos holds, if_pos holds]
    exact yes
  · rw [if_neg holds, if_neg holds]
    exact no

/-- What is read between two changes of the stacks, of which the second takes back the first. -/
theorem between {enter leave : Stacks → Stacks} {read : Stacks → Except Halt (β × Stacks)}
    (follows : Follows (enter st) context reading (read (enter st)))
    (kept : (enter st).history = st.history)
    (back : ∀ past, leave ((enter st).later past) = st.later past) :
    Follows st context reading (st.between enter leave read) := by
  constructor
  · intro b same
    obtain ⟨past, complete, returned⟩ := follows.returns b same
    refine ⟨past, complete, ?_⟩
    rw [Stacks.between, returned, ← back]
    rfl
  · intro d failed
    obtain ⟨past, refused, halted⟩ := follows.refuses d failed
    refine ⟨past, refused, ?_⟩
    rw [Stacks.between, halted, kept]
    rfl

theorem within {read : Stacks → Except Halt (β × Stacks)}
    (follows : Follows (st.push context) context reading (read (st.push context))) :
    Follows st context reading (st.within context read) :=
  follows.between rfl fun _ => rfl

theorem looping {read : Stacks → Except Halt (β × Stacks)}
    (follows : Follows st.enterLoop context reading (read st.enterLoop)) :
    Follows st context reading (st.looping read) :=
  follows.between rfl fun _ => rfl

theorem calling {name : Text} {read : Stacks → Except Halt (β × Stacks)}
    (follows : Follows (st.enterFunction name) context reading (read (st.enterFunction name))) :
    Follows st context reading (st.calling name read) :=
  follows.between rfl fun _ => rfl

/-- A statement stands in the context of its kind, whatever the context around it. -/
theorem recorded {kind : Diagnostic.Context} {read : Stacks → Except Halt (β × Stacks)}
    (follows : Follows (st.later [.begun kind]) kind reading (read (st.later [.begun kind]))) :
    Follows st context reading (st.recorded kind read) := by
  constructor
  · intro b same
    obtain ⟨past, complete, returned⟩ := follows.returns b same
    refine ⟨_, complete.recorded kind, ?_⟩
    rw [Stacks.recorded, returned]
    simp only [Stacks.later, List.cons_append, List.append_assoc, List.nil_append]
    rfl
  · intro d failed
    obtain ⟨past, refused, halted⟩ := follows.refuses d failed
    refine ⟨_, refused.begun context, ?_⟩
    rw [Stacks.recorded, halted, List.append_assoc]
    rfl

end Follows

section

variable (ending : Token) (st : Stacks)

theorem follows_declaration (keyword : Token) (ts : List Token) :
    Follows st .declaration (declaration (st.site ending) keyword ts)
      (st.declaration ending keyword ts) := by
  refine .within ?_
  refine .reads (refusesIn_typeWord _ ts) fun type => ?_
  refine .reads (refusesIn_declaredName _ _) fun name => ?_
  refine .reads (refusesIn_initializer _ _ _) fun value => ?_
  exact .reads (refusesIn_expect _ _ _ _) fun close => .ok _

theorem follows_print (keyword : Token) (ts : List Token) :
    Follows st .print (print (st.site ending) keyword ts) (st.print ending keyword ts) :=
  .within (.reads (refusesIn_expression _ ts) fun _ => .ok _)

theorem follows_returns (keyword : Token) (ts : List Token) :
    Follows st .returns (returns (st.site ending) keyword ts) (st.returns ending keyword ts) := by
  refine .within (.ite (.refuse rfl) (.ite ?_ (.ok _)))
  exact .reads (refusesIn_expression _ ts) fun _ => .ok _

theorem follows_breaks (keyword : Token) (ts : List Token) :
    Follows st .breaks (breaks (st.site ending) keyword ts) (st.breaks ending keyword ts) :=
  .within (.ite (.ok _) (.refuse rfl))

theorem follows_callStatement (keyword : Token) (ts : List Token) :
    Follows st .call (callStatement (st.site ending) keyword ts)
      (st.callStatement ending keyword ts) :=
  .within (.reads (refusesIn_call _ keyword ts) fun _ => .ok _)

theorem follows_assignment (name : Token) (ts : List Token) :
    Follows st .assignment (assignment (st.site ending) name ts)
      (st.assignment ending name ts) := by
  refine .within (.reads (refusesIn_expect _ _ _ ts) fun _ => ?_)
  exact .reads (refusesIn_expression _ _) fun _ => .ok _

mutual

/-- **A statement brings the stacks back,** and what it refuses is refused in the context of the
innermost open statement. -/
theorem follows_statement (st : Stacks) (ts : List Token) :
    Follows st st.context (statement (st.site ending) ts) (st.statement ending ts) := by
  cases ts with
  | nil =>
    rw [statement, Stacks.statement]
    exact .refuse rfl
  | cons t rest =>
    rw [statement, Stacks.statement]
    cases t.kind
    case declare =>
      exact .recorded ((follows_declaration ending _ t rest).bind fun _ _ => .ok _)
    case print =>
      exact .recorded ((follows_print ending _ t rest).bind fun _ _ => .ok _)
    case whether =>
      exact .recorded ((follows_conditional _ t rest).bind fun _ _ => .ok _)
    case loop =>
      exact .recorded ((follows_loop _ t rest).bind fun _ _ => .ok _)
    case function =>
      exact .recorded ((follows_function _ t rest).bind fun _ _ => .ok _)
    case returns =>
      exact .recorded ((follows_returns ending _ t rest).bind fun _ _ => .ok _)
    case breaks =>
      exact .recorded ((follows_breaks ending _ t rest).bind fun _ _ => .ok _)
    case apply =>
      exact .recorded ((follows_callStatement ending _ t rest).bind fun _ _ => .ok _)
    case identifier =>
      exact .recorded ((follows_assignment ending _ t rest).bind fun _ _ => .ok _)
    all_goals exact .refuse rfl
termination_by 3 * ts.length
decreasing_by all_goals (subst_vars; simp only [List.length_cons]; omega)

theorem follows_block (st : Stacks) (unclosed : Diagnostic.Cause) (closes : TokenKind → Bool)
    (ts : List Token) : Follows st st.context (block (st.site ending) unclosed closes ts)
      (st.block ending unclosed closes ts) := by
  cases ts with
  | nil =>
    rw [block, Stacks.block]
    exact .refuse rfl
  | cons t rest =>
    rw [block, Stacks.block]
    refine .ite (.ok _) (.ite (.refuse rfl) ((follows_statement st (t :: rest)).bind ?_))
    rintro ⟨s, ts₁, lt₁⟩ past
    exact (follows_block (st.later past) unclosed closes ts₁).bind fun _ _ => .ok _
termination_by 3 * ts.length + 1
decreasing_by all_goals (subst_vars; omega)

theorem follows_conditional (st : Stacks) (keyword : Token) (ts : List Token) :
    Follows st .conditional (conditional ((st.site ending).inside .conditional) keyword ts)
      (st.conditional ending keyword ts) := by
  unfold conditional Stacks.conditional
  refine .within (.reads (refusesIn_expression _ ts) ?_)
  rintro ⟨condition, ts₁, lt₁⟩
  refine .reads (refusesIn_expect _ _ _ ts₁) ?_
  rintro ⟨mark, ts₂, lt₂⟩
  refine (follows_block (st.push .conditional) _ _ ts₂).bind ?_
  rintro ⟨yes, ts₃, le₃⟩ past
  cases ts₃ with
  | nil => exact .refuse rfl
  | cons t rest =>
    have shorter : rest.length < ts.length := by
      rw [List.length_cons] at le₃
      omega
    refine .ite ?_ (.reads (refusesIn_expect _ _ _ _) fun _ => .ok _)
    refine (follows_block ((st.push .conditional).later past) _ _ rest).bind fun _ _ => ?_
    exact .reads (refusesIn_expect _ _ _ _) fun _ => .ok _
termination_by 3 * ts.length + 2
decreasing_by all_goals omega

theorem follows_loop (st : Stacks) (keyword : Token) (ts : List Token) :
    Follows st .loop (loop (st.site ending).insideLoop keyword ts)
      (st.loop ending keyword ts) := by
  unfold loop Stacks.loop
  refine .within (.looping ((follows_block (st.push .loop).enterLoop _ _ ts).bind ?_))
  rintro ⟨body, ts₁, le₁⟩ past
  exact .reads (refusesIn_expect _ _ _ _) fun _ => .ok _
termination_by 3 * ts.length + 2
decreasing_by omega

theorem follows_function (st : Stacks) (keyword : Token) (ts : List Token) :
    Follows st .function (function (st.site ending).insideFunction keyword ts)
      (st.function ending keyword ts) := by
  unfold function Stacks.function
  refine .within (.reads (refusesIn_declaredName _ ts) ?_)
  rintro ⟨name, ts₁, lt₁⟩
  refine .calling (.reads (refusesIn_signature _ ts₁) ?_)
  rintro ⟨params, ts₂, le₂⟩
  -- The frame behind the body is the one in front of it, so the name at the end is still known.
  refine (follows_block ((st.push .function).enterFunction name.lexeme) _ _ ts₂).bind ?_
  rintro ⟨body, ts₃, le₃⟩ past
  exact .reads (refusesIn_functionEnd _ _ ts₃) fun _ => .ok _
termination_by 3 * ts.length + 2
decreasing_by omega

end

theorem follows_statements (st : Stacks) (ts : List Token) :
    Follows st st.context (statements (st.site ending) ts) (st.statements ending ts) := by
  cases ts with
  | nil =>
    rw [statements, Stacks.statements]
    exact .ok []
  | cons t rest =>
    rw [statements, Stacks.statements]
    refine (follows_statement ending st (t :: rest)).bind ?_
    rintro ⟨s, ts₁, lt₁⟩ past
    exact (follows_statements (st.later past) ts₁).bind fun _ _ => .ok _
termination_by ts.length
decreasing_by subst_vars; exact lt₁

end

/-! ### The discipline of the stacks -/

/-- **Every statement restores the stacks, and every refusal names the innermost open statement.**
Reading with stacks gives what reading with sites gives, from any stacks on. Whenever a statement is
read, the open functions with their loops and the contexts are those from before it. Whenever a
program is refused, the context is the kind of the statement that was begun last and is not finished
by then, or the program when there is none. -/
theorem Stacks.program_disciplined (tokens : List Token) :
    (∀ (st : Stacks) (ts : List Token) (s : Stmt) (left : Rest ts),
      Grammar.statement (st.site (ending tokens)) ts = .ok (s, left) ↔
        ∃ st', st.statement (ending tokens) ts = .ok ((s, left), st')) ∧
    (∀ (st st' : Stacks) (ts : List Token) (s : Stmt) (left : Rest ts),
      st.statement (ending tokens) ts = .ok ((s, left), st') →
        st'.frames = st.frames ∧ st'.contexts = st.contexts ∧
          innermost? st'.history = innermost? st.history) ∧
    (∀ p, Program.ofTokens tokens = .ok p ↔ ∃ st, Stacks.program tokens = .ok (p, st)) ∧
    (∀ d, Program.ofTokens tokens = .error d ↔
      ∃ history, Stacks.program tokens = .error ⟨d, history⟩) ∧
    ∀ d history, Stacks.program tokens = .error ⟨d, history⟩ →
      d.context = (innermost? history).getD .program := by
  have whole : Follows initial .program (Program.ofTokens tokens) (Stacks.program tokens) :=
    follows_statements (ending tokens) initial (body tokens)
  refine ⟨fun st ts s left => (follows_statement _ st ts).ok_iff, ?_,
    fun p => whole.ok_iff, fun d => whole.error_iff, ?_⟩
  · intro st st' ts s left read
    obtain ⟨past, complete, -, rfl⟩ := (follows_statement _ st ts).restores read
    exact ⟨rfl, rfl, complete 0 st.history⟩
  · intro d history halted
    obtain ⟨past, refused, -, rfl⟩ := whole.refused halted
    obtain inside | ⟨none, same⟩ := refused
    · rw [inside]
      rfl
    · rw [same, none]
      rfl

/-- A loop in which a break and a conditional with a print are finished when a token is refused: the
context is the loop. The conditional alone is read in the loop of a function. -/
theorem Stacks.program_disciplined_siblings :
    let conditional : List Token := [⟨.whether, "若", 1, 6⟩, ⟨.number, "1", 1, 7⟩,
      ⟨.thereupon, "者", 1, 8⟩, ⟨.print, "云", 1, 9⟩, ⟨.number, "2", 1, 10⟩,
      ⟨.blockEnd, "云云", 1, 11⟩]
    let tokens : List Token := ⟨.loop, "恆為是", 1, 1⟩ :: ⟨.breaks, "乃止", 1, 4⟩ :: conditional ++
      [⟨.thereupon, "者", 1, 13⟩, ⟨.eof, [], 1, 14⟩]
    let st : Stacks := ⟨⟨"甲", 1⟩, [⟨[], 0⟩], [.loop, .function], [.begun .loop, .begun .function]⟩
    let d : Diagnostic := ⟨.syntactic, .undefinedStatement, ⟨1, 13⟩, "者", .loop⟩
    let history : List Milestone := [.finished, .finished, .begun .print, .begun .conditional,
      .finished, .begun .breaks, .begun .loop]
    (∃ s left st', st.statement (ending tokens) conditional = .ok ((s, left), st') ∧
      st'.frames = st.frames ∧ st'.contexts = st.contexts) ∧
    Stacks.program tokens = .error ⟨d, history⟩ ∧
      d.context = (innermost? history).getD .program := by
  intro conditional tokens st d history
  obtain ⟨-, restores, -, -, names⟩ := program_disciplined tokens
  have read : ∃ s left st', st.statement (ending tokens) conditional = .ok ((s, left), st') :=
    ⟨_, _, _, by with_unfolding_all rfl⟩
  have halted : Stacks.program tokens = .error ⟨d, history⟩ := by with_unfolding_all rfl
  obtain ⟨s, left, st', read⟩ := read
  obtain ⟨frames, contexts, -⟩ := restores st st' conditional s left read
  exact ⟨⟨s, left, st', read, frames, contexts⟩, halted, names d history halted⟩

end Grammar

end Guwen
