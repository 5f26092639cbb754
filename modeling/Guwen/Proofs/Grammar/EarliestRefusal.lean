/-
**A refusal comes at the earliest token.**

The token that a source is refused for is the first one that no program goes on with: every list of
tokens that starts with the tokens up to it is refused in the same way, and the tokens before it
begin a program.

* `program_prompt` — reading all statements is prompt, from the promptness of one statement.
* `ofTokens_of_begins` — tokens that begin statements go on to tokens that are accepted.
* `ofTokens_refuses` — the refusal of any tokens, with the end token that is read for them.
* **`ofSource_refuses_earliest`** — the refusal of a source.
-/
import Guwen.Proofs.Compilation.Safety
import Guwen.Proofs.Grammar.PromptReaders

namespace Guwen

namespace Grammar

/-! ### All statements of a program -/

/-- All statements, with nothing left. -/
def programReading (site : Site) : Reading (List Stmt) := fun ending ts =>
  (statements (site.endingAt ending) ts).map fun ss => (ss, [])

theorem programReading_eq_error {site : Site} {ending : Token} {ts : List Token} {d : Diagnostic} :
    programReading site ending ts = .error d ↔ statements (site.endingAt ending) ts = .error d := by
  rw [programReading]
  cases statements (site.endingAt ending) ts with
  | error d' => exact ⟨fun same => by cases same; rfl, fun same => by cases same; rfl⟩
  | ok ss => exact ⟨fun absurd => (by cases absurd), fun absurd => by cases absurd⟩

theorem program_prompt (site : Site) (ending : Token) (ts : List Token) :
    Prompt (BeginsStatements site.place) (programReading site) ending ts := by
  cases ts with
  | nil =>
    refine .whole (a := []) ?_
    rw [programReading, statements]
    rfl
  | cons t us =>
    have parts : Prompt (BeginsStatements site.place) _ ending (t :: us) :=
      ((statement_prompt site ending (t :: us)).mono fun _ _ => begins_statement).bind
        fun s used rest done split => by
          have read : Leaves (statement _ (t :: us)) s rest := outcome_eq_ok.mp done
          have shorter : rest.length < (t :: us).length := read.within
          have formed := of_split split (statement_sound read)
          exact ((program_prompt site ending rest).mono fun front within more =>
            begins_statements formed more within).map fun ss => s :: ss
    refine parts.congr fun ending' other head => ?_
    obtain ⟨vs, rfl⟩ : ∃ vs, other = t :: vs := List.head?_eq_some_iff.mp head
    dsimp only [programReading, reading]
    rw [statements]
    cases statement (site.endingAt ending') (t :: vs) with
    | error d => rfl
    | ok read =>
      obtain ⟨s, rest, shorter⟩ := read
      dsimp only [bind, Except.bind, outcome, Except.map]
      cases statements (site.endingAt ending') rest <;> rfl
termination_by ts.length
decreasing_by subst_vars; exact shorter

/-- **Tokens that begin statements go on to tokens that are accepted.** -/
theorem ofTokens_of_begins {front : List Token} (begins : BeginsStatements .top front) :
    ∃ more p, Program.ofTokens (front ++ more) = .ok p := by
  obtain ⟨p, ts, ⟨more, rfl⟩, formed⟩ := begins
  have derived : Derives (front ++ more) p := formed [] .nil
  refine ⟨more, p, ofTokens_eq_ok_iff.mpr ?_⟩
  rwa [(body_of_none (forms_ne_eof derived)).1]

/-! ### Tokens with the same beginning -/

theorem body_append {front : List Token} (clear : ∀ t ∈ front, t.kind ≠ .eof)
    (rest : List Token) : body (front ++ rest) = front ++ body rest :=
  List.takeWhile_append_of_pos (by simpa using clear)

/-- Tokens that agree with a list up to one of its tokens have that token behind the same ones. -/
theorem split_of_take {front back tokens : List Token} {t : Token}
    (same : tokens.take (front.length + 1) = (front ++ t :: back).take (front.length + 1)) :
    tokens = front ++ t :: tokens.drop (front.length + 1) := by
  have start : tokens.take (front.length + 1) = front ++ [t] := by
    rw [same, List.take_append, List.take_of_length_le (Nat.le_succ _), Nat.add_sub_cancel_left]
    rfl
  calc tokens = tokens.take (front.length + 1) ++ tokens.drop (front.length + 1) :=
        (List.take_append_drop ..).symm
    _ = front ++ t :: tokens.drop (front.length + 1) := by
        rw [start, List.append_assoc]
        rfl

/-- **A refusal of tokens comes at the earliest token.** -/
theorem ofTokens_refuses {tokens : List Token} {d : Diagnostic}
    (failed : Program.ofTokens tokens = .error d) (syntactic : d.kind = .syntactic) :
    ∃ k t, (seen tokens)[k]? = some t ∧ IsAbout d t ∧
      (∀ others, others.take (k + 1) = (seen tokens).take (k + 1) →
        Program.ofTokens others = .error d) ∧
      ∃ more p, Program.ofTokens ((seen tokens).take k ++ more) = .ok p := by
  have refused : programReading (top tokens) (ending tokens) (body tokens) = .error d :=
    programReading_eq_error.mpr failed
  have prompt := program_prompt (top tokens) (ending tokens) (body tokens)
  rcases prompt.refuses d refused syntactic with
    ⟨front, t, back, split, about, begins, always⟩ | ⟨about, begins⟩
  · -- a token before the end: whatever follows it, reading stops there
    have whole : seen tokens = front ++ t :: (back ++ [ending tokens]) := by
      rw [seen, split, List.append_assoc]
      rfl
    have clear : ∀ u ∈ front ++ [t], u.kind ≠ .eof := by
      intro u member
      have inside : u ∈ body tokens := by
        rw [split, ← List.singleton_append, ← List.append_assoc]
        exact List.mem_append_left back member
      exact body_ne_eof u inside
    refine ⟨front.length, t, ?_, about, fun others same => ?_, ?_⟩
    · rw [whole, List.getElem?_append_right (Nat.le_refl _), Nat.sub_self]
      rfl
    · rw [whole] at same
      have sameBody : body others = front ++ t :: body (others.drop (front.length + 1)) := by
        conv_lhs => rw [split_of_take same, ← List.singleton_append, ← List.append_assoc]
        rw [body_append clear, List.append_assoc]
        rfl
      have again := programReading_eq_error.mp
        (always (ending others) (body (others.drop (front.length + 1))))
      rw [← sameBody] at again
      exact again
    · rw [whole, List.take_left' rfl]
      exact ofTokens_of_begins begins
  · -- the end itself: the other tokens have the same end behind the same tokens
    refine ⟨(body tokens).length, ending tokens, ?_, about, fun others same => ?_, ?_⟩
    · rw [seen, List.getElem?_append_right (Nat.le_refl _), Nat.sub_self]
      rfl
    · have start := split_of_take same
      obtain ⟨sameBody, sameEnd⟩ := body_of_first body_ne_eof (ending_kind tokens)
        (others.drop ((body tokens).length + 1))
      rw [← start] at sameBody sameEnd
      exact (ofTokens_congr sameBody sameEnd).trans failed
    · rw [seen, List.take_left' rfl]
      exact ofTokens_of_begins begins

end Grammar

/-- **A refusal of a source comes at the earliest token.** There is a token that the diagnostic is
about such that all tokens that start with those up to it are refused with the same diagnostic, and
those before it go on to tokens that are accepted. -/
theorem ofSource_refuses_earliest {source : Text} {d : Diagnostic}
    (failed : Program.ofSource source = .error d) :
    ∃ k t, (Token.tokenize source)[k]? = some t ∧ d.position = t.position ∧ d.lexeme = t.lexeme ∧
      (∀ tokens, tokens.take (k + 1) = (Token.tokenize source).take (k + 1) →
        Program.ofTokens tokens = .error d) ∧
      ∃ more p, Program.ofTokens ((Token.tokenize source).take k ++ more) = .ok p := by
  obtain ⟨_, -, said⟩ := refusal_of_ofSource failed
  have syntactic : d.kind = .syntactic := by
    rw [said]
    rfl
  obtain ⟨k, t, place, about, always, goesOn⟩ := Grammar.ofTokens_refuses failed syntactic
  rw [seen_tokenize] at place always goesOn
  exact ⟨k, t, place, about.1, about.2, always, goesOn⟩

/-- A comparison without its right operand, in a conditional of a function's body. -/
theorem ofSource_refuses_earliest_comparison :
    let source : Text := "有術曰「甲」若1大於者云云之術也"
    let d : Diagnostic := ⟨.syntactic, .expectedExpression, ⟨1, 11⟩, "者", .conditional⟩
    Program.ofSource source = .error d ∧
      ∃ k t, (Token.tokenize source)[k]? = some t ∧ d.position = t.position ∧ d.lexeme = t.lexeme ∧
        (∀ tokens, tokens.take (k + 1) = (Token.tokenize source).take (k + 1) →
          Program.ofTokens tokens = .error d) ∧
        ∃ more p, Program.ofTokens ((Token.tokenize source).take k ++ more) = .ok p := by
  intro source d
  have scanned : Token.tokenize source =
      [⟨.function, "有術", 1, 1⟩, ⟨.named, "曰", 1, 3⟩, ⟨.string, "甲", 1, 4⟩,
       ⟨.whether, "若", 1, 7⟩, ⟨.number, "1", 1, 8⟩, ⟨.greater, "大於", 1, 9⟩,
       ⟨.thereupon, "者", 1, 11⟩, ⟨.blockEnd, "云云", 1, 12⟩, ⟨.functionEnd, "之術也", 1, 14⟩,
       ⟨.eof, [], 1, 17⟩] := by
    decide +kernel
  have failed : Program.ofSource source = .error d := by
    rw [Program.ofSource, scanned]
    with_unfolding_all rfl
  exact ⟨failed, ofSource_refuses_earliest failed⟩

end Guwen
