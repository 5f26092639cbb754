/-
**Prompt readers: one token ahead, and no token too many.**

A reader is prompt if it looks no further than the first token that it leaves, and refuses a token
as soon as the tokens up to it cannot be gone on with. What can be gone on with is a property of the
tokens before the refused one, given to each reader.

* `Reading` — a reader as a function of the end token and of the tokens.
* `Prompt viable read ending ts` — the reading of `ts` is prompt, and refuses behind viable tokens
  only.
* `Prompt.bind`, `Prompt.cons`, `Prompt.congr` — how prompt readings are put together; the readers
  are built with nothing else.
-/
import Guwen.Proofs.Grammar.Places
import Guwen.Proofs.Grammar.Succession

namespace Guwen

namespace Grammar

/-! ### Readers as functions of the end and the tokens -/

/-- What a reader makes of an end token and of tokens: a result, and the tokens that it leaves. -/
abbrev Reading (α : Type) := Token → List Token → Except Diagnostic (α × List Token)

/-- The same place before another end. -/
def Site.endingAt (site : Site) (ending : Token) : Site := { site with ending }

section

variable {α β : Type} {p q : List Token → Prop}

/-- The outcome of a reader, with the tokens that are left as a plain list. -/
def outcome (result : Except Diagnostic (α × Subtype p)) : Except Diagnostic (α × List Token) :=
  result.map fun read => (read.1, read.2.1)

theorem outcome_eq_ok {result : Except Diagnostic (α × Subtype p)} {a : α} {rest : List Token} :
    outcome result = .ok (a, rest) ↔ Leaves result a rest := by
  cases result with
  | error d =>
    refine ⟨fun absurd => ?_, fun absurd => (not_leaves_error absurd).elim⟩
    cases absurd
  | ok read =>
    obtain ⟨b, left⟩ := read
    rw [leaves_ok]
    constructor
    · intro same
      cases same
      exact ⟨rfl, rfl⟩
    · rintro ⟨rfl, rfl⟩
      rfl

theorem outcome_eq_error {result : Except Diagnostic (α × Subtype p)} {d : Diagnostic} :
    outcome result = .error d ↔ result = .error d := by
  cases result with
  | error d' => exact ⟨fun same => by cases same; rfl, fun same => by cases same; rfl⟩
  | ok read => exact ⟨fun absurd => (by cases absurd), fun absurd => by cases absurd⟩

theorem outcome_bind {m : Except Diagnostic (β × Subtype q)}
    {f : β × Subtype q → Except Diagnostic (α × Subtype p)}
    {g : β × List Token → Except Diagnostic (α × List Token)}
    (same : ∀ b left, outcome (f (b, left)) = g (b, left.1)) :
    outcome (m >>= f) = outcome m >>= g := by
  cases m with
  | error d => rfl
  | ok read => exact same read.1 read.2

/-- What is left may be seen as a rest of more tokens. -/
theorem outcome_behind {m : Except Diagnostic (α × Subtype q)}
    {f : α × Subtype q → Except Diagnostic (α × Subtype p)}
    (same : ∀ a left, outcome (f (a, left)) = .ok (a, left.1)) :
    outcome (m >>= f) = outcome m := by
  cases m with
  | error d => rfl
  | ok read => exact same read.1 read.2

end

/-- A reader at a site, whatever the end is. -/
def reading {α : Type} {p : List Token → List Token → Prop}
    (reader : Site → (ts : List Token) → Except Diagnostic (α × Subtype (p ts))) (site : Site) :
    Reading α :=
  fun ending ts => outcome (reader (site.endingAt ending) ts)

/-! ### Prompt readings -/

/-- The diagnostic is about the token. -/
def IsAbout (d : Diagnostic) (t : Token) : Prop := d.position = t.position ∧ d.lexeme = t.lexeme

/-- **The reading of `ts` is prompt.** Where it stops before a token, it does so whatever stands
behind that token. Where it refuses a token, it does so whatever stands behind that token, and the
tokens before it are viable. -/
structure Prompt {α : Type} (viable : List Token → Prop) (read : Reading α) (ending : Token)
    (ts : List Token) : Prop where
  reads : ∀ a rest, read ending ts = .ok (a, rest) → ∃ used, ts = used ++ rest ∧
    (rest ≠ [] → ∀ ending' other, other.head? = rest.head? →
      read ending' (used ++ other) = .ok (a, other))
  refuses : ∀ d, read ending ts = .error d → d.kind = .syntactic →
    (∃ front t back, ts = front ++ t :: back ∧ IsAbout d t ∧ viable front ∧
      ∀ ending' other, read ending' (front ++ t :: other) = .error d) ∨
    (IsAbout d ending ∧ viable ts)

namespace Prompt

variable {α β : Type} {viable viable' : List Token → Prop} {read read' : Reading α}
  {ending t : Token} {ts : List Token} {a : α}

theorem mono (prompt : Prompt viable read ending ts)
    (lift : ∀ front, front <+: ts → viable front → viable' front) :
    Prompt viable' read ending ts := by
  refine ⟨prompt.reads, fun d refused syntactic => ?_⟩
  rcases prompt.refuses d refused syntactic with
    ⟨front, t, back, split, about, possible, always⟩ | ⟨about, possible⟩
  · exact .inl ⟨front, t, back, split, about, lift front ⟨t :: back, split.symm⟩ possible, always⟩
  · exact .inr ⟨about, lift ts (List.prefix_refl ts) possible⟩

/-- Readings that agree on all tokens with this first one are prompt together. -/
theorem congr (prompt : Prompt viable read ending ts)
    (same : ∀ ending' other, other.head? = ts.head? → read' ending' other = read ending' other) :
    Prompt viable read' ending ts := by
  constructor
  · intro a rest done
    obtain ⟨used, split, always⟩ := prompt.reads a rest ((same ending ts rfl).symm.trans done)
    refine ⟨used, split, fun some ending' other head => ?_⟩
    rw [same _ _ (split ▸ head?_append_congr used head)]
    exact always some ending' other head
  · intro d refused syntactic
    rcases prompt.refuses d ((same ending ts rfl).symm.trans refused) syntactic with
      ⟨front, t, back, split, about, possible, always⟩ | now
    · refine .inl ⟨front, t, back, split, about, possible, fun ending' other => ?_⟩
      rw [same _ _ (split ▸ head?_append_congr front rfl)]
      exact always ending' other
    · exact .inr now

/-- Nothing is read. -/
theorem pure : Prompt viable (fun _ ts => .ok (a, ts)) ending ts := by
  constructor
  · intro b rest done
    cases done
    exact ⟨[], rfl, fun _ _ _ _ => rfl⟩
  · intro d refused
    cases refused

/-- Everything is read. -/
theorem whole (done : read ending ts = .ok (a, [])) : Prompt viable read ending ts := by
  constructor
  · intro b rest done'
    cases done.symm.trans done'
    exact ⟨ts, (List.append_nil ts).symm, fun some => absurd rfl some⟩
  · intro d refused
    cases done.symm.trans refused

/-- The next token is looked at and left. -/
theorem look (left : ∀ ending' other, read ending' (t :: other) = .ok (a, t :: other)) :
    Prompt viable read ending (t :: ts) := by
  refine (pure (a := a)).congr fun ending' other head => ?_
  obtain ⟨us, rfl⟩ : ∃ us, other = t :: us := List.head?_eq_some_iff.mp head
  exact left ending' us

theorem refuse (site : Site) (cause : Diagnostic.Cause) (possible : viable [])
    (refused : ∀ ending' other, read ending' (t :: other) = .error (site.refuse cause t)) :
    Prompt viable read ending (t :: ts) := by
  constructor
  · intro b rest done
    cases (refused ending ts).symm.trans done
  · intro d refused' _
    cases (refused ending ts).symm.trans refused'
    exact .inl ⟨[], t, ts, rfl, ⟨rfl, rfl⟩, possible, refused⟩

theorem refuseEnd (site : Site) (cause : Diagnostic.Cause) (possible : viable [])
    (refused : read ending [] = .error (site.refuse cause ending)) :
    Prompt viable read ending [] := by
  constructor
  · intro b rest done
    cases refused.symm.trans done
  · intro d refused' _
    cases refused.symm.trans refused'
    exact .inr ⟨⟨rfl, rfl⟩, possible⟩

/-- The first token is taken, and reading goes on behind it. -/
theorem cons (rest : Prompt (fun front => viable (t :: front)) read' ending ts)
    (same : ∀ ending' other, other.head? = ts.head? →
      read ending' (t :: other) = read' ending' other) :
    Prompt viable read ending (t :: ts) := by
  constructor
  · intro a left done
    rw [same ending ts rfl] at done
    obtain ⟨used, rfl, always⟩ := rest.reads a left done
    refine ⟨t :: used, rfl, fun some ending' other head => ?_⟩
    rw [List.cons_append, same _ _ (head?_append_congr used head)]
    exact always some ending' other head
  · intro d refused syntactic
    rw [same ending ts rfl] at refused
    rcases rest.refuses d refused syntactic with
      ⟨front, u, back, rfl, about, possible, always⟩ | now
    · refine .inl ⟨t :: front, u, back, rfl, about, possible, fun ending' other => ?_⟩
      rw [List.cons_append, same ending' (front ++ u :: other) (head?_append_congr front rfl)]
      exact always ending' other
    · exact .inr now

/-- **One reading behind another.** -/
theorem bind {more : α → Reading β} (first : Prompt viable read ending ts)
    (next : ∀ a used rest, read ending ts = .ok (a, rest) → ts = used ++ rest →
      Prompt (fun front => viable (used ++ front)) (more a) ending rest) :
    Prompt viable (fun ending' us => read ending' us >>= fun left => more left.1 ending' left.2)
      ending ts := by
  constructor
  · intro b rest done
    cases head : read ending ts with
    | error d =>
      rw [head] at done
      cases done
    | ok left =>
      obtain ⟨a, mid⟩ := left
      rw [head] at done
      obtain ⟨used, split, always⟩ := first.reads a mid head
      obtain ⟨used', rfl, always'⟩ := (next a used mid head split).reads b rest done
      refine ⟨used ++ used', split.trans (List.append_assoc ..).symm, ?_⟩
      intro some ending' other same
      -- the first reading stops before the same token, so the second one starts there again
      have again := always (List.append_ne_nil_of_right_ne_nil used' some) ending'
        (used' ++ other) (head?_append_congr used' same)
      rw [List.append_assoc, again]
      exact always' some ending' other same
  · intro d refused syntactic
    cases head : read ending ts with
    | error d' =>
      rw [head] at refused
      cases refused
      rcases first.refuses d head syntactic with
        ⟨front, t, back, split, about, possible, always⟩ | now
      · refine .inl ⟨front, t, back, split, about, possible, fun ending' other => ?_⟩
        rw [always ending' other]
        rfl
      · exact .inr now
    | ok left =>
      obtain ⟨a, mid⟩ := left
      rw [head] at refused
      obtain ⟨used, rfl, always⟩ := first.reads a mid head
      rcases (next a used mid head rfl).refuses d refused syntactic with
        ⟨front, t, back, rfl, about, possible, always'⟩ | now
      · refine .inl ⟨used ++ front, t, back, (List.append_assoc ..).symm, about, possible, ?_⟩
        intro ending' other
        have again := always (List.append_ne_nil_of_right_ne_nil front (List.cons_ne_nil t back))
          ending' (front ++ t :: other) (head?_append_congr front rfl)
        rw [List.append_assoc, again]
        exact always' ending' other
      · exact .inr now

/-- A result made of what was read. -/
theorem map (prompt : Prompt viable read ending ts) (f : α → β) :
    Prompt viable (fun ending' us => read ending' us >>= fun left => .ok (f left.1, left.2))
      ending ts :=
  prompt.bind fun _ _ _ _ _ => .pure

end Prompt

end Grammar

end Guwen
