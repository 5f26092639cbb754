/-
**Reading tokens: where a reader stands, and what it leaves.**

A reader takes tokens from the front of a list and leaves the rest. `Within ts` is a rest no longer
than `ts`, `Rest ts` one that is shorter, so a reader that gives a `Rest` has taken a token and the
recursion over what is left ends. A `Site` says what encloses the place that is read, which decides
what is allowed there and what a refusal says.
-/
import Guwen.Diagnostic

namespace Guwen

namespace Grammar

/-! ### What is left -/

/-- A rest of `ts` no longer than `ts`. -/
abbrev Within (ts : List Token) := { rest : List Token // rest.length ≤ ts.length }

/-- **A rest of `ts` shorter than `ts`.** -/
abbrev Rest (ts : List Token) := { rest : List Token // rest.length < ts.length }

/-- All but the first token. -/
def Rest.tail {t : Token} {ts : List Token} : Rest (t :: ts) :=
  ⟨ts, Nat.lt_succ_self _⟩

/-- A rest of `ts` is one of `t :: ts`. -/
def Rest.behind {t : Token} {ts : List Token} (rest : Rest ts) : Rest (t :: ts) :=
  ⟨rest.1, Nat.lt_succ_of_lt rest.2⟩

/-- Whatever is left of `ts` is a shorter rest of `t :: ts`. -/
def Within.behind {t : Token} {ts : List Token} (rest : Within ts) : Rest (t :: ts) :=
  ⟨rest.1, Nat.lt_succ_of_le rest.2⟩

/-! ### Sites -/

/-- **What encloses the place that is read.** -/
structure Site where
  /-- The token at the end, which is never taken. -/
  ending : Token
  /-- The innermost statement not yet finished. -/
  context : Diagnostic.Context
  inFunction : Bool
  /-- Inside a loop of the innermost function. -/
  inLoop : Bool
deriving Repr

namespace Site

/-- The place inside a statement. -/
def inside (site : Site) (context : Diagnostic.Context) : Site := { site with context }

/-- The place inside a loop. -/
def insideLoop (site : Site) : Site := { site with context := .loop, inLoop := true }

/-- The place inside a function, which is in no loop of its own yet. -/
def insideFunction (site : Site) : Site :=
  { site with context := .function, inFunction := true, inLoop := false }

/-- The next token. -/
def peek (site : Site) (ts : List Token) : Token := ts.headD site.ending

/-- The refusal of a token. -/
def refuse (site : Site) (cause : Diagnostic.Cause) (token : Token) : Diagnostic :=
  .atToken .syntactic cause site.context token

end Site

/-! ### Single tokens -/

/-- Past a token of the given kind, if one is next. -/
def skip (kind : TokenKind) : (ts : List Token) → Within ts
  | [] => ⟨[], Nat.le_refl _⟩
  | t :: rest =>
    if t.kind = kind then ⟨rest, Nat.le_succ _⟩ else ⟨t :: rest, Nat.le_refl _⟩

/-- **Past a token of the given kind,** which has to be next. -/
def expect (site : Site) (kind : TokenKind) (cause : Diagnostic.Cause) :
    (ts : List Token) → Except Diagnostic (Token × Rest ts)
  | [] => .error (site.refuse cause site.ending)
  | t :: _ => if t.kind = kind then .ok (t, .tail) else .error (site.refuse cause t)

end Grammar

end Guwen
