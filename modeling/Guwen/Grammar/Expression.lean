/-
**Reading expressions.**

An expression is a chain of operands. An operand is a numeral, a string, a name or a call; a call
takes every separator that follows it, so the innermost open call takes the arguments.

* `numeral` joins the glyphs of one number, which arrive as single tokens side by side.
* `operand`, `call`, `chain` and `arguments` read one another; each takes at least one token.
* `expression` is the tree of the chain at the front.
-/
import Guwen.Grammar.Chain
import Guwen.Grammar.Site
import Guwen.Token.Scan

namespace Guwen

namespace Grammar

/-! ### Numerals -/

/-- A number in the digits 0 to 9, which stands as it is written. -/
def isArabic (t : Token) : Bool := t.lexeme.chars.head?.any isDigit

/-- How many columns there are: they are 64-bit numbers, and wrap around. -/
def columnCount : Nat := 0x10000000000000000

/-- `b` starts where `a` ends, on the same line. -/
def adjacent (a b : Token) : Bool :=
  a.position.line == b.position.line &&
    b.position.column == Int.bmod (a.position.column + a.lexeme.chars.length) columnCount

/-- The glyph tokens that go on the numeral whose last token so far is `last`, and what follows
them. -/
def glyphRun (last : Token) : List Token → List Token × List Token
  | [] => ([], [])
  | t :: ts =>
    if t.kind = .number && !isArabic t && adjacent last t then
      (t :: (glyphRun t ts).1, (glyphRun t ts).2)
    else ([], t :: ts)

/-- What follows a run of glyphs is no longer than what it was taken from. -/
theorem glyphRun_length_le (last : Token) (ts : List Token) :
    (glyphRun last ts).2.length ≤ ts.length := by
  induction ts generalizing last with
  | nil => exact Nat.le_refl _
  | cons t ts shorter =>
    unfold glyphRun
    split
    · exact Nat.le_succ_of_le (shorter t)
    · exact Nat.le_refl _

/-- The diagnostic for glyphs that make no number. -/
def notNumeral (glyphs : Text) : Diagnostic :=
  ⟨.lexical, .invalidNumeral, .nowhere, glyphs, .none⟩

/-- **The value of a numeral,** or why it has none. -/
def numeralValue (glyphs : Text) : Except Diagnostic Nat :=
  match Numeral.value? glyphs.chars with
  | some value => .ok value
  | none => .error (notNumeral glyphs)

/-- The number that starts with `start`. -/
def numeral (site : Site) (start : Token) (ts : List Token) :
    Except Diagnostic (Expr × Within ts) :=
  if isArabic start then .ok (.literal start .number start.lexeme, ⟨ts, Nat.le_refl _⟩)
  else
    let run := glyphRun start ts
    match numeralValue (start.lexeme ++ run.1.flatMap Token.lexeme) with
    | .ok value =>
      .ok (.literal start .number (Text.ofNat value), ⟨run.2, glyphRun_length_le start ts⟩)
    | .error d => .error { d with position := start.position, context := site.context }

/-! ### Operands, calls and chains -/

mutual

/-- **An operand:** a number, a string, a name or a call. -/
def operand (site : Site) (ts : List Token) : Except Diagnostic (Expr × Rest ts) :=
  match ts with
  | [] => .error (site.refuse .expectedExpression site.ending)
  | t :: rest =>
    match t.kind with
    | .number => do
      let (e, left) ← numeral site t rest
      return (e, left.behind)
    | .string => .ok (.literal t .string t.lexeme, .tail)
    | .identifier => .ok (.use t none, .tail)
    | .apply => do
      let (e, left) ← call site t rest
      return (e, left.behind)
    | _ => .error (site.refuse .expectedExpression t)
termination_by 4 * ts.length
decreasing_by simp only [List.length_cons]; omega

/-- **A call** behind its keyword: the callee, and arguments when 於 or 以 follows. -/
def call (site : Site) (keyword : Token) (ts : List Token) : Except Diagnostic (Expr × Rest ts) :=
  match ts with
  | [] => .error (site.refuse .expectedCallee site.ending)
  | callee :: rest =>
    if callee.kind = .identifier ∨ callee.kind = .string then
      match rest with
      | [] => .ok (.call keyword callee [] none, .tail)
      | mark :: after =>
        if mark.kind = .toward ∨ mark.kind = .taking then do
          let (values, left) ← arguments site after
          return (.call keyword callee values none, left.behind.behind)
        else .ok (.call keyword callee [] none, .tail)
    else .error (site.refuse .expectedCallee callee)
termination_by 4 * ts.length + 3
decreasing_by simp only [List.length_cons]; omega

/-- **A chain:** an operand, and as long as an operator follows, another one. -/
def chain (site : Site) (ts : List Token) : Except Diagnostic (Chain × Rest ts) := do
  let (first, ⟨rest, shorter⟩) ← operand site ts
  match rest, shorter with
  | [], shorter => return (⟨first, []⟩, ⟨[], shorter⟩)
  | t :: after, shorter =>
    match Operator.ofKind? t.kind with
    | none => return (⟨first, []⟩, ⟨t :: after, shorter⟩)
    | some op => do
      let (more, left) ← chain site after
      return (⟨first, ⟨t, op, more.first⟩ :: more.links⟩, ⟨left.1, by
        have := left.2
        simp only [List.length_cons] at shorter
        omega⟩)
termination_by 4 * ts.length + 1
decreasing_by
  · omega
  · simp only [List.length_cons] at shorter; omega

/-- **Arguments,** with 、, 於 or 以 between them. -/
def arguments (site : Site) (ts : List Token) : Except Diagnostic (List Expr × Rest ts) := do
  let (c, ⟨rest, shorter⟩) ← chain site ts
  match rest, shorter with
  | [], shorter => return ([c.tree], ⟨[], shorter⟩)
  | t :: after, shorter =>
    if t.kind = .comma ∨ t.kind = .toward ∨ t.kind = .taking then do
      let (more, left) ← arguments site after
      return (c.tree :: more, ⟨left.1, by
        have := left.2
        simp only [List.length_cons] at shorter
        omega⟩)
    else return ([c.tree], ⟨t :: after, shorter⟩)
termination_by 4 * ts.length + 2
decreasing_by
  · omega
  · simp only [List.length_cons] at shorter; omega

end

/-- **The expression at the front.** -/
def expression (site : Site) (ts : List Token) : Except Diagnostic (Expr × Rest ts) := do
  let (c, left) ← chain site ts
  return (c.tree, left)

end Grammar

end Guwen
