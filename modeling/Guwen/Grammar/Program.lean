/-
**Reading programs.**

A program is read up to the first end token; what follows that token is never looked at. A list
without an end token is read as if one stood at the place of its last token.

`Program.ofTokens` reads tokens, `Program.ofSource` a source.
-/
import Guwen.Grammar.Statement

namespace Guwen

namespace Grammar

/-- The end of a list of tokens: its first end token, or else one at the place of the last token. -/
def ending (tokens : List Token) : Token :=
  match tokens.find? (·.kind == .eof) with
  | some t => t
  | none => ⟨.eof, [], (tokens.getLast?.map (·.position)).getD .start⟩

/-- The tokens before the end. -/
def body (tokens : List Token) : List Token := tokens.takeWhile (·.kind != .eof)

/-- The place at the top of a program. -/
def top (tokens : List Token) : Site := ⟨ending tokens, .program, false, false⟩

/-- Statements to the last token. -/
def statements (site : Site) (ts : List Token) : Except Diagnostic (List Stmt) :=
  match ts with
  | [] => .ok []
  | t :: rest => do
    let (s, ⟨ts₁, _⟩) ← statement site (t :: rest)
    let ss ← statements site ts₁
    return s :: ss
termination_by ts.length
decreasing_by assumption

end Grammar

namespace Program

/-- **The program that tokens spell,** or why they spell none. -/
def ofTokens (tokens : List Token) : Except Diagnostic Program :=
  Grammar.statements (Grammar.top tokens) (Grammar.body tokens)

/-- **The program of a source.** -/
def ofSource (source : Text) : Except Diagnostic Program := ofTokens (Token.tokenize source)

end Program

end Guwen
