/-
**Scanning: from characters to tokens.**

`munch` takes the next piece of a source, which is white space, a comment or a token; `scan` goes on
until the source ends. Nothing is refused: what belongs to no class becomes an unknown token, and an
unclosed string runs to the end. The list always ends with the end token.

* `Token.munch` decides the piece at the head of a source.
* `Token.scanAfter` reads all tokens from a place on.
* `Token.tokenize` reads all tokens of a text.
-/
import Guwen.Lexicon
import Guwen.Numeral
import Guwen.Text.Blank
import Guwen.Text.Han

namespace Guwen

/-- An ASCII digit. -/
def isDigit (c : Char) : Bool := '0' ≤ c && c ≤ '9'

/-- An ASCII letter or the underscore. -/
def isLetter (c : Char) : Bool := ('a' ≤ c && c ≤ 'z') || ('A' ≤ c && c ≤ 'Z') || c == '_'

namespace Token

/-- **The piece at the head of a source:** how many characters beyond the first belong to it, and
the kind and the lexeme of its token, if it is one. -/
structure Munch where
  more : Nat
  token? : Option (TokenKind × List Char)
deriving Repr

namespace Munch

/-- White space and comments give no token. -/
def skip (more : Nat) : Munch := ⟨more, none⟩

/-- A token whose lexeme is all of its piece. -/
def word (kind : TokenKind) (lexeme : List Char) : Munch :=
  ⟨lexeme.length - 1, some (kind, lexeme)⟩

end Munch

/-- The string that `cs` continues after its opening quote: up to the closing quote, or to the end
when there is none. -/
def munchString (cs : List Char) : Munch :=
  let body := cs.takeWhile (· != '」')
  ⟨if body.length < cs.length then body.length + 1 else body.length, some (.string, body)⟩

/-- The digits of a number after its first one: more digits, and a point with digits after it. -/
def numberTail (cs : List Char) : List Char :=
  let whole := cs.takeWhile isDigit
  match cs.dropWhile isDigit with
  | '.' :: d :: rest =>
    if isDigit d then whole ++ '.' :: d :: rest.takeWhile isDigit else whole
  | _ => whole

/-- The piece that starts with a Han character: the longest keyword, or else the one character, a
number when it is a numeral glyph and a name otherwise. -/
def munchHan (c : Char) (cs : List Char) : Munch :=
  match Lexicon.longest? (c :: cs) with
  | some (spelling, kind) => .word kind spelling
  | none => .word (if Numeral.isNumeral [c] then .number else .identifier) [c]

/-- **The piece that starts with `c` when `cs` follows.** -/
def munch (c : Char) (cs : List Char) : Munch :=
  if isBlank c then .skip 0
  else if c == '/' && cs.head? == some '/' then .skip (cs.takeWhile (· != '\n')).length
  else if c == '「' then munchString cs
  else if c == '」' then .word .closeQuote [c]
  else if c == '、' then .word .comma [c]
  else if isDigit c then .word .number (c :: numberTail cs)
  else if isHan c then munchHan c cs
  else if isLetter c then .word .identifier (c :: cs.takeWhile fun d => isLetter d || isDigit d)
  else .word .unknown [c]

/-- The token of a piece that starts at `p`. -/
def Munch.tokenAt (m : Munch) (p : Position) : Option Token :=
  m.token?.map fun (kind, lexeme) => ⟨kind, Text.ofChars lexeme, p⟩

/-- **The tokens from a place on,** when the first `pending` characters belong to a piece already
taken. -/
def scanAfter : Nat → Position → List Char → List Token
  | _, p, [] => [⟨.eof, [], p⟩]
  | pending + 1, p, c :: cs => scanAfter pending (p.after c) cs
  | 0, p, c :: cs =>
    ((munch c cs).tokenAt p).toList ++ scanAfter (munch c cs).more (p.after c) cs

/-- The tokens of a list of characters. -/
def scan (cs : List Char) : List Token := scanAfter 0 .start cs

/-- **The tokens of a source.** -/
def tokenize (source : Text) : List Token := scan source.chars

end Token

end Guwen
