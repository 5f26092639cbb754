/-
**A cursor: a place in a source that moves forward.**

A cursor holds what is left of the source, how many characters it has passed and where it stands. It
moves by a character, by a piece or to the end; at the end it cannot move by a character or a piece.
-/
import Guwen.Token.Scan

namespace Guwen

/-- **A place in a source.** -/
structure Cursor where
  offset : Nat
  position : Position
  rest : List Char
deriving Repr

namespace Cursor

/-- The cursor at the beginning of a source. -/
def ofText (source : Text) : Cursor := ⟨0, .start, source.chars⟩

/-- Nothing is left to read. -/
def atEnd (k : Cursor) : Bool := k.rest.isEmpty

/-- The next character. -/
def peek? (k : Cursor) : Option Char := k.rest[0]?

/-- The character after the next one. -/
def peekNext? (k : Cursor) : Option Char := k.rest[1]?

/-- The cursor behind `n` characters, or at the end when there are fewer. -/
def skip (k : Cursor) : Nat → Cursor
  | 0 => k
  | n + 1 => match k.rest with
    | [] => k
    | c :: cs => skip ⟨k.offset + 1, k.position.after c, cs⟩ n

/-- **Past one character,** which is given too. -/
def advance? (k : Cursor) : Option (Char × Cursor) :=
  match k.rest with
  | [] => none
  | c :: _ => some (c, k.skip 1)

/-- **Past one piece,** with its token if it is one. -/
def step? (k : Cursor) : Option (Option Token × Cursor) :=
  match k.rest with
  | [] => none
  | c :: cs =>
    let piece := Token.munch c cs
    some (piece.tokenAt k.position, k.skip (piece.more + 1))

/-- **To the end,** with all tokens on the way. -/
def finish (k : Cursor) : List Token × Cursor :=
  (Token.scanAfter 0 k.position k.rest, k.skip k.rest.length)

end Cursor

end Guwen
