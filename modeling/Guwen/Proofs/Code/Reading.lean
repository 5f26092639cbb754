/-
**Reading C# for its names.**

A reader of the C# text alone, line by line. It knows no more of the language than which words are
names, what a declaration and the head of a function look like, and that braces open and close
blocks. It gives what is declared, in order, and for each name in use the declaration it stands for:
the nearest one before it in an enclosing block.

* `Code.lex` cuts a line into words, string literals and marks.
* `Code.scan` goes through the pieces of an expression or a statement.
* `Code.readLine` reads one line, `Code.readUnit` a whole text.
-/
import Guwen.Code.Identifier
import Guwen.Proofs.Code.Identifier

namespace Guwen

namespace Code

/-! ### Pieces of a line -/

/-- **A piece of a line of C#.** -/
inductive Piece where
  | word (t : Text)
  /-- A string literal, of any content. -/
  | literal
  /-- Any other byte. -/
  | mark (b : UInt8)
deriving DecidableEq, Repr

/-- Where a line is cut: between pieces, in a word, in a string literal or behind a backslash
there. -/
inductive Mode where
  | between
  | word (start : Text)
  | literal
  | escape

/-- A space or a tab. -/
def isBlankByte (b : UInt8) : Bool := b == 32 || b == 9

/-- What a byte between pieces gives, and where it leads. -/
def opening (b : UInt8) : List Piece × Mode :=
  if isWordByte b then ([], .word [b])
  else if b = 34 then ([], .literal)
  else if isBlankByte b then ([], .between)
  else ([.mark b], .between)

/-- The pieces of a line that goes on in a mode. -/
def lexFrom : Mode → Text → List Piece
  | .word start, [] => [.word start]
  | _, [] => []
  | .between, b :: t => (opening b).1 ++ lexFrom (opening b).2 t
  | .word start, b :: t =>
    if isWordByte b then lexFrom (.word (start ++ [b])) t
    else .word start :: ((opening b).1 ++ lexFrom (opening b).2 t)
  | .literal, b :: t =>
    if b = 92 then lexFrom .escape t
    else if b = 34 then .literal :: lexFrom .between t
    else lexFrom .literal t
  | .escape, _ :: t => lexFrom .literal t

/-- **The pieces of a line.** -/
def lex (line : Text) : List Piece := lexFrom .between line

/-! ### Names declared and in use -/

/-- **What has been read so far.** A declaration is known by its number. -/
structure Names where
  /-- The open blocks, the innermost first, with the names declared in each. -/
  blocks : List (List (Text × Nat))
  /-- Parameters that wait for the block of their function. -/
  pending : List (Text × Nat)
  /-- All names declared, in order. -/
  declared : List Text
  /-- The names declared twice in one block. -/
  doubles : List Text
  /-- The names in use, in order, each with the declaration it stands for. -/
  resolved : List (Text × Option Nat)
deriving DecidableEq, Repr

namespace Names

/-- Nothing read. -/
def none : Names := ⟨[], [], [], [], []⟩

/-- The nearest declaration of a name in the open blocks. -/
def find? (names : Names) (x : Text) : Option Nat := names.blocks.findSome? (List.lookup x)

/-- A name in use. -/
def refer (names : Names) (x : Text) : Names :=
  { names with resolved := names.resolved ++ [(x, names.find? x)] }

/-- **A name declared in the innermost block.** -/
def declare (names : Names) (x : Text) : Names :=
  let block := names.blocks.headD []
  { names with
    blocks := ((x, names.declared.length) :: block) :: names.blocks.tail
    declared := names.declared ++ [x]
    doubles := if (block.lookup x).isSome then names.doubles ++ [x] else names.doubles }

/-- **A parameter,** which belongs to the block that follows. -/
def await (names : Names) (x : Text) : Names :=
  { names with
    pending := (x, names.declared.length) :: names.pending
    declared := names.declared ++ [x]
    doubles := if (names.pending.lookup x).isSome then names.doubles ++ [x] else names.doubles }

/-- A block opens, with the parameters that wait for it. -/
def enter (names : Names) : Names :=
  { names with blocks := names.pending :: names.blocks, pending := [] }

/-- The innermost block closes. -/
def leave (names : Names) : Names := { names with blocks := names.blocks.tail }

end Names

/-! ### Lines -/

/-- The word between `previous` and `next` is a name of the program: it is no number and no reserved
word, and it is neither the head nor the tail of a dotted name nor the type behind `new`. -/
def isName (previous : Option Piece) (t : Text) (next : Option Piece) : Bool :=
  !(t.head?.any isDigitByte) && !isReserved t && next != some (.mark 46) &&
    previous != some (.mark 46) && previous != some (.word "new")

/-- **The pieces of an expression or a statement,** read one after another. -/
def scan (previous : Option Piece) : List Piece → Names → Names
  | [], names => names
  | .word t :: rest, names =>
    scan (some (.word t)) rest
      (if isName previous t rest.head? then names.refer t else names)
  | .mark b :: rest, names =>
    scan (some (.mark b)) rest
      (if b = 123 then names.enter else if b = 125 then names.leave else names)
  | .literal :: rest, names => scan (some .literal) rest names

/-- The words that start the lines around a program. -/
def isFrameWord (t : Text) : Bool :=
  t == ("using" : Text) || t == ("namespace" : Text) || t == ("public" : Text)

/-- A type that is one word. -/
def isTypeWord (t : Text) : Bool :=
  t == ("double" : Text) || t == ("string" : Text) || t == ("object" : Text)

/-- The names of parameters: the words before a comma or a closing parenthesis. -/
def parameterNames : List Piece → List Text
  | .word t :: .mark b :: rest =>
    if b = 44 || b = 41 then t :: parameterNames rest else parameterNames rest
  | _ :: rest => parameterNames rest
  | [] => []

/-- **What a line of C# is.** -/
inductive Line where
  /-- A line around the program. -/
  | frame
  /-- The head of a function: its name and its parameters. -/
  | head (name : Text) (params : List Text)
  /-- The declaration of a variable, and its initial value. -/
  | declaration (name : Text) (value : List Piece)
  /-- Anything else. -/
  | statement (pieces : List Piece)

/-- The kind of a line, by the pieces it starts with. -/
def classify (pieces : List Piece) : Line :=
  match pieces with
  | .word t :: rest =>
    if isFrameWord t then .frame
    else if t = ("dynamic" : Text) then
      match rest with
      | .word f :: .mark 40 :: more => .head f (parameterNames more)
      | _ => .statement pieces
    else if isTypeWord t then
      match rest with
      | .word x :: .mark 61 :: value => .declaration x value
      | _ => .statement pieces
    else if t = ("List" : Text) then
      match rest with
      | .mark 60 :: .word _ :: .mark 62 :: .word x :: .mark 61 :: value => .declaration x value
      | _ => .statement pieces
    else .statement pieces
  | _ => .statement pieces

/-- **One line.** A variable can be seen from the next line on, a function at once. -/
def readLine (names : Names) (line : Text) : Names :=
  match classify (lex line) with
  | .frame => names
  | .head f params => params.foldl Names.await (names.declare f)
  | .declaration x value => (scan none value names).declare x
  | .statement pieces => scan none pieces names

/-- **A whole text,** line by line. -/
def readUnit (code : Text) : Names := (List.splitOn 10 code).foldl readLine .none

end Code

end Guwen
