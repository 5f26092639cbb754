/-
**Tokens: the words of a source, each with its kind, its lexeme and its place.**

* `TokenKind` has one constructor for each kind a source can hold, and `other` for a number that
  names none; `TokenKind.name` and `TokenKind.ofCode` give the name and the kind of a number.
* `Position` counts lines and columns from one; `Position.after` moves past a character.
* `Token.render` is the listing form of a token.
-/
import Guwen.Text

namespace Guwen

/-! ### Kinds -/

/-- **The kind of a token.** The comment of each keyword gives its spelling. -/
inductive TokenKind where
  /-- The end of the source. -/
  | eof
  /-- A character that belongs to nothing else. -/
  | unknown
  /-- 吾有 -/
  | declare
  /-- 曰 -/
  | named
  /-- 其值 -/
  | value
  /-- 也 -/
  | close
  /-- 一數 -/
  | numberType
  /-- 一言 -/
  | stringType
  /-- 一列 -/
  | listType
  /-- 有術 -/
  | function
  /-- 欲行是術 -/
  | invoke
  /-- 必先得 -/
  | params
  /-- 乃得 -/
  | returns
  /-- 是謂 -/
  | functionName
  /-- 之術也 -/
  | functionEnd
  /-- 若 -/
  | whether
  /-- 者 -/
  | thereupon
  /-- 若非 -/
  | otherwise
  /-- 云云 -/
  | blockEnd
  /-- 恆為是 -/
  | loop
  /-- 乃止 -/
  | breaks
  /-- 云 -/
  | print
  /-- 施 -/
  | apply
  /-- 於 -/
  | toward
  /-- 名之 -/
  | nameIt
  /-- 以 -/
  | taking
  /-- 加 -/
  | plus
  /-- 減 -/
  | minus
  /-- 乘 -/
  | times
  /-- 除 -/
  | divide
  /-- 大於 -/
  | greater
  /-- 小於 -/
  | less
  /-- 等於 -/
  | equal
  /-- 「 on its own. -/
  | openQuote
  /-- 」 on its own. -/
  | closeQuote
  /-- 、 -/
  | comma
  | number
  | string
  | identifier
  /-- A number that names no kind. -/
  | other (code : Int)
deriving DecidableEq, Repr

namespace TokenKind

/-- The kinds in the order of their numbers, with their names. -/
def table : List (TokenKind × String) :=
  [(eof, "EOF"), (unknown, "UNKNOWN"), (declare, "DECLARE"), (named, "NAMED"), (value, "VALUE"),
   (close, "END"), (numberType, "NUMBER_TYPE"), (stringType, "STRING_TYPE"),
   (listType, "LIST_TYPE"), (function, "FUNCTION"), (invoke, "INVOKE"), (params, "PARAMS"),
   (returns, "RETURN"), (functionName, "FUNCTION_NAME"), (functionEnd, "FUNCTION_END"),
   (whether, "IF"), (thereupon, "THEN"), (otherwise, "ELSE"), (blockEnd, "BLOCK_END"),
   (loop, "LOOP"), (breaks, "BREAK"), (print, "PRINT"), (apply, "APPLY"), (toward, "TO"),
   (nameIt, "NAME_IT"), (taking, "WITH"), (plus, "PLUS"), (minus, "MINUS"),
   (times, "STAR"), (divide, "SLASH"), (greater, "GREATER"), (less, "LESS"), (equal, "EQUAL"),
   (openQuote, "OPEN_QUOTE"), (closeQuote, "CLOSE_QUOTE"), (comma, "COMMA"), (number, "NUMBER"),
   (string, "STRING"), (identifier, "IDENTIFIER")]

/-- The kind with a given number. -/
def ofCode : Int → TokenKind
  | .ofNat n => match table[n]? with
    | some row => row.1
    | none => other n
  | code => other code

/-- The kind with a given name. -/
def ofName? (name : String) : Option TokenKind := (table.find? (·.2 == name)).map (·.1)

/-- The name of a kind. -/
def name : TokenKind → Text
  | other code => "tokenType(" ++ Text.ofInt code ++ ")"
  | kind => match table.find? (·.1 == kind) with
    | some row => row.2
    | none => ""

/-- One of the three type words 一數, 一言 and 一列. -/
def isType : TokenKind → Bool
  | numberType | stringType | listType => true
  | _ => false

end TokenKind

/-! ### Places -/

/-- **A place in a source.** -/
structure Position where
  line : Int
  column : Int
deriving DecidableEq, Repr

namespace Position

/-- The first place of a source. -/
def start : Position := ⟨1, 1⟩

/-- The place of what belongs to no source. -/
def nowhere : Position := ⟨0, 0⟩

/-- The place after a character: only a line feed ends a line. -/
def after (p : Position) (c : Char) : Position :=
  if c = '\n' then ⟨p.line + 1, 1⟩ else ⟨p.line, p.column + 1⟩

/-- The place as `line:column`. -/
def render (p : Position) : Text := Text.ofInt p.line ++ ":" ++ Text.ofInt p.column

end Position

/-! ### Tokens -/

/-- **A token.** The lexeme of a string is what stands between its quotes. -/
structure Token where
  kind : TokenKind
  lexeme : Text
  position : Position
deriving DecidableEq, Repr

namespace Token

/-- The listing form of a token. -/
def render (t : Token) : Text :=
  "[" ++ t.kind.name ++ "] '" ++ t.lexeme ++ "' (" ++ t.position.render ++ ")"

/-- One line for each token. -/
def listing (tokens : List Token) : Text := tokens.flatMap fun t => t.render ++ "\n"

end Token

end Guwen
