/-
**Literals and types of C#.**

`quote` writes a text as a string literal: a backslash and a quote get a backslash, a line feed, a
carriage return and a tab their letter, and braces their number, so that no brace of a literal is
ever taken for one of the code. All other bytes pass.
-/
import Guwen.Text

namespace Guwen

namespace Code

/-- A byte inside a string literal. -/
def escapeByte (b : UInt8) : Text :=
  if b = 0x5C then "\\\\"
  else if b = 0x22 then "\\\""
  else if b = 0x0A then "\\n"
  else if b = 0x0D then "\\r"
  else if b = 0x09 then "\\t"
  else if b = 0x7B then "\\u007B"
  else if b = 0x7D then "\\u007D"
  else [b]

/-- **A text as a string literal.** -/
def quote (t : Text) : Text := "\"" ++ t.flatMap escapeByte ++ "\""

/-- The C# type of a type word; any other word is an object. -/
def typeOf (word : Text) : Text :=
  if word = ("一數" : Text) then "double"
  else if word = ("一言" : Text) then "string"
  else if word = ("一列" : Text) then "List<object>"
  else "object"

/-- What a variable of a C# type holds when it has no initial value. -/
def defaultOf (type : Text) : Text :=
  if type = ("double" : Text) then "0.0"
  else if type = ("string" : Text) then "\"\""
  else if type = ("List<object>" : Text) then "new List<object>()"
  else "null"

end Code

end Guwen
