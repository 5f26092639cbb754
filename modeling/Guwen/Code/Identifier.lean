/-
**Identifiers: how names are written in C#.**

A name of ASCII letters, digits and underscores stays as it is, with `@` before a reserved word. Any
other name becomes `變量_` and the sixteen digits of its hash.
-/
import Guwen.Text

namespace Guwen

namespace Code

/-- An ASCII letter or the underscore, as a byte. -/
def isLetterByte (b : UInt8) : Bool :=
  (97 ≤ b && b ≤ 122) || (65 ≤ b && b ≤ 90) || b == 95

/-- An ASCII digit, as a byte. -/
def isDigitByte (b : UInt8) : Bool := 48 ≤ b && b ≤ 57

/-- **A plain identifier:** a letter or underscore, then letters, digits and underscores. -/
def isPlain : Text → Bool
  | [] => false
  | b :: t => isLetterByte b && t.all fun c => isLetterByte c || isDigitByte c

/-- The reserved words of C#. -/
def reservedWords : List String :=
  ["abstract", "as", "base", "bool", "break", "byte", "case", "catch", "char", "checked", "class",
   "const", "continue", "decimal", "default", "delegate", "do", "double", "else", "enum", "event",
   "explicit", "extern", "false", "finally", "fixed", "float", "for", "foreach", "goto", "if",
   "implicit", "in", "int", "interface", "internal", "is", "lock", "long", "namespace", "new",
   "null", "object", "operator", "out", "override", "params", "private", "protected", "public",
   "readonly", "ref", "return", "sbyte", "sealed", "short", "sizeof", "stackalloc", "static",
   "string", "struct", "switch", "this", "throw", "true", "try", "typeof", "uint", "ulong",
   "unchecked", "unsafe", "ushort", "using", "virtual", "void", "volatile", "while"]

/-- A reserved word of C#. -/
def isReserved (t : Text) : Bool := reservedWords.any fun word => Text.ofString word == t

/-- The 64-bit FNV-1a hash of a text. -/
def hash (t : Text) : UInt64 :=
  t.foldl (fun h b => (h ^^^ b.toUInt64) * 0x100000001b3) 0xcbf29ce484222325

/-- What stands before the hash of a name. -/
def hashPrefix : Text := "變量_"

/-- **A name as C# writes it.** -/
def identifier (name : Text) : Text :=
  if isPlain name then if isReserved name then "@" ++ name else name
  else hashPrefix ++ Text.hex 16 (hash name).toNat

end Code

end Guwen
