/-
**Quoted texts.**

A text between double quotes, on one line and readable: a quote and a backslash get a backslash, the
usual control characters their letter (`\n`, `\t`), any other character that does not print its
number, and a stray byte `\x` with its two digits. `quotedChar` is the same for one character
between single quotes.
-/
import Guwen.Text
import Guwen.Text.Printable

namespace Guwen

namespace Text

/-- A character inside quotes of the kind `quote`. -/
def escapeChar (quote : Char) (c : Char) : Text :=
  if c = quote || c = '\\' then "\\" ++ ofChars [c]
  else if isPrintable c then ofChars [c]
  else match c.toNat with
  | 7 => "\\a"
  | 8 => "\\b"
  | 12 => "\\f"
  | 10 => "\\n"
  | 13 => "\\r"
  | 9 => "\\t"
  | 11 => "\\v"
  | n =>
    if n < 0x20 || n = 0x7F then "\\x" ++ hex 2 n
    else if n < 0x10000 then "\\u" ++ hex 4 n
    else "\\U" ++ hex 8 n

/-- **A text in double quotes.** -/
def quoted (t : Text) : Text :=
  let piece : Glyph → Text
    | .char c => escapeChar '"' c
    | .stray b => "\\x" ++ hex 2 b.toNat
  "\"" ++ t.glyphs.flatMap piece ++ "\""

/-- A character in single quotes. -/
def quotedChar (c : Char) : Text := "'" ++ escapeChar (Char.ofNat 39) c ++ "'"

end Text

end Guwen
