/-
**Blanks: the characters that count as white space.**

`Text.isBlank` says that a text shows nothing; `Text.trim` drops the blanks at both ends;
`Text.firstWord?` gives what stands before the first blank that follows something else.
-/
import Guwen.Text
import Guwen.Text.CharSet

namespace Guwen

/-- The ranges of white space. -/
def CharSet.blank : CharSet :=
  [(0x0009, 0x000D), (0x0020, 0x0020), (0x0085, 0x0085), (0x00A0, 0x00A0), (0x1680, 0x1680),
   (0x2000, 0x200A), (0x2028, 0x2029), (0x202F, 0x202F), (0x205F, 0x205F), (0x3000, 0x3000)]

/-- A character that is white space. -/
def isBlank (c : Char) : Bool := CharSet.blank.contains c

namespace Text

/-- A text of white space alone; the empty text is one. -/
def isBlank (t : Text) : Bool := t.chars.all Guwen.isBlank

/-- A text without the white space at its ends. -/
def trim (t : Text) : Text :=
  let blank := fun g : Glyph => Guwen.isBlank g.reading
  ofGlyphs (((t.glyphs.dropWhile blank).reverse.dropWhile blank).reverse)

/-- The first word of a text, if there is one: what stands before the next blank, once the leading
blanks are dropped. -/
def firstWord? (t : Text) : Option Text :=
  let blank := fun g : Glyph => Guwen.isBlank g.reading
  match t.glyphs.dropWhile blank with
  | [] => none
  | gs => some (ofGlyphs (gs.takeWhile fun g => !blank g))

end Text

end Guwen
