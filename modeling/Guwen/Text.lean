/-
**Texts: strings of bytes, read as UTF-8.**

A `Text` is any string of bytes, well formed or not. It is read glyph by glyph: a glyph is a
character, or a stray byte that belongs to no well-formed UTF-8 sequence.

* `Text.glyphs` reads a text; nothing is lost, as `Text.ofGlyphs` writes the same bytes again.
* `Text.chars` reads a text as characters, a stray byte as one U+FFFD.
* `Text.ofChars` and `Text.ofString` write characters; string literals are texts by coercion.
-/

namespace Guwen

/-- **A string of bytes.** -/
abbrev Text := List UInt8

/-- **What one step of reading a text yields:** a character, or a byte that starts none. -/
inductive Glyph where
  | char (c : Char)
  | stray (b : UInt8)
deriving DecidableEq, Repr

namespace Text

/-! ### Writing characters -/

/-- The UTF-8 sequence of a character. -/
def encode (c : Char) : Text :=
  let n := c.toNat
  if n < 0x80 then [n.toUInt8]
  else if n < 0x800 then [(0xC0 + n / 64).toUInt8, (0x80 + n % 64).toUInt8]
  else if n < 0x10000 then
    [(0xE0 + n / 4096).toUInt8, (0x80 + n / 64 % 64).toUInt8, (0x80 + n % 64).toUInt8]
  else
    [(0xF0 + n / 262144).toUInt8, (0x80 + n / 4096 % 64).toUInt8, (0x80 + n / 64 % 64).toUInt8,
      (0x80 + n % 64).toUInt8]

/-- The bytes of characters, in order. -/
def ofChars (cs : List Char) : Text := cs.flatMap encode

/-- The bytes of a string. -/
def ofString (s : String) : Text := ofChars s.toList

instance : Coe String Text := ⟨ofString⟩

/-! ### Reading glyphs -/

/-- The six bits that a continuation byte carries. -/
def continuation? (b : UInt8) : Option Nat :=
  if 0x80 ≤ b.toNat ∧ b.toNat < 0xC0 then some (b.toNat - 0x80) else none

/-- The character numbered `n`, unless `n` is below `least` (an overlong form), a surrogate or out
of range. -/
def scalar? (least n : Nat) : Option Char :=
  if least ≤ n ∧ n.isValidChar then some (Char.ofNat n) else none

/-- The two-byte sequence that starts with `a`: its character and how many bytes follow `a`. -/
def pair? (a : UInt8) : Text → Option (Char × Nat)
  | b :: _ =>
    if 0xC0 ≤ a.toNat ∧ a.toNat < 0xE0 then do
      let y ← continuation? b
      let c ← scalar? 0x80 ((a.toNat - 0xC0) * 64 + y)
      return (c, 1)
    else none
  | _ => none

/-- The three-byte sequence that starts with `a`. -/
def triple? (a : UInt8) : Text → Option (Char × Nat)
  | b :: b' :: _ =>
    if 0xE0 ≤ a.toNat ∧ a.toNat < 0xF0 then do
      let y ← continuation? b
      let z ← continuation? b'
      let c ← scalar? 0x800 ((a.toNat - 0xE0) * 4096 + y * 64 + z)
      return (c, 2)
    else none
  | _ => none

/-- The four-byte sequence that starts with `a`. -/
def quad? (a : UInt8) : Text → Option (Char × Nat)
  | b :: b' :: b'' :: _ =>
    if 0xF0 ≤ a.toNat ∧ a.toNat < 0xF8 then do
      let y ← continuation? b
      let z ← continuation? b'
      let w ← continuation? b''
      let c ← scalar? 0x10000 ((a.toNat - 0xF0) * 262144 + y * 4096 + z * 64 + w)
      return (c, 3)
    else none
  | _ => none

/-- The glyph that starts with `a` when `t` follows, and how many bytes of `t` belong to it. -/
def lead (a : UInt8) (t : Text) : Glyph × Nat :=
  if a.toNat < 0x80 then (.char (Char.ofNat a.toNat), 0)
  else match pair? a t <|> triple? a t <|> quad? a t with
  | some (c, more) => (.char c, more)
  | none => (.stray a, 0)

/-- The glyphs of a text whose first `pending` bytes belong to a glyph already read. -/
def glyphsAfter : Nat → Text → List Glyph
  | _, [] => []
  | pending + 1, _ :: t => glyphsAfter pending t
  | 0, a :: t => (lead a t).1 :: glyphsAfter (lead a t).2 t

/-- **The glyphs of a text.** Each well-formed sequence is one character; a byte that starts none is
stray, and reading goes on at the next byte. -/
def glyphs (t : Text) : List Glyph := glyphsAfter 0 t

end Text

namespace Glyph

/-- The bytes a glyph was read from. -/
def bytes : Glyph → Text
  | .char c => Text.encode c
  | .stray b => [b]

/-- A glyph as a character: a stray byte counts as the replacement character. -/
def reading : Glyph → Char
  | .char c => c
  | .stray _ => Char.ofNat 0xFFFD

/-- A glyph that is a character, not a stray byte. -/
def isChar : Glyph → Bool
  | .char _ => true
  | .stray _ => false

end Glyph

namespace Text

/-- The bytes of glyphs, in order. -/
def ofGlyphs (gs : List Glyph) : Text := gs.flatMap Glyph.bytes

/-- **The characters of a text,** a stray byte as one U+FFFD. -/
def chars (t : Text) : List Char := t.glyphs.map Glyph.reading

/-- The string a text spells, when all of it is well formed. -/
def toString? (t : Text) : Option String :=
  if t.glyphs.all Glyph.isChar then some (String.ofList t.chars) else none

/-! ### Numbers -/

/-- A number in decimal digits. -/
def ofNat (n : Nat) : Text := ofChars (Nat.toDigits 10 n)

/-- A whole number in decimal digits, behind a dash if it is negative. -/
def ofInt : Int → Text
  | .ofNat n => ofNat n
  | .negSucc n => "-" ++ ofNat (n + 1)

/-- The last `width` hexadecimal digits of `n`, in lower case. -/
def hex : Nat → Nat → Text
  | 0, _ => []
  | width + 1, n => hex width (n / 16) ++ ofChars [Nat.digitChar (n % 16)]

/-! ### Pieces -/

/-- Texts one after another, with `separator` between each two. -/
def join (separator : Text) (pieces : List Text) : Text := separator.intercalate pieces

/-- A text `n` times over. -/
def replicate (n : Nat) (t : Text) : Text := (List.replicate n t).flatten

end Text

end Guwen
