/-
**Numeral glyphs side by side, and what parts them.**

The scan gives every numeral glyph a token of its own, also where a keyword starts with the glyph,
as 一數 does: only a character that no keyword holds behind its first one follows. White space and
comments that end with their line give nothing, but move the place.

* `Lexicon.Inner` — a character that a keyword holds behind its first one.
* `Token.StandsOut` — a character that no keyword is made of or goes on with, as every glyph is.
* `Token.Separator` — white space and comments, each of which ends with its line.
* `Token.glyphTokens` — one number for each glyph, from a place on.
* **`Token.scan_glyphs`**, **`Token.scan_separator`** — what glyphs and separators give.
* **`Token.tokenize_print`**, **`Token.tokenize_parted`** — the tokens of 云 before a numeral, whole
  or parted.
-/
import Guwen.Proofs.Numeral.Positional
import Guwen.Proofs.Token.Positions
import Guwen.Proofs.Token.Written

namespace Guwen

namespace Lexicon

/-! ### Where keywords go on -/

/-- **A character that a keyword holds behind its first one.** -/
def Inner (d : Char) : Prop := ∃ entry ∈ entries, d ∈ entry.1.toList.tail

theorem kind?_of_not_inner {c d : Char} (other : ¬ Inner d) (cs : List Char) :
    kind? (c :: d :: cs) = none := by
  refine Option.eq_none_iff_forall_ne_some.mpr fun kind found => other ?_
  obtain ⟨word, entry, spelt⟩ := mem_entries_of_kind? found
  exact ⟨_, entry, by rw [spelt]; exact List.mem_cons_self⟩

/-- **A character stands alone** when no keyword goes on with what follows it. -/
theorem longest?_alone (c : Char) {cs : List Char} (ends : ∀ d ∈ cs.head?, ¬ Inner d) :
    longest? (c :: cs) = (kind? [c]).map fun kind => ([c], kind) := by
  have each : ∀ length, longestUpTo? (c :: cs) (length + 1) =
      (kind? [c]).map fun kind => ([c], kind) := by
    intro length
    induction length with
    | zero =>
      rw [longestUpTo?, List.take_succ_cons, List.take_zero]
      cases kind? [c] <;> rfl
    | succ length ih =>
      rw [longestUpTo?, ih]
      cases cs with
      | nil =>
        rw [List.take_succ_cons, List.take_nil]
        cases kind? [c] <;> rfl
      | cons d cs =>
        rw [List.take_succ_cons, List.take_succ_cons, kind?_of_not_inner (ends d rfl)]
  exact each 3

/-- Keywords hold Han characters only. -/
theorem isHan_of_inner {d : Char} (inner : Inner d) : isHan d = true := by
  have each : entries.all (fun entry => entry.1.toList.tail.all isHan) = true := by decide
  obtain ⟨entry, member, inside⟩ := inner
  exact List.all_eq_true.mp (List.all_eq_true.mp each entry member) d inside

end Lexicon

namespace Token

/-! ### Glyphs -/

/-- **A character that is told from all others of a source:** no keyword is made of it or goes on
with it. -/
structure StandsOut (c : Char) : Prop where
  han : isHan c = true
  free : Lexicon.kind? [c] = none
  outer : ¬ Lexicon.Inner c
  no_feed : c ≠ '\n'
  no_digit : isDigit c = false

theorem standsOut_of_glyph {c : Char} (glyph : Numeral.IsGlyph c) : StandsOut c := by
  have each : Numeral.table.all (fun c => decide (isHan c = true ∧ Lexicon.kind? [c] = none ∧
      (¬ ∃ entry ∈ Lexicon.entries, c ∈ entry.1.toList.tail) ∧ c ≠ '\n' ∧
      isDigit c = false)) = true := by decide +kernel
  have found := List.all_eq_true.mp each c (Numeral.mem_table_of_isGlyph glyph)
  obtain ⟨han, free, outer, no_feed, no_digit⟩ := of_decide_eq_true found
  exact ⟨han, free, outer, no_feed, no_digit⟩

/-- **One number for each glyph,** from a place on. -/
def glyphTokens (p : Position) : List Char → List Token
  | [] => []
  | c :: cs => ⟨.number, Text.ofChars [c], p⟩ :: glyphTokens (p.after c) cs

theorem number_of_mem_glyphTokens {p : Position} {g : List Char} {t : Token}
    (member : t ∈ glyphTokens p g) : t.kind = .number := by
  induction g generalizing p with
  | nil => cases member
  | cons c g ih =>
    rcases List.mem_cons.mp member with rfl | later
    · rfl
    · exact ih later

theorem lexemes_glyphTokens (p : Position) (g : List Char) :
    (glyphTokens p g).flatMap Token.lexeme = Text.ofChars g := by
  induction g generalizing p with
  | nil => rfl
  | cons c g ih =>
    rw [glyphTokens, List.flatMap_cons, ih]
    simp [Text.ofChars]

/-- A Han character is a piece of its own when no keyword goes on with what follows it. -/
theorem munch_alone {c : Char} (han : isHan c = true) {cs : List Char}
    (ends : ∀ d ∈ cs.head?, ¬ Lexicon.Inner d) :
    munch c cs = .word ((Lexicon.kind? [c]).getD
      (if Numeral.isNumeral [c] then .number else .identifier)) [c] := by
  rw [munch_of_han han, munchHan, Lexicon.longest?_alone c ends]
  cases Lexicon.kind? [c] <;> rfl

/-- **Glyphs give a number each,** when no keyword goes on with what follows them. -/
theorem scan_glyphs {g : List Char} (glyphs : ∀ c ∈ g, Numeral.IsGlyph c) {rest : List Char}
    (ends : ∀ d ∈ rest.head?, ¬ Lexicon.Inner d) (p : Position) :
    scanAfter 0 p (g ++ rest) = glyphTokens p g ++ scanAfter 0 (p.past g) rest := by
  induction g generalizing p with
  | nil => rfl
  | cons c g ih =>
    obtain ⟨first, others⟩ := List.forall_mem_cons.mp glyphs
    have alone := standsOut_of_glyph first
    have next : ∀ d ∈ (g ++ rest).head?, ¬ Lexicon.Inner d := by
      cases g with
      | nil => exact ends
      | cons d g =>
        rintro _ ⟨⟩
        exact (standsOut_of_glyph (others d List.mem_cons_self)).outer
    have taken : munch c (g ++ rest) = .word .number [c] := by
      rw [munch_alone alone.han next, alone.free,
        if_pos ((Numeral.isNumeral_singleton_iff c).mpr first)]
      rfl
    rw [List.cons_append, scanAfter, taken]
    show _ :: scanAfter 0 (p.after c) (g ++ rest) = _
    rw [ih others]
    rfl

theorem scan_lastGlyphs {g : List Char} (glyphs : ∀ c ∈ g, Numeral.IsGlyph c) (p : Position) :
    scanAfter 0 p g = glyphTokens p g ++ [⟨.eof, [], p.past g⟩] := by
  have run := scan_glyphs glyphs (show ∀ d ∈ [].head?, ¬ Lexicon.Inner d from nofun) p
  rwa [List.append_nil] at run

/-! ### Separators -/

/-- **White space and comments,** each of which ends with its line. -/
inductive Separator : List Char → Prop where
  | nil : Separator []
  | blank {c : Char} {w : List Char} (blank : isBlank c = true) (more : Separator w) :
      Separator (c :: w)
  | comment {body w : List Char} (one_line : '\n' ∉ body) (more : Separator w) :
      Separator ('/' :: '/' :: (body ++ '\n' :: w))

theorem not_han_of_isBlank {c : Char} (blank : isBlank c = true) : ¬ isHan c = true := by
  intro han
  have range := range_of_han han
  simp only [isBlank, CharSet.contains, CharSet.blank, List.any_cons, List.any_nil, Bool.or_false,
    Bool.or_eq_true, Bool.and_eq_true, decide_eq_true_eq] at blank
  omega

/-- No keyword goes on with a separator. -/
theorem Separator.head_not_inner {w : List Char} (separator : Separator w) :
    ∀ d ∈ w.head?, ¬ Lexicon.Inner d := by
  cases separator with
  | nil => exact fun d member => nomatch member
  | blank blank _ =>
    rintro _ ⟨⟩ inner
    exact not_han_of_isBlank blank (Lexicon.isHan_of_inner inner)
  | comment _ _ =>
    rintro _ ⟨⟩ inner
    exact absurd (Lexicon.isHan_of_inner inner) (by decide)

theorem scan_blank {c : Char} (blank : isBlank c = true) (p : Position) (cs : List Char) :
    scanAfter 0 p (c :: cs) = scanAfter 0 (p.after c) cs := by
  rw [scanAfter, munch, if_pos blank]
  rfl

/-- A comment takes the rest of its line. -/
theorem scan_comment {body : List Char} (one_line : '\n' ∉ body) (p : Position) (rest : List Char) :
    scanAfter 0 p ('/' :: '/' :: (body ++ '\n' :: rest)) =
      scanAfter 0 (p.past ('/' :: '/' :: body)) ('\n' :: rest) := by
  have line : ('/' :: (body ++ '\n' :: rest)).takeWhile (· != '\n') = '/' :: body := by
    have inside : ∀ c ∈ '/' :: body, (c != '\n') = true := by
      intro c member
      refine bne_iff_ne.mpr ?_
      rintro rfl
      rcases List.mem_cons.mp member with slash | later
      · cases slash
      · exact one_line later
    rw [← List.cons_append, List.takeWhile_append_of_pos inside,
      List.takeWhile_cons_of_neg (by decide), List.append_nil]
  have slashes : ('/' == '/' && ('/' :: (body ++ '\n' :: rest)).head? == some '/') = true := rfl
  have taken : munch '/' ('/' :: (body ++ '\n' :: rest)) = .skip (body.length + 1) := by
    rw [munch, if_neg (by decide), if_pos slashes, line, List.length_cons]
  rw [scanAfter, taken]
  exact scanAfter_append (p.after '/') ('/' :: body) ('\n' :: rest)

/-- **A separator gives nothing,** and the scan goes on behind it. -/
theorem scan_separator {w : List Char} (separator : Separator w) (p : Position)
    (rest : List Char) : scanAfter 0 p (w ++ rest) = scanAfter 0 (p.past w) rest := by
  induction separator generalizing p with
  | nil => rfl
  | blank blank more ih =>
    rw [List.cons_append, scan_blank blank, ih]
    rfl
  | @comment body w one_line more ih =>
    have whole : '/' :: '/' :: (body ++ '\n' :: w) ++ rest =
        '/' :: '/' :: (body ++ '\n' :: (w ++ rest)) := by simp
    have behind : p.past ('/' :: '/' :: (body ++ '\n' :: w)) =
        ((p.past ('/' :: '/' :: body)).after '\n').past w := by
      rw [← List.cons_append, ← List.cons_append, Position.past_append]
      rfl
    rw [whole, scan_comment one_line, scan_blank (by decide), ih, behind]

/-! ### A numeral behind 云 -/

/-- The token 云 at the beginning of a source. -/
def printToken : Token := ⟨.print, "云", .start⟩

theorem scan_print {c : Char} (glyph : Numeral.IsGlyph c) (cs : List Char) :
    scanAfter 0 .start ('云' :: c :: cs) = printToken :: scanAfter 0 ⟨1, 2⟩ (c :: cs) := by
  have next : ∀ d ∈ (c :: cs).head?, ¬ Lexicon.Inner d := by
    rintro _ ⟨⟩
    exact (standsOut_of_glyph glyph).outer
  have taken : munch '云' (c :: cs) = .word .print ['云'] := by
    rw [munch_alone (by decide) next, show Lexicon.kind? ['云'] = some .print by decide]
    rfl
  rw [scanAfter, taken]
  rfl

/-- **The tokens of 云 and a numeral:** one for each glyph. -/
theorem tokenize_print {g : List Char} (given : g ≠ []) (glyphs : ∀ c ∈ g, Numeral.IsGlyph c) :
    tokenize ("云" ++ Text.ofChars g) =
      printToken :: (glyphTokens ⟨1, 2⟩ g ++ [⟨.eof, [], Position.past ⟨1, 2⟩ g⟩]) := by
  have read : Text.chars ("云" ++ Text.ofChars g) = '云' :: g := by
    rw [show ("云" : Text) = Text.encode '云' by decide, Text.chars_encode_append,
      Text.chars_ofChars]
  rw [tokenize, scan, read]
  cases g with
  | nil => exact absurd rfl given
  | cons c g =>
    rw [scan_print (glyphs c List.mem_cons_self), scan_lastGlyphs glyphs]

/-- **The tokens of 云 and a numeral that a separator parts:** the same glyphs, the second part
further on. -/
theorem tokenize_parted {g₁ g₂ : List Char} (given : g₁ ≠ [])
    (glyphs₁ : ∀ c ∈ g₁, Numeral.IsGlyph c) (glyphs₂ : ∀ c ∈ g₂, Numeral.IsGlyph c) {w : Text}
    (separator : Separator w.chars) (some_separator : w ≠ []) :
    tokenize ("云" ++ Text.ofChars g₁ ++ w ++ Text.ofChars g₂) =
      printToken :: (glyphTokens ⟨1, 2⟩ g₁ ++
        (glyphTokens (Position.past ⟨1, 2⟩ (g₁ ++ w.chars)) g₂ ++
          [⟨.eof, [], Position.past ⟨1, 2⟩ (g₁ ++ w.chars ++ g₂)⟩])) := by
  have read : Text.chars ("云" ++ Text.ofChars g₁ ++ w ++ Text.ofChars g₂) =
      '云' :: (g₁ ++ (w.chars ++ g₂)) := by
    rw [Text.chars_append_ofChars, show ("云" : Text) = Text.encode '云' by decide,
      List.append_assoc, Text.chars_encode_append, Text.chars_ofChars_append]
    simp
  have ends : ∀ d ∈ (w.chars ++ g₂).head?, ¬ Lexicon.Inner d := by
    have first := separator.head_not_inner
    cases shown : w.chars with
    | nil => exact absurd ((Text.chars_eq_nil_iff w).mp shown) some_separator
    | cons c cs =>
      rw [shown] at first
      exact first
  rw [tokenize, scan, read]
  cases g₁ with
  | nil => exact absurd rfl given
  | cons c g₁ =>
    rw [List.cons_append, scan_print (glyphs₁ c List.mem_cons_self), ← List.cons_append,
      scan_glyphs glyphs₁ ends, scan_separator separator, ← Position.past_append,
      scan_lastGlyphs glyphs₂, Position.past_append _ (c :: g₁ ++ w.chars) g₂]

end Token

end Guwen
