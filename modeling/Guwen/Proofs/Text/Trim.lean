/-
**Trimming a text, and its first word.**

Blanks are characters, so what is trimmed off a text are whole characters at its two ends, whatever
stray bytes stand between. Blanks added at the ends change neither the trimmed text nor the first
word, and so the pieces of a text can be trimmed without trimming the text first.

* `Text.ofGlyphs_glyphs` — a text is written by its glyphs.
* **`Text.exists_trim`** — a text is its trimmed form between blanks.
* `Text.trim_eq_nil_iff`, `Text.firstWord?_eq_none_iff` — only blank texts leave nothing.
* `Text.trim_between`, `Text.firstWord?_between` — blanks at the ends do not count.
* **`Text.map_trim_splitOn_trim`** — trimming a text first does not change its trimmed pieces.
-/
import Guwen.Proofs.Text.Encoding
import Guwen.Proofs.Text.Split
import Guwen.Text.Blank
import Mathlib.Data.List.DropRight

namespace Guwen

namespace Text

/-! ### A text is written by its glyphs -/

theorem toUInt8_of_eq {n : Nat} {a : UInt8} (same : n = a.toNat) : n.toUInt8 = a := by
  rw [same]
  exact UInt8.ofNat_toNat

theorem toNat_of_continuation? {b : UInt8} {y : Nat} (read : continuation? b = some y) :
    0x80 + y = b.toNat ∧ y < 64 := by
  unfold continuation? at read
  split at read
  · have same := Option.some.inj read
    omega
  · cases read

theorem toNat_of_scalar? {least n : Nat} {c : Char} (read : scalar? least n = some c) :
    c.toNat = n := by
  unfold scalar? at read
  split at read
  · rename_i valid
    cases read
    rw [Char.ofNat, dif_pos valid.2]
    rfl
  · cases read

section Bytes

variable {a : UInt8} {t : Text} {c : Char} {more : Nat}

theorem encode_of_pair? (read : pair? a t = some (c, more)) : encode c = a :: t.take more := by
  have long := (pair?_bounds read).1
  unfold pair? at read
  split at read
  · split at read
    · obtain ⟨y, second, read⟩ := Option.bind_eq_some_iff.mp read
      obtain ⟨d, known, read⟩ := Option.bind_eq_some_iff.mp read
      cases read
      have number := toNat_of_scalar? known
      obtain ⟨b_eq, y_lt⟩ := toNat_of_continuation? second
      rw [encode, if_neg (by omega), if_pos (by omega), toUInt8_of_eq (a := a) (by omega),
        show 0x80 + c.toNat % 64 = 0x80 + y by omega, toUInt8_of_eq b_eq]
      rfl
    · cases read
  · cases read

theorem encode_of_triple? (read : triple? a t = some (c, more)) : encode c = a :: t.take more := by
  have long := (triple?_bounds read).1
  unfold triple? at read
  split at read
  · split at read
    · obtain ⟨y, second, read⟩ := Option.bind_eq_some_iff.mp read
      obtain ⟨z, third, read⟩ := Option.bind_eq_some_iff.mp read
      obtain ⟨d, known, read⟩ := Option.bind_eq_some_iff.mp read
      cases read
      have number := toNat_of_scalar? known
      obtain ⟨b_eq, y_lt⟩ := toNat_of_continuation? second
      obtain ⟨b_eq', z_lt⟩ := toNat_of_continuation? third
      rw [encode, if_neg (by omega), if_neg (by omega), if_pos (by omega),
        toUInt8_of_eq (a := a) (by omega), show 0x80 + c.toNat / 64 % 64 = 0x80 + y by omega,
        show 0x80 + c.toNat % 64 = 0x80 + z by omega, toUInt8_of_eq b_eq, toUInt8_of_eq b_eq']
      rfl
    · cases read
  · cases read

theorem encode_of_quad? (read : quad? a t = some (c, more)) : encode c = a :: t.take more := by
  have long := (quad?_bounds read).1
  unfold quad? at read
  split at read
  · split at read
    · obtain ⟨y, second, read⟩ := Option.bind_eq_some_iff.mp read
      obtain ⟨z, third, read⟩ := Option.bind_eq_some_iff.mp read
      obtain ⟨w, fourth, read⟩ := Option.bind_eq_some_iff.mp read
      obtain ⟨d, known, read⟩ := Option.bind_eq_some_iff.mp read
      cases read
      have number := toNat_of_scalar? known
      obtain ⟨b_eq, y_lt⟩ := toNat_of_continuation? second
      obtain ⟨b_eq', z_lt⟩ := toNat_of_continuation? third
      obtain ⟨b_eq'', w_lt⟩ := toNat_of_continuation? fourth
      rw [encode, if_neg (by omega), if_neg (by omega), if_neg (by omega),
        toUInt8_of_eq (a := a) (by omega), show 0x80 + c.toNat / 4096 % 64 = 0x80 + y by omega,
        show 0x80 + c.toNat / 64 % 64 = 0x80 + z by omega,
        show 0x80 + c.toNat % 64 = 0x80 + w by omega, toUInt8_of_eq b_eq, toUInt8_of_eq b_eq',
        toUInt8_of_eq b_eq'']
      rfl
    · cases read
  · cases read

/-- **A glyph is written by the bytes that it was read from.** -/
theorem bytes_lead (a : UInt8) (t : Text) : (lead a t).1.bytes = a :: t.take (lead a t).2 := by
  by_cases ascii : a.toNat < 0x80
  · have number : (Char.ofNat a.toNat).toNat = a.toNat := by
      rw [Char.ofNat, dif_pos (.inl (by omega))]
      rfl
    rw [lead, if_pos ascii]
    show encode (Char.ofNat a.toNat) = [a]
    rw [encode, number, if_pos ascii, toUInt8_of_eq rfl]
  · cases read : pair? a t <|> triple? a t <|> quad? a t with
    | none =>
      rw [lead, if_neg ascii, read]
      rfl
    | some both =>
      obtain ⟨c, more⟩ := both
      rw [lead_of_ge (Nat.not_lt.mp ascii) read]
      show encode c = a :: t.take more
      cases pair : pair? a t with
      | some found =>
        rw [pair] at read
        cases read
        exact encode_of_pair? pair
      | none =>
        cases triple : triple? a t with
        | some found =>
          rw [pair, triple] at read
          cases read
          exact encode_of_triple? triple
        | none =>
          rw [pair, triple] at read
          exact encode_of_quad? read

end Bytes

theorem ofGlyphs_glyphsAfter (pending : Nat) (t : Text) :
    ofGlyphs (glyphsAfter pending t) = t.drop pending := by
  induction t generalizing pending with
  | nil => rw [glyphsAfter, List.drop_nil]; rfl
  | cons a t ih =>
    cases pending with
    | succ pending => exact ih pending
    | zero =>
      show (lead a t).1.bytes ++ ofGlyphs (glyphsAfter (lead a t).2 t) = a :: t
      rw [bytes_lead, ih, List.cons_append, List.take_append_drop]

/-- **A text is written by its glyphs.** -/
theorem ofGlyphs_glyphs (t : Text) : ofGlyphs t.glyphs = t := ofGlyphs_glyphsAfter 0 t

theorem glyphs_ofChars_append (cs : List Char) (t : Text) :
    glyphs (ofChars cs ++ t) = cs.map .char ++ glyphs t := by
  induction cs with
  | nil => rfl
  | cons c cs ih =>
    show glyphs (encode c ++ ofChars cs ++ t) = _
    rw [List.append_assoc, glyphs_encode_append, ih]
    rfl

theorem glyphs_append_ofChars (t : Text) (cs : List Char) :
    glyphs (t ++ ofChars cs) = glyphs t ++ cs.map .char := by
  cases cs with
  | nil => rw [show ofChars [] = [] from rfl, List.append_nil, List.map_nil, List.append_nil]
  | cons c cs =>
    obtain ⟨a, more, bytes, apart⟩ := continuation?_encode c
    have whole : ofChars (c :: cs) = a :: (more ++ ofChars cs) := by
      show encode c ++ ofChars cs = _
      rw [bytes, List.cons_append]
    have read := glyphs_ofChars_append (c :: cs) []
    rw [List.append_nil, show glyphs [] = [] from rfl, List.append_nil] at read
    rw [← read, whole]
    exact glyphsAfter_cut t _ apart (Nat.zero_le _)

end Text

/-! ### Blanks -/

/-- A glyph that is white space. -/
def Glyph.isBlank (g : Glyph) : Bool := Guwen.isBlank g.reading

/-- White space is made of characters: no stray byte is blank. -/
theorem exists_chars_of_blank {gs : List Glyph} (blank : ∀ g ∈ gs, g.isBlank = true) :
    ∃ cs : List Char, (∀ c ∈ cs, isBlank c = true) ∧ gs = cs.map .char := by
  induction gs with
  | nil => exact ⟨[], fun _ member => absurd member List.not_mem_nil, rfl⟩
  | cons g gs ih =>
    obtain ⟨first, later⟩ := List.forall_mem_cons.mp blank
    obtain ⟨cs, blanks, rfl⟩ := ih later
    cases g with
    | char c => exact ⟨c :: cs, List.forall_mem_cons.mpr ⟨first, blanks⟩, rfl⟩
    | stray b => exact absurd first (show ¬ Guwen.isBlank (Char.ofNat 0xFFFD) = true by decide)

theorem isBlank_of_mem_map {cs : List Char} (blank : ∀ c ∈ cs, isBlank c = true) :
    ∀ g ∈ cs.map Glyph.char, g.isBlank = true := by
  intro g member
  obtain ⟨c, inside, rfl⟩ := List.mem_map.mp member
  exact blank c inside

namespace Text

theorem trim_eq (t : Text) :
    t.trim = ofGlyphs ((t.glyphs.dropWhile Glyph.isBlank).rdropWhile Glyph.isBlank) := rfl

theorem isBlank_iff (t : Text) : t.isBlank = true ↔ ∀ g ∈ t.glyphs, g.isBlank = true := by
  rw [isBlank, chars, List.all_map, List.all_eq_true]
  rfl

theorem ofGlyphs_map_char (cs : List Char) : ofGlyphs (cs.map .char) = ofChars cs := by
  rw [ofGlyphs, List.flatMap_map]
  rfl

/-- **A text is its trimmed form between blanks.** -/
theorem exists_trim (t : Text) :
    ∃ before behind : List Char, (∀ c ∈ before, Guwen.isBlank c = true) ∧
      (∀ c ∈ behind, Guwen.isBlank c = true) ∧
      t = ofChars before ++ (t.trim ++ ofChars behind) := by
  have first : ∀ g ∈ t.glyphs.takeWhile Glyph.isBlank, g.isBlank = true :=
    fun g member => List.mem_takeWhile_imp member
  have last : ∀ g ∈ (t.glyphs.dropWhile Glyph.isBlank).rtakeWhile Glyph.isBlank,
      g.isBlank = true := fun g member => List.mem_rtakeWhile_imp member
  obtain ⟨before, blank, front⟩ := exists_chars_of_blank first
  obtain ⟨behind, blank', back⟩ := exists_chars_of_blank last
  refine ⟨before, behind, blank, blank', ?_⟩
  have split : t.glyphs = t.glyphs.takeWhile Glyph.isBlank ++
      ((t.glyphs.dropWhile Glyph.isBlank).rdropWhile Glyph.isBlank ++
        (t.glyphs.dropWhile Glyph.isBlank).rtakeWhile Glyph.isBlank) := by
    rw [List.rdropWhile_append_rtakeWhile, List.takeWhile_append_dropWhile]
  rw [front, back] at split
  have whole := congrArg ofGlyphs split
  rw [ofGlyphs_glyphs, ofGlyphs, List.flatMap_append, List.flatMap_append] at whole
  rw [← ofGlyphs_map_char, ← ofGlyphs_map_char]
  exact whole

theorem bytes_ne_nil (g : Glyph) : g.bytes ≠ [] := by
  cases g with
  | char c =>
    obtain ⟨a, more, bytes, -⟩ := continuation?_encode c
    show encode c ≠ []
    rw [bytes]
    exact List.cons_ne_nil a more
  | stray b => exact List.cons_ne_nil b []

/-- Only a blank text leaves nothing when it is trimmed. -/
theorem trim_eq_nil_iff (t : Text) : t.trim = [] ↔ t.isBlank = true := by
  rw [trim_eq, isBlank_iff, ofGlyphs, List.flatMap_eq_nil_iff]
  constructor
  · intro none
    have empty : (t.glyphs.dropWhile Glyph.isBlank).rdropWhile Glyph.isBlank = [] :=
      List.eq_nil_iff_forall_not_mem.mpr fun g member => bytes_ne_nil g (none g member)
    rw [List.rdropWhile_eq_nil_iff] at empty
    intro g member
    rw [← List.takeWhile_append_dropWhile (p := Glyph.isBlank) (l := t.glyphs)] at member
    rcases List.mem_append.mp member with front | back
    · exact List.mem_takeWhile_imp front
    · exact empty g back
  · intro blank g member
    rw [List.dropWhile_eq_nil_iff.mpr blank, List.rdropWhile_nil] at member
    exact absurd member List.not_mem_nil

theorem dropWhile_eq_nil_iff_isBlank (t : Text) :
    t.glyphs.dropWhile Glyph.isBlank = [] ↔ t.isBlank = true := by
  rw [List.dropWhile_eq_nil_iff, isBlank_iff]

/-- The first word of a text that is not blank. -/
theorem firstWord?_of_not_blank {t : Text} (given : ¬ t.isBlank = true) :
    t.firstWord? =
      some (ofGlyphs ((t.glyphs.dropWhile Glyph.isBlank).takeWhile fun g => !g.isBlank)) := by
  unfold firstWord?
  dsimp only
  split
  · rename_i none
    exact absurd ((dropWhile_eq_nil_iff_isBlank t).mp none) given
  · rfl

/-- Only a blank text has no first word. -/
theorem firstWord?_eq_none_iff (t : Text) : t.firstWord? = none ↔ t.isBlank = true := by
  constructor
  · intro absent
    by_cases blank : t.isBlank = true
    · exact blank
    · rw [firstWord?_of_not_blank blank] at absent
      cases absent
  · intro blank
    unfold firstWord?
    dsimp only
    split
    · rfl
    · rename_i some
      exact absurd ((dropWhile_eq_nil_iff_isBlank t).mpr blank) some

/-! ### Blanks at the ends do not count -/

section Between

variable {before behind : List Char} (blank : ∀ c ∈ before, Guwen.isBlank c = true)
  (blank' : ∀ c ∈ behind, Guwen.isBlank c = true) (t : Text)

include blank

theorem dropWhile_between (given : ¬ t.isBlank = true) :
    (glyphs (ofChars before ++ (t ++ ofChars behind))).dropWhile Glyph.isBlank =
      t.glyphs.dropWhile Glyph.isBlank ++ behind.map .char := by
  rw [glyphs_ofChars_append, glyphs_append_ofChars,
    List.dropWhile_append_of_pos (isBlank_of_mem_map blank), List.dropWhile_append, if_neg]
  rwa [List.isEmpty_iff, dropWhile_eq_nil_iff_isBlank]

include blank'

theorem isBlank_between :
    isBlank (ofChars before ++ (t ++ ofChars behind)) = t.isBlank := by
  rw [isBlank, chars_ofChars_append, chars_append_ofChars, List.all_append, List.all_append,
    List.all_eq_true.mpr blank, List.all_eq_true.mpr blank', Bool.true_and, Bool.and_true]
  rfl

/-- **Blanks at the ends are trimmed off.** -/
theorem trim_between : trim (ofChars before ++ (t ++ ofChars behind)) = t.trim := by
  by_cases given : t.isBlank = true
  · rw [(trim_eq_nil_iff t).mpr given, trim_eq_nil_iff, isBlank_between blank blank', given]
  · have reversed : ∀ g ∈ (behind.map Glyph.char).reverse, g.isBlank = true :=
      fun g member => isBlank_of_mem_map blank' g (List.mem_reverse.mp member)
    rw [trim_eq, dropWhile_between blank t given, trim_eq, List.rdropWhile, List.reverse_append,
      List.dropWhile_append_of_pos reversed]
    rfl

/-- **Blanks at the ends do not change the first word.** -/
theorem firstWord?_between :
    firstWord? (ofChars before ++ (t ++ ofChars behind)) = t.firstWord? := by
  by_cases given : t.isBlank = true
  · rw [(firstWord?_eq_none_iff t).mpr given, firstWord?_eq_none_iff,
      isBlank_between blank blank', given]
  · have given' : ¬ isBlank (ofChars before ++ (t ++ ofChars behind)) = true := by
      rwa [isBlank_between blank blank']
    have stops : (behind.map Glyph.char).takeWhile (fun g => !g.isBlank) = [] := by
      cases behind with
      | nil => rfl
      | cons c _ =>
        exact List.takeWhile_cons_of_neg (by simp [Glyph.isBlank, Glyph.reading, blank'])
    rw [firstWord?_of_not_blank given, firstWord?_of_not_blank given',
      dropWhile_between blank t given, List.takeWhile_append, stops]
    split
    · rename_i whole
      rw [List.append_nil, (List.takeWhile_prefix _).eq_of_length whole]
    · rfl

end Between

/-! ### Trimmed pieces -/

/-- White space holds no byte of ASCII that is not blank itself. -/
theorem not_mem_of_blank {mark : UInt8} (ascii : mark.toNat < 0x80)
    (other : Guwen.isBlank (Char.ofNat mark.toNat) = false) {cs : List Char}
    (blank : ∀ c ∈ cs, Guwen.isBlank c = true) : mark ∉ ofChars cs := by
  intro member
  rw [blank _ (mem_of_mem_ofChars ascii member)] at other
  cases other

/-- Blanks at the ends of a text change none of its trimmed pieces, nor the first word of the first
piece. -/
theorem splitOn_between {mark : UInt8} {before behind : List Char}
    (free : mark ∉ ofChars before) (free' : mark ∉ ofChars behind)
    (blank : ∀ c ∈ before, Guwen.isBlank c = true)
    (blank' : ∀ c ∈ behind, Guwen.isBlank c = true) (t : Text) :
    (List.splitOn mark (ofChars before ++ (t ++ ofChars behind))).map trim =
        (List.splitOn mark t).map trim ∧
      (List.splitOn mark (ofChars before ++ (t ++ ofChars behind))).head?.bind firstWord? =
        (List.splitOn mark t).head?.bind firstWord? := by
  have none : ∀ c ∈ ([] : List Char), Guwen.isBlank c = true :=
    fun _ member => absurd member List.not_mem_nil
  have left : ∀ piece, trim (ofChars before ++ piece) = trim piece ∧
      firstWord? (ofChars before ++ piece) = firstWord? piece := by
    intro piece
    have trimmed := trim_between blank none piece
    have word := firstWord?_between blank none piece
    rw [show ofChars [] = [] from rfl, List.append_nil] at trimmed word
    exact ⟨trimmed, word⟩
  have right : ∀ piece, trim (piece ++ ofChars behind) = trim piece ∧
      firstWord? (piece ++ ofChars behind) = firstWord? piece :=
    fun piece => ⟨trim_between none blank' piece, firstWord?_between none blank' piece⟩
  obtain ⟨piece, pieces, whole, added⟩ := exists_splitOn_left free (t ++ ofChars behind)
  obtain ⟨firsts, last, plain, closed⟩ := exists_splitOn_right free' t
  rw [added, List.map_cons, (left piece).1, List.head?_cons, Option.bind_some, (left piece).2]
  rw [whole] at closed
  -- The last piece is also the first one when there is only one.
  cases firsts with
  | nil =>
    obtain ⟨rfl, rfl⟩ := List.cons.inj closed
    rw [plain, List.nil_append, List.map_singleton, List.head?_cons, Option.bind_some,
      (right last).1, (right last).2]
    exact ⟨rfl, rfl⟩
  | cons first firsts =>
    rw [List.cons_append] at closed
    obtain ⟨rfl, rfl⟩ := List.cons.inj closed
    rw [plain, List.cons_append, List.map_cons, List.map_append, List.map_append,
      List.map_singleton, List.map_singleton, (right last).1]
    exact ⟨rfl, rfl⟩

/-- **Trimming a text first does not change its trimmed pieces,** nor the first word of the first
piece. -/
theorem map_trim_splitOn_trim {mark : UInt8} (ascii : mark.toNat < 0x80)
    (other : Guwen.isBlank (Char.ofNat mark.toNat) = false) (t : Text) :
    (List.splitOn mark t.trim).map trim = (List.splitOn mark t).map trim ∧
      (List.splitOn mark t.trim).head?.bind firstWord? =
        (List.splitOn mark t).head?.bind firstWord? := by
  obtain ⟨before, behind, blank, blank', whole⟩ := t.exists_trim
  have same := splitOn_between (not_mem_of_blank ascii other blank)
    (not_mem_of_blank ascii other blank') blank blank' t.trim
  rw [← whole] at same
  exact ⟨same.1.symm, same.2.symm⟩

end Text

end Guwen
