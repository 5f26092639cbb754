/-
**The value of a numeral by the places of its glyphs.**

Glyph by glyph a numeral is read with a pending digit, which the next digit overwrites, and a total.
By places, every scale counts as often as the digit right before it says, and once when no digit is
there or the digit is zero; a digit at the end counts for itself. Both give one number, in whole
numbers and in words of 64 bits.

* `Numeral.IsGlyph` — a character of the table; `Numeral.lookup?` — the table by whole texts.
* `Numeral.positional` — the value of a numeral by places.
* **`Numeral.read?_eq_places`** — reading glyph by glyph computes it.
* `Numeral.Reading.Within` — how far a reading can have grown; `Numeral.within_step` — a glyph adds
  at most 45000 to that.
* `Numeral.met` — all numbers met while a numeral is read; `Numeral.wordValue?` — reading in words.
* **`Numeral.value_by_places`** — which texts are numerals, what they are worth, and that words of
  64 bits never wrap around on the way.
-/
import Guwen.Grammar.Expression
import Guwen.Proofs.Text.Encoding
import Mathlib.Algebra.BigOperators.Group.Finset.Basic

namespace Guwen

namespace Numeral

/-! ### Glyphs -/

/-- **A character of the table.** -/
def IsGlyph (c : Char) : Prop := ∃ v, glyphValue? c = some v

/-- The characters of the table. -/
def table : List Char := "零〇一壹二貳兩三參叁四肆五伍六陸七柒八捌九玖十拾百佰千仟萬".toList

/-- The value that the table has for a whole text. -/
def lookup? (text : Text) : Option Nat :=
  (table.find? fun c => Text.encode c == text).bind glyphValue?

theorem mem_table_of_isGlyph {c : Char} (glyph : IsGlyph c) : c ∈ table := by
  obtain ⟨v, value⟩ := glyph
  unfold glyphValue? at value
  split at value
  all_goals first | decide | cases value

/-- A glyph is worth ten thousand at most. -/
theorem glyphValue?_le {c : Char} {v : Nat} (value : glyphValue? c = some v) : v ≤ 10000 := by
  have each : table.all (fun c => (glyphValue? c).all (· ≤ 10000)) = true := by decide
  have small := List.all_eq_true.mp each c (mem_table_of_isGlyph ⟨v, value⟩)
  rw [value] at small
  exact of_decide_eq_true small

/-- The table has the values of single glyphs. -/
theorem lookup?_encode (c : Char) : lookup? (Text.encode c) = glyphValue? c := by
  unfold lookup?
  cases found : table.find? fun d => Text.encode d == Text.encode c with
  | some d =>
    have same : d = c := Text.encode_inj (by simpa using List.find?_some found)
    rw [same]
    rfl
  | none =>
    cases value : glyphValue? c with
    | none => rfl
    | some v =>
      have missing := List.find?_eq_none.mp found c (mem_table_of_isGlyph ⟨v, value⟩)
      exact absurd (beq_self_eq_true _) missing

/-! ### Reading glyph by glyph -/

theorem read?_append (r : Reading) (front back : List Char) :
    read? r (front ++ back) = (read? r front).bind fun r' => read? r' back := by
  induction front generalizing r with
  | nil => rfl
  | cons c front ih =>
    rw [List.cons_append, read?, read?]
    cases glyphValue? c with
    | none => rfl
    | some v => exact ih (r.step v)

/-- A reading goes through just when every character is a glyph. -/
theorem read?_isSome_iff (r : Reading) (cs : List Char) :
    (∃ r', read? r cs = some r') ↔ ∀ c ∈ cs, IsGlyph c := by
  induction cs generalizing r with
  | nil => exact iff_of_true ⟨r, rfl⟩ fun c member => nomatch member
  | cons c cs ih =>
    rw [List.forall_mem_cons, read?, IsGlyph]
    cases value : glyphValue? c with
    | none => simp
    | some v => simp [ih]

/-! ### Reading by places -/

/-- The value of the glyph at a place, if there is one. -/
def valueAt? (glyphs : List Char) (i : Nat) : Option Nat := glyphs[i]?.bind glyphValue?

/-- **How often a scale at a place counts:** as often as the digit right before it says; once behind
nothing, behind another scale and behind zero. -/
def timesAt (glyphs : List Char) : Nat → Nat
  | 0 => 1
  | i + 1 => match valueAt? glyphs i with
    | some v => if v = 0 ∨ 10 ≤ v then 1 else v
    | none => 1

/-- What the scale at a place adds; a digit there adds nothing. -/
def scaleAt (glyphs : List Char) (i : Nat) : Nat :=
  match valueAt? glyphs i with
  | some v => if 10 ≤ v then timesAt glyphs i * v else 0
  | none => 0

/-- The last glyph, when it is a digit. -/
def lastDigit (glyphs : List Char) : Nat :=
  match glyphs.getLast?.bind glyphValue? with
  | some v => if 10 ≤ v then 0 else v
  | none => 0

/-- **The value of a numeral by places:** every scale as often as it counts, and a last digit. -/
def positional (glyphs : List Char) : Nat :=
  (∑ i ∈ Finset.range glyphs.length, scaleAt glyphs i) + lastDigit glyphs

section Places

variable (front : List Char) {c : Char} {v : Nat}

theorem valueAt?_append {i : Nat} (before : i < front.length) (back : List Char) :
    valueAt? (front ++ back) i = valueAt? front i := by
  rw [valueAt?, valueAt?, List.getElem?_append_left before]

/-- What stands at a place does not depend on what follows. -/
theorem scaleAt_append {i : Nat} (before : i < front.length) (back : List Char) :
    scaleAt (front ++ back) i = scaleAt front i := by
  have times : timesAt (front ++ back) i = timesAt front i := by
    cases i with
    | zero => rfl
    | succ i => rw [timesAt, timesAt, valueAt?_append front (Nat.lt_of_succ_lt before)]
  rw [scaleAt, scaleAt, times, valueAt?_append front before]

theorem valueAt?_length : valueAt? (front ++ [c]) front.length = glyphValue? c := by
  rw [valueAt?, List.getElem?_concat_length]
  rfl

theorem lastDigit_concat (value : glyphValue? c = some v) :
    lastDigit (front ++ [c]) = if 10 ≤ v then 0 else v := by
  rw [lastDigit, List.getLast?_concat]
  show (match glyphValue? c with | some v => _ | none => _) = _
  rw [value]

/-- **A scale at the end counts as often as the pending digit says.** -/
theorem timesAt_length (back : List Char) : timesAt (front ++ back) front.length =
    if lastDigit front = 0 then 1 else lastDigit front := by
  cases front using List.reverseRecOn with
  | nil => rfl
  | append_singleton front d =>
    have last : valueAt? (front ++ [d] ++ back) front.length = glyphValue? d := by
      rw [valueAt?_append _ (by simp), valueAt?_length]
    rw [List.length_append, List.length_singleton, timesAt, last]
    cases value : glyphValue? d with
    | none => simp [lastDigit, value]
    | some v =>
      rw [lastDigit_concat front value]
      by_cases scale : 10 ≤ v
      · simp [scale]
      · simp [scale]

/-- **One glyph more:** the reading by places takes a step. -/
theorem places_concat (value : glyphValue? c = some v) :
    Reading.step ⟨lastDigit front, ∑ i ∈ Finset.range front.length, scaleAt front i⟩ v =
      ⟨lastDigit (front ++ [c]),
        ∑ i ∈ Finset.range (front ++ [c]).length, scaleAt (front ++ [c]) i⟩ := by
  have before : ∑ i ∈ Finset.range front.length, scaleAt (front ++ [c]) i =
      ∑ i ∈ Finset.range front.length, scaleAt front i :=
    Finset.sum_congr rfl fun i inside => scaleAt_append front (Finset.mem_range.mp inside) [c]
  have here : scaleAt (front ++ [c]) front.length =
      if 10 ≤ v then (if lastDigit front = 0 then 1 else lastDigit front) * v else 0 := by
    rw [scaleAt, valueAt?_length, value, timesAt_length]
  rw [List.length_append, List.length_singleton, Finset.sum_range_succ, before, here,
    lastDigit_concat front value, Reading.step]
  by_cases scale : 10 ≤ v
  · rw [if_pos scale, if_pos scale, if_pos scale]
  · rw [if_neg scale, if_neg scale, if_neg scale, Nat.add_zero]

end Places

/-- **Reading glyph by glyph ends where the places say:** with the last digit pending, and all
scales in the total. -/
theorem read?_eq_places {glyphs : List Char} (all : ∀ c ∈ glyphs, IsGlyph c) :
    read? .empty glyphs =
      some ⟨lastDigit glyphs, ∑ i ∈ Finset.range glyphs.length, scaleAt glyphs i⟩ := by
  induction glyphs using List.reverseRecOn with
  | nil => rfl
  | append_singleton front c ih =>
    obtain ⟨before, here⟩ := List.forall_mem_append.mp all
    obtain ⟨v, value⟩ := here c List.mem_cons_self
    rw [read?_append, ih before, ← places_concat front value, Option.bind_some, read?, value]
    rfl

theorem value?_eq_positional {glyphs : List Char} (given : glyphs ≠ [])
    (all : ∀ c ∈ glyphs, IsGlyph c) : value? glyphs = some (positional glyphs) := by
  rw [value?, if_neg (by simpa using given), read?_eq_places all, Option.map_some, Reading.result,
    positional]

/-- A text has a value just when it is not empty and all of its characters are glyphs. -/
theorem value?_isSome_iff (glyphs : List Char) :
    (∃ v, value? glyphs = some v) ↔ glyphs ≠ [] ∧ ∀ c ∈ glyphs, IsGlyph c := by
  constructor
  · rintro ⟨v, value⟩
    rw [value?] at value
    split at value
    · cases value
    · rename_i given
      obtain ⟨r, read, -⟩ := Option.map_eq_some_iff.mp value
      exact ⟨by simpa using given, (read?_isSome_iff _ _).mp ⟨r, read⟩⟩
  · rintro ⟨given, all⟩
    exact ⟨_, value?_eq_positional given all⟩

/-- A single glyph is worth what the table says. -/
theorem value?_singleton (c : Char) : value? [c] = glyphValue? c := by
  cases value : glyphValue? c with
  | none => simp [value?, read?, value]
  | some v =>
    have read : value? [c] = some (Reading.empty.step v).result := by simp [value?, read?, value]
    rw [read]
    by_cases scale : 10 ≤ v
    · simp [Reading.step, Reading.empty, Reading.result, scale]
    · simp [Reading.step, Reading.empty, Reading.result, scale]

theorem isNumeral_singleton_iff (c : Char) : isNumeral [c] = true ↔ IsGlyph c := by
  rw [isNumeral, value?_singleton, Option.isSome_iff_exists]
  rfl

/-! ### How far a reading can grow -/

/-- **A reading after `n` glyphs:** the pending digit is one, and the total leaves room for it to be
scaled. -/
structure Reading.Within (r : Reading) (n : Nat) : Prop where
  digit : r.pending ≤ 9
  room : r.total + 5000 * r.pending ≤ 45000 * n

/-- How often a scale counts that comes next. -/
def Reading.times (r : Reading) : Nat := if r.pending = 0 then 1 else r.pending

theorem Reading.times_cases (r : Reading) :
    (r.pending = 0 ∧ r.times = 1) ∨ (r.pending ≠ 0 ∧ r.times = r.pending) := by
  by_cases none : r.pending = 0
  · exact .inl ⟨none, if_pos none⟩
  · exact .inr ⟨none, if_neg none⟩

section Growth

variable {r : Reading} {n v : Nat}

/-- What a scale adds to the total has room. -/
theorem Reading.Within.scaled (within : r.Within n) (small : v ≤ 10000) :
    r.total + r.times * v ≤ 45000 * (n + 1) := by
  obtain ⟨digit, room⟩ := within
  rcases r.times_cases with ⟨-, once⟩ | ⟨-, often⟩
  · rw [once]
    omega
  · have product : r.pending * v ≤ r.pending * 10000 := Nat.mul_le_mul_left _ small
    rw [often]
    omega

/-- **A glyph keeps a reading within its bounds.** -/
theorem within_step (within : r.Within n) (small : v ≤ 10000) : (r.step v).Within (n + 1) := by
  unfold Reading.step
  by_cases scale : 10 ≤ v
  · rw [if_pos scale]
    exact ⟨Nat.zero_le 9, within.scaled small⟩
  · have room := within.room
    rw [if_neg scale]
    exact ⟨show v ≤ 9 by omega, show r.total + 5000 * v ≤ 45000 * (n + 1) by omega⟩

theorem within_empty : Reading.empty.Within 0 := ⟨Nat.zero_le 9, Nat.le_refl 0⟩

/-- **As many glyphs keep it within as many more.** -/
theorem within_read? {cs : List Char} {r' : Reading} (within : r.Within n)
    (read : read? r cs = some r') : r'.Within (n + cs.length) := by
  induction cs generalizing r n with
  | nil =>
    cases read
    exact within
  | cons c cs ih =>
    rw [read?] at read
    cases value : glyphValue? c with
    | none =>
      rw [value] at read
      cases read
    | some v =>
      rw [value] at read
      have later := ih (within_step within (glyphValue?_le value)) read
      rwa [Nat.add_right_comm, Nat.add_assoc] at later

end Growth

/-- **The numbers met from a reading on:** at each glyph the pending digit, the total, the value of
the glyph and, at a scale, how often it counts, the product and the new total; at the end the
result. -/
def met (r : Reading) : List Char → List Nat
  | [] => [r.pending, r.total, r.result]
  | c :: cs => match glyphValue? c with
    | some v => [r.pending, r.total, v] ++
        (if 10 ≤ v then [r.times, r.times * v, r.total + r.times * v] else []) ++ met (r.step v) cs
    | none => [r.pending, r.total]

/-- **All numbers met on the way are bounded** by the number of glyphs. -/
theorem met_le {r : Reading} {n : Nat} (within : r.Within n) (cs : List Char) :
    ∀ m ∈ met r cs, m ≤ 45000 * (n + cs.length) := by
  induction cs generalizing r n with
  | nil =>
    obtain ⟨digit, room⟩ := within
    simp only [met, Reading.result, List.length_nil, List.forall_mem_cons]
    exact ⟨by omega, by omega, by omega, fun m member => nomatch member⟩
  | cons c cs ih =>
    have digit := within.digit
    have room := within.room
    rw [met, List.length_cons]
    cases value : glyphValue? c with
    | none =>
      simp only [List.forall_mem_cons]
      exact ⟨by omega, by omega, fun m member => nomatch member⟩
    | some v =>
      have small := glyphValue?_le value
      have later := ih (within_step within small)
      have scaled := within.scaled small
      have often : r.times ≤ 9 := by
        rcases r.times_cases with ⟨-, once⟩ | ⟨-, often⟩ <;> omega
      rw [List.forall_mem_append, List.forall_mem_append]
      refine ⟨⟨?_, ?_⟩, fun m member => ?_⟩
      · simp only [List.forall_mem_cons]
        exact ⟨by omega, by omega, by omega, fun m member => nomatch member⟩
      · split
        · simp only [List.forall_mem_cons]
          exact ⟨by omega, by omega, by omega, fun m member => nomatch member⟩
        · exact fun m member => nomatch member
      · have bound := later m member
        omega

/-! ### Words -/

/-- **A numeral half read, in words of 64 bits.** -/
structure WordReading where
  pending : Int64
  total : Int64

/-- The reading after a glyph, computed in words. -/
def WordReading.step (r : WordReading) (v : Int64) : WordReading :=
  if 10 ≤ v then ⟨0, r.total + (if r.pending = 0 then 1 else r.pending) * v⟩
  else ⟨v, r.total⟩

/-- The reading after some more glyphs, computed in words. -/
def wordRead? (r : WordReading) : List Char → Option WordReading
  | [] => some r
  | c :: cs => match glyphValue? c with
    | some v => wordRead? (r.step (Int64.ofNat v)) cs
    | none => none

/-- **The value of a numeral, computed in words.** -/
def wordValue? (glyphs : List Char) : Option Int64 :=
  if glyphs.isEmpty then none
  else (wordRead? ⟨0, 0⟩ glyphs).map fun r => r.total + r.pending

/-- A reading in words. -/
def Reading.words (r : Reading) : WordReading := ⟨Int64.ofNat r.pending, Int64.ofNat r.total⟩

/-- **Words take the step that whole numbers take.** -/
theorem words_step {r : Reading} {n v : Nat} (within : r.Within n) (small : v ≤ 10000) :
    r.words.step (Int64.ofNat v) = (r.step v).words := by
  have digit := within.digit
  have scale : (10 : Int64) ≤ Int64.ofNat v ↔ 10 ≤ v := by
    rw [Int64.le_iff_toInt_le, Int64.toInt_ofNat_of_lt (by omega)]
    exact Int.ofNat_le
  have none : Int64.ofNat r.pending = 0 ↔ r.pending = 0 := by
    rw [← Int64.toInt_inj, Int64.toInt_ofNat_of_lt (by omega)]
    exact Int.ofNat_eq_zero
  unfold WordReading.step Reading.step Reading.words
  by_cases large : 10 ≤ v
  · rw [if_pos (scale.mpr large), if_pos large]
    by_cases zero : r.pending = 0
    · simp only [if_pos (none.mpr zero), if_pos zero, Int64.ofNat_add, Int64.ofNat_mul]
      rfl
    · simp only [if_neg (mt none.mp zero), if_neg zero, Int64.ofNat_add, Int64.ofNat_mul]
      rfl
  · rw [if_neg (mt scale.mp large), if_neg large]

theorem wordRead?_words {r : Reading} {n : Nat} (within : r.Within n) (cs : List Char) :
    wordRead? r.words cs = (read? r cs).map Reading.words := by
  induction cs generalizing r n with
  | nil => rfl
  | cons c cs ih =>
    rw [wordRead?, read?]
    cases value : glyphValue? c with
    | none => rfl
    | some v =>
      have small := glyphValue?_le value
      show wordRead? (r.words.step (Int64.ofNat v)) cs = _
      rw [words_step within small]
      exact ih (within_step within small)

/-- **Words of 64 bits do not wrap around** on as many glyphs as these. -/
theorem toInt_wordValue? {glyphs : List Char} (short : glyphs.length ≤ 2 ^ 47) :
    (wordValue? glyphs).map Int64.toInt = (value? glyphs).map Int.ofNat := by
  rw [wordValue?, value?]
  by_cases empty : glyphs.isEmpty = true
  · rw [if_pos empty, if_pos empty]
    rfl
  · have same := wordRead?_words within_empty glyphs
    rw [if_neg empty, if_neg empty, show (⟨0, 0⟩ : WordReading) = Reading.empty.words from rfl,
      same]
    cases read : read? .empty glyphs with
    | none => rfl
    | some r =>
      obtain ⟨-, room⟩ := within_read? within_empty read
      have small : r.total + r.pending < 2 ^ 63 := by omega
      have sum : (Int64.ofNat r.total + Int64.ofNat r.pending).toInt =
          ((r.total + r.pending : Nat) : Int) := by
        rw [← Int64.ofNat_add, Int64.toInt_ofNat_of_lt small]
      exact congrArg some sum

/-! ### Numerals as texts -/

/-- The table and the reading of glyphs agree on a single character. -/
theorem lookup?_encode_eq_value? (c : Char) :
    lookup? (Text.encode c) = value? (Text.chars (Text.encode c)) := by
  rw [lookup?_encode, Text.chars_encode, value?_singleton]

/-- **Nothing changes when the table is asked first.** -/
theorem lookup?_or_value? (text : Text) :
    (lookup? text <|> value? text.chars) = value? text.chars := by
  cases found : lookup? text with
  | none => rfl
  | some v =>
    obtain ⟨c, member, -⟩ := Option.bind_eq_some_iff.mp found
    obtain rfl : Text.encode c = text := by simpa using List.find?_some member
    rw [← lookup?_encode_eq_value?, found]
    rfl

theorem numeralValue_eq_ok_iff (text : Text) (v : Nat) :
    Grammar.numeralValue text = .ok v ↔ value? text.chars = some v := by
  unfold Grammar.numeralValue
  cases value? text.chars with
  | none => exact iff_of_false (fun same => nomatch same) fun same => nomatch same
  | some w => rw [Except.ok.injEq, Option.some.injEq]

/-- **The value of a numeral by places.** A text is a numeral, and has a value, just when it is not
empty and all of its characters are glyphs. Its value is then the one by places: every scale times
the digit right before it, and the last digit. A text of one character has the value of the table,
so that nothing changes when the table is asked first. All numbers met on the way are at most 45000
for each character, and words of 64 bits compute the same. Any other text is refused as an
unrecognized numeral. -/
theorem value_by_places (text : Text) (short : text.chars.length ≤ 2 ^ 47) :
    (isNumeral text.chars = true ↔ text ≠ [] ∧ ∀ c ∈ text.chars, IsGlyph c) ∧
    ((∃ v, Grammar.numeralValue text = .ok v) ↔ text ≠ [] ∧ ∀ c ∈ text.chars, IsGlyph c) ∧
    (∀ v, Grammar.numeralValue text = .ok v → v = positional text.chars) ∧
    (∀ c, text = Text.encode c → lookup? text = value? text.chars) ∧
    (lookup? text <|> value? text.chars) = value? text.chars ∧
    (∀ m ∈ met .empty text.chars, m ≤ 45000 * text.chars.length) ∧
    (wordValue? text.chars).map Int64.toInt = (value? text.chars).map Int.ofNat ∧
    ((¬ ∃ v, Grammar.numeralValue text = .ok v) →
      Grammar.numeralValue text = .error ⟨.lexical, .invalidNumeral, .nowhere, text, .none⟩) := by
  have written := value?_isSome_iff text.chars
  rw [Ne, Text.chars_eq_nil_iff] at written
  refine ⟨?_, ?_, fun v read => ?_, ?_, lookup?_or_value? text, ?_, toInt_wordValue? short,
    fun unread => ?_⟩
  · rw [isNumeral, Option.isSome_iff_exists]
    exact written
  · simp only [numeralValue_eq_ok_iff]
    exact written
  · have value := (numeralValue_eq_ok_iff text v).mp read
    obtain ⟨given, all⟩ := (value?_isSome_iff text.chars).mp ⟨v, value⟩
    rw [value?_eq_positional given all] at value
    exact (Option.some.inj value).symm
  · rintro c rfl
    exact lookup?_encode_eq_value? c
  · have bound := met_le within_empty text.chars
    rwa [Nat.zero_add] at bound
  · have none : value? text.chars = none := by
      refine Option.eq_none_iff_forall_ne_some.mpr fun v value => unread ⟨v, ?_⟩
      exact (numeralValue_eq_ok_iff text v).mpr value
    unfold Grammar.numeralValue
    rw [none]
    rfl

/-- Stacked scales are not multiplied together. -/
theorem value_by_places_stacked : ("二十萬" : Text).chars.length ≤ 2 ^ 47 ∧
    Grammar.numeralValue "二十萬" = .ok 10020 ∧ 10020 = positional ("二十萬" : Text).chars :=
  ⟨by decide, rfl, (value_by_places "二十萬" (by decide)).2.2.1 10020 rfl⟩

end Numeral

end Guwen
