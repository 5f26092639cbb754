/-
**Characters survive being written and read.**

* **`Text.glyphs_encode_append`** — the bytes of a character, whatever follows them, are read as
  that character.
* `Text.chars_ofChars` — a text written from characters has just those characters.
* `Text.mem_of_mem_ofChars` — a byte of ASCII stands only for itself.
* `Text.lead_cases`, `Text.chars_cons` — what a byte starts, and so the first character of a text.
* **`Text.chars_append_encode`** — a character is read where it stands, whatever bytes stand on both
  sides; `Text.chars_append_line` — so a line feed parts a text.
-/
import Guwen.Text

namespace Guwen

namespace Text

theorem toNat_toUInt8 {n : Nat} (small : n < 256) : n.toUInt8.toNat = n :=
  UInt8.toNat_ofNat_of_lt small

theorem continuation?_toUInt8 {n : Nat} (small : n < 64) :
    continuation? (0x80 + n).toUInt8 = some n := by
  unfold continuation?
  rw [toNat_toUInt8 (by omega), if_pos (by omega), Nat.add_sub_cancel_left]

theorem scalar?_toNat {least : Nat} {c : Char} (long : least ≤ c.toNat) :
    scalar? least c.toNat = some c := by
  unfold scalar?
  rw [if_pos ⟨long, c.valid⟩, Char.ofNat_toNat]

/-! ### The sequences by their length -/

-- By rewriting and not by `rfl`: else the kernel would count up to the bounds one by one.
theorem some_bind {α β : Type} (a : α) (f : α → Option β) : (some a >>= f) = f a := rfl

section Sequences

variable {c : Char} {a x y z : Nat}

theorem pair?_toUInt8 (small : a < 32) (y_lt : y < 64) (value : a * 64 + y = c.toNat)
    (long : 0x80 ≤ c.toNat) (t : Text) :
    pair? (0xC0 + a).toUInt8 ((0x80 + y).toUInt8 :: t) = some (c, 1) := by
  rw [pair?, toNat_toUInt8 (by omega), if_pos (by omega), continuation?_toUInt8 y_lt,
    Nat.add_sub_cancel_left]
  rw [some_bind, value, scalar?_toNat long]
  rfl

theorem triple?_toUInt8 (small : a < 16) (y_lt : y < 64) (z_lt : z < 64)
    (value : a * 4096 + y * 64 + z = c.toNat) (long : 0x800 ≤ c.toNat) (t : Text) :
    triple? (0xE0 + a).toUInt8 ((0x80 + y).toUInt8 :: (0x80 + z).toUInt8 :: t) = some (c, 2) := by
  rw [triple?, toNat_toUInt8 (by omega), if_pos (by omega), continuation?_toUInt8 y_lt,
    continuation?_toUInt8 z_lt, Nat.add_sub_cancel_left]
  rw [some_bind, some_bind, value, scalar?_toNat long]
  rfl

theorem quad?_toUInt8 (small : a < 8) (x_lt : x < 64) (y_lt : y < 64) (z_lt : z < 64)
    (value : a * 262144 + x * 4096 + y * 64 + z = c.toNat) (long : 0x10000 ≤ c.toNat) (t : Text) :
    quad? (0xF0 + a).toUInt8
      ((0x80 + x).toUInt8 :: (0x80 + y).toUInt8 :: (0x80 + z).toUInt8 :: t) = some (c, 3) := by
  rw [quad?, toNat_toUInt8 (by omega), if_pos (by omega), continuation?_toUInt8 x_lt,
    continuation?_toUInt8 y_lt, continuation?_toUInt8 z_lt, Nat.add_sub_cancel_left]
  rw [some_bind, some_bind, some_bind, value, scalar?_toNat long]
  rfl

end Sequences

theorem pair?_eq_none {a : UInt8} (high : 0xE0 ≤ a.toNat) (t : Text) : pair? a t = none := by
  cases t with
  | nil => rfl
  | cons b t => rw [pair?, if_neg (by omega)]

theorem triple?_eq_none {a : UInt8} (high : 0xF0 ≤ a.toNat) (t : Text) : triple? a t = none := by
  unfold triple?
  split
  · rw [if_neg (by omega)]
  · rfl

/-- A character of three bytes has the first four bits from its first byte. -/
theorem le_toNat_of_triple? {a : UInt8} {t : Text} {c : Char} {more : Nat}
    (read : triple? a t = some (c, more)) : (a.toNat - 0xE0) * 4096 ≤ c.toNat := by
  unfold triple? at read
  split at read
  · split at read
    · simp only [bind, Option.bind_eq_some_iff, pure, Option.some.injEq, Prod.mk.injEq] at read
      obtain ⟨y, -, z, -, d, known, rfl, -⟩ := read
      unfold scalar? at known
      split at known
      · rename_i valid
        cases known
        rw [Char.ofNat, dif_pos valid.2]
        show _ ≤ (a.toNat - 0xE0) * 4096 + y * 64 + z
        omega
      · cases known
    · cases read
  · cases read

theorem lead_of_ge {a : UInt8} {t : Text} {c : Char} {more : Nat} (high : 0x80 ≤ a.toNat)
    (read : (pair? a t <|> triple? a t <|> quad? a t) = some (c, more)) :
    lead a t = (.char c, more) := by
  unfold lead
  rw [if_neg (by omega), read]

/-- **The first byte of a character is read as the character,** and the other bytes belong to it. -/
theorem lead_encode (c : Char) (t : Text) :
    ∃ a more, encode c = a :: more ∧ lead a (more ++ t) = (.char c, more.length) := by
  have range : c.toNat < 0x110000 := by
    rcases c.valid with low | ⟨_, high⟩
    · exact Nat.lt_trans low (by decide)
    · exact high
  unfold encode
  dsimp only
  split
  · rename_i one
    refine ⟨_, [], rfl, ?_⟩
    unfold lead
    rw [toNat_toUInt8 (by omega), if_pos one, Char.ofNat_toNat]
    rfl
  split
  · refine ⟨_, [_], rfl, lead_of_ge (by rw [toNat_toUInt8] <;> omega) ?_⟩
    rw [List.singleton_append, pair?_toUInt8 (c := c) (by omega) (by omega) (by omega) (by omega)]
    rfl
  split
  · refine ⟨_, [_, _], rfl, lead_of_ge (by rw [toNat_toUInt8] <;> omega) ?_⟩
    rw [pair?_eq_none (by rw [toNat_toUInt8] <;> omega), List.cons_append, List.singleton_append,
      triple?_toUInt8 (c := c) (by omega) (by omega) (by omega) (by omega) (by omega)]
    rfl
  · refine ⟨_, [_, _, _], rfl, lead_of_ge (by rw [toNat_toUInt8] <;> omega) ?_⟩
    rw [pair?_eq_none (by rw [toNat_toUInt8] <;> omega),
      triple?_eq_none (by rw [toNat_toUInt8] <;> omega), List.cons_append, List.cons_append,
      List.singleton_append, quad?_toUInt8 (c := c) (by omega) (by omega) (by omega) (by omega)
      (by omega) (by omega)]
    rfl

/-! ### Reading what was written -/

/-- **The bytes of a character are read as that character.** -/
theorem glyphs_encode_append (c : Char) (t : Text) :
    glyphs (encode c ++ t) = .char c :: glyphs t := by
  obtain ⟨a, more, bytes, read⟩ := lead_encode c t
  have passes : ∀ more : Text, glyphsAfter more.length (more ++ t) = glyphsAfter 0 t := by
    intro more
    induction more with
    | nil => rfl
    | cons b more ih => exact ih
  unfold glyphs
  rw [bytes, List.cons_append, glyphsAfter, read, passes]

theorem chars_encode_append (c : Char) (rest : Text) :
    chars (encode c ++ rest) = c :: rest.chars := by
  unfold chars
  rw [glyphs_encode_append, List.map_cons]
  rfl

theorem chars_encode (c : Char) : chars (encode c) = [c] := by
  have read := chars_encode_append c []
  rwa [List.append_nil] at read

/-- Characters are told apart by their bytes. -/
theorem encode_inj {c d : Char} (same : encode c = encode d) : c = d := by
  have read := congrArg chars same
  rw [chars_encode, chars_encode] at read
  exact List.head_eq_of_cons_eq read

theorem ofChars_append (cs ds : List Char) : ofChars (cs ++ ds) = ofChars cs ++ ofChars ds :=
  List.flatMap_append

/-- Characters at the front of a text are read as they were written. -/
theorem chars_ofChars_append (cs : List Char) (rest : Text) :
    chars (ofChars cs ++ rest) = cs ++ rest.chars := by
  induction cs with
  | nil => rfl
  | cons c cs ih =>
    show chars (encode c ++ ofChars cs ++ rest) = _
    rw [List.append_assoc, chars_encode_append, ih, List.cons_append]

/-- **A text written from characters has just those characters.** -/
theorem chars_ofChars (cs : List Char) : chars (ofChars cs) = cs := by
  have read := chars_ofChars_append cs []
  rwa [List.append_nil, show chars [] = [] from rfl, List.append_nil] at read

/-! ### Where a sequence ends -/

/-- A byte of ASCII goes on no sequence. -/
theorem continuation?_ascii {e : UInt8} (ascii : e.toNat < 0x80) : continuation? e = none :=
  if_neg fun range => absurd range.1 (Nat.not_le.mpr ascii)

/-- The first byte of a character goes on no sequence. -/
theorem continuation?_encode (c : Char) :
    ∃ a more, encode c = a :: more ∧ continuation? a = none := by
  have range : c.toNat < 0x110000 := by
    rcases c.valid with low | ⟨_, high⟩
    · exact Nat.lt_trans low (by decide)
    · exact high
  have beyond : ∀ n, 0xC0 ≤ n → n < 256 → continuation? n.toUInt8 = none := by
    intro n high small
    rw [continuation?, toNat_toUInt8 small, if_neg (by omega)]
  unfold encode
  dsimp only
  split
  · rename_i one
    exact ⟨_, [], rfl, continuation?_ascii (by rwa [toNat_toUInt8 (by omega)])⟩
  split
  · exact ⟨_, [_], rfl, beyond _ (by omega) (by omega)⟩
  split
  · exact ⟨_, [_, _], rfl, beyond _ (by omega) (by omega)⟩
  · exact ⟨_, [_, _, _], rfl, beyond _ (by omega) (by omega)⟩

/-- The bytes of a character beyond ASCII lie beyond ASCII. -/
theorem le_of_mem_encode {c : Char} (beyond : 0x80 ≤ c.toNat) :
    ∀ b ∈ encode c, 0x80 ≤ b.toNat := by
  have range : c.toNat < 0x110000 := by
    rcases c.valid with low | ⟨_, high⟩
    · exact Nat.lt_trans low (by decide)
    · exact high
  have high {n : Nat} (least : 0x80 ≤ n) (small : n < 256) : 0x80 ≤ n.toUInt8.toNat := by
    rwa [toNat_toUInt8 small]
  unfold encode
  dsimp only
  rw [if_neg (by omega)]
  split
  · simp only [List.forall_mem_cons]
    exact ⟨high (by omega) (by omega), high (by omega) (by omega), by simp⟩
  split
  · simp only [List.forall_mem_cons]
    exact ⟨high (by omega) (by omega), high (by omega) (by omega), high (by omega) (by omega),
      by simp⟩
  · simp only [List.forall_mem_cons]
    exact ⟨high (by omega) (by omega), high (by omega) (by omega), high (by omega) (by omega),
      high (by omega) (by omega), by simp⟩

/-- A byte of ASCII stands in a text only as a character of its own. -/
theorem mem_of_mem_ofChars {cs : List Char} {b : UInt8} (ascii : b.toNat < 0x80)
    (member : b ∈ ofChars cs) : Char.ofNat b.toNat ∈ cs := by
  obtain ⟨c, inside, here⟩ := List.mem_flatMap.mp member
  by_cases beyond : 0x80 ≤ c.toNat
  · exact absurd ascii (Nat.not_lt.mpr (le_of_mem_encode beyond b here))
  · rw [encode, if_pos (Nat.not_le.mp beyond), List.mem_singleton] at here
    rwa [here, toNat_toUInt8 (by omega), Char.ofNat_toNat]

theorem le_of_scalar? {least n : Nat} {c : Char} (read : scalar? least n = some c) :
    least ≤ c.toNat := by
  unfold scalar? at read
  split at read
  · rename_i valid
    cases read
    rw [Char.ofNat, dif_pos valid.2]
    exact valid.1
  · cases read

section Cut

variable {e : UInt8} (a : UInt8) (t rest : Text)

theorem pair?_cut (apart : continuation? e = none) : pair? a (t ++ e :: rest) = pair? a t := by
  cases t with
  | nil =>
    show (if _ then _ else none) = none
    rw [apart]
    exact ite_self none
  | cons b t => rfl

theorem triple?_cut (apart : continuation? e = none) :
    triple? a (t ++ e :: rest) = triple? a t := by
  match t with
  | [] =>
    cases rest with
    | nil => rfl
    | cons b rest =>
      show (if _ then _ else none) = none
      rw [apart]
      exact ite_self none
  | [b] =>
    show (if _ then _ else none) = none
    rw [apart]
    cases continuation? b <;> exact ite_self none
  | b :: b' :: t => rfl

theorem quad?_cut (apart : continuation? e = none) : quad? a (t ++ e :: rest) = quad? a t := by
  match t with
  | [] =>
    match rest with
    | [] => rfl
    | [_] => rfl
    | b :: b' :: rest =>
      show (if _ then _ else none) = none
      rw [apart]
      exact ite_self none
  | [b] =>
    cases rest with
    | nil => rfl
    | cons b' rest =>
      show (if _ then _ else none) = none
      rw [apart]
      cases continuation? b <;> exact ite_self none
  | [b, b'] =>
    show (if _ then _ else none) = none
    rw [apart]
    cases continuation? b <;> cases continuation? b' <;> exact ite_self none
  | b :: b' :: b'' :: t => rfl

/-- A glyph does not reach past a byte that goes on no sequence. -/
theorem lead_cut (apart : continuation? e = none) : lead a (t ++ e :: rest) = lead a t := by
  unfold lead
  rw [pair?_cut a t rest apart, triple?_cut a t rest apart, quad?_cut a t rest apart]

variable {a t} in
theorem pair?_bounds {c : Char} {more : Nat} (read : pair? a t = some (c, more)) :
    0x80 ≤ c.toNat ∧ more ≤ t.length := by
  unfold pair? at read
  split at read
  · split at read
    · obtain ⟨y, -, read⟩ := Option.bind_eq_some_iff.mp read
      obtain ⟨d, known, read⟩ := Option.bind_eq_some_iff.mp read
      cases read
      exact ⟨le_of_scalar? known, Nat.le_add_left _ _⟩
    · cases read
  · cases read

variable {a t} in
theorem triple?_bounds {c : Char} {more : Nat} (read : triple? a t = some (c, more)) :
    0x800 ≤ c.toNat ∧ more ≤ t.length := by
  unfold triple? at read
  split at read
  · split at read
    · obtain ⟨y, -, read⟩ := Option.bind_eq_some_iff.mp read
      obtain ⟨z, -, read⟩ := Option.bind_eq_some_iff.mp read
      obtain ⟨d, known, read⟩ := Option.bind_eq_some_iff.mp read
      cases read
      exact ⟨le_of_scalar? known, Nat.le_add_left _ _⟩
    · cases read
  · cases read

variable {a t} in
theorem quad?_bounds {c : Char} {more : Nat} (read : quad? a t = some (c, more)) :
    0x10000 ≤ c.toNat ∧ more ≤ t.length := by
  unfold quad? at read
  split at read
  · split at read
    · obtain ⟨y, -, read⟩ := Option.bind_eq_some_iff.mp read
      obtain ⟨z, -, read⟩ := Option.bind_eq_some_iff.mp read
      obtain ⟨w, -, read⟩ := Option.bind_eq_some_iff.mp read
      obtain ⟨d, known, read⟩ := Option.bind_eq_some_iff.mp read
      cases read
      exact ⟨le_of_scalar? known, Nat.le_add_left _ _⟩
    · cases read
  · cases read

/-- **What a byte starts:** a character of ASCII, a longer character that ends within the text, or
none. -/
theorem lead_cases :
    (a.toNat < 0x80 ∧ lead a t = (.char (Char.ofNat a.toNat), 0)) ∨
    (0x80 ≤ a.toNat ∧ ∃ c more, lead a t = (.char c, more) ∧ 0x80 ≤ c.toNat ∧ more ≤ t.length) ∨
    (0x80 ≤ a.toNat ∧ lead a t = (.stray a, 0)) := by
  by_cases ascii : a.toNat < 0x80
  · exact .inl ⟨ascii, if_pos ascii⟩
  have high := Nat.not_lt.mp ascii
  refine .inr ?_
  cases read : pair? a t <|> triple? a t <|> quad? a t with
  | none => exact .inr ⟨high, by rw [lead, if_neg ascii, read]⟩
  | some both =>
    refine .inl ⟨high, both.1, both.2, lead_of_ge high read, ?_⟩
    cases pair : pair? a t with
    | some found =>
      rw [pair] at read
      cases read
      exact pair?_bounds pair
    | none =>
      cases triple : triple? a t with
      | some found =>
        rw [pair, triple] at read
        cases read
        obtain ⟨long, within⟩ := triple?_bounds triple
        exact ⟨Nat.le_trans (by decide) long, within⟩
      | none =>
        rw [pair, triple] at read
        obtain ⟨long, within⟩ := quad?_bounds read
        exact ⟨Nat.le_trans (by decide) long, within⟩

/-- A glyph ends within the text. -/
theorem lead_le : (lead a t).2 ≤ t.length := by
  rcases lead_cases a t with ⟨-, read⟩ | ⟨-, c, more, read, -, within⟩ | ⟨-, read⟩
  · rw [read]
    exact Nat.zero_le _
  · rw [read]
    exact within
  · rw [read]
    exact Nat.zero_le _

theorem glyphsAfter_cut (apart : continuation? e = none) {pending : Nat}
    (within : pending ≤ t.length) :
    glyphsAfter pending (t ++ e :: rest) = glyphsAfter pending t ++ glyphs (e :: rest) := by
  induction t generalizing pending with
  | nil =>
    cases Nat.le_zero.mp within
    rfl
  | cons a t ih =>
    cases pending with
    | succ pending => exact ih (Nat.le_of_succ_le_succ within)
    | zero =>
      rw [List.cons_append, glyphsAfter, glyphsAfter, lead_cut a t rest apart, ih (lead_le a t),
        List.cons_append]

/-- A text is read in two parts where the second starts with a byte that goes on no sequence. -/
theorem chars_cut (apart : continuation? e = none) :
    chars (t ++ e :: rest) = t.chars ++ chars (e :: rest) := by
  unfold chars
  rw [← List.map_append]
  exact congrArg _ (glyphsAfter_cut t rest apart (Nat.zero_le _))

end Cut

/-! ### Texts one behind another -/

/-- A text without characters is empty. -/
theorem chars_eq_nil_iff (t : Text) : t.chars = [] ↔ t = [] := by
  cases t with
  | nil => exact iff_of_true rfl rfl
  | cons a t => exact iff_of_false (List.cons_ne_nil _ _) (List.cons_ne_nil _ _)

/-- **The first character of a text:** a byte of ASCII is one of its own, and any other byte starts
a character beyond ASCII or is stray. -/
theorem chars_cons (a : UInt8) (t : Text) :
    (a.toNat < 0x80 ∧ chars (a :: t) = Char.ofNat a.toNat :: chars t) ∨
    (0x80 ≤ a.toNat ∧ ∃ c cs, chars (a :: t) = c :: cs ∧ 0x80 ≤ c.toNat) := by
  have step : chars (a :: t) =
      (lead a t).1.reading :: (glyphsAfter (lead a t).2 t).map Glyph.reading := rfl
  rcases lead_cases a t with ⟨ascii, read⟩ | ⟨high, c, more, read, beyond, -⟩ | ⟨high, read⟩
  · rw [read] at step
    exact .inl ⟨ascii, step⟩
  · rw [read] at step
    exact .inr ⟨high, _, _, step, beyond⟩
  · rw [read] at step
    exact .inr ⟨high, _, _, step, show 0x80 ≤ (Char.ofNat 0xFFFD).toNat by decide⟩

/-- **A character is read where it stands,** whatever bytes stand on both sides. -/
theorem chars_append_encode (t : Text) (c : Char) (rest : Text) :
    chars (t ++ (encode c ++ rest)) = t.chars ++ c :: rest.chars := by
  obtain ⟨a, more, bytes, apart⟩ := continuation?_encode c
  rw [← chars_encode_append, bytes, List.cons_append, chars_cut t (more ++ rest) apart]

/-- **A line feed parts a text:** its characters are those before, the line feed and those
behind. -/
theorem chars_append_line (t rest : Text) :
    chars (t ++ 10 :: rest) = t.chars ++ '\n' :: rest.chars :=
  chars_append_encode t '\n' rest

/-- Characters behind any bytes are read as they were written. -/
theorem chars_append_ofChars (t : Text) (cs : List Char) :
    chars (t ++ ofChars cs) = t.chars ++ cs := by
  cases cs with
  | nil => rw [show ofChars [] = [] from rfl, List.append_nil, List.append_nil]
  | cons c cs =>
    show chars (t ++ (encode c ++ ofChars cs)) = _
    rw [chars_append_encode, chars_ofChars]

end Text

end Guwen
