/-
**Delimiters: where the parts of an expression of C# end.**

Words end at the first byte that no word holds, a string literal at its closing quote, and what
stands between commas where a comma, a blank or a closing parenthesis follows. So a text can be cut
into such parts in one way only.

* `isRunByte` — a byte of a word or of a dotted name; `Stops` — what follows ends an expression.
* `span_append_inj`, `quote_append_inj` — a run, the sign of an operator and a literal are told from
  what follows them.
* `Front`, `front?` — the six ways an expression of C# can start, read from its text alone.
* `Builtin.word`, `Builtin.behind` — the parts of a builtin's code around its arguments.
* **`nameWord_inj`** — the word for a name tells the name, and which builtin it stands for.
-/
import Guwen.Proofs.Code.Mirror
import Mathlib.Data.List.Nodup

namespace Guwen

namespace Code

/-! ### Runs -/

/-- A byte of a word, a number or a dotted name. -/
def isRunByte (b : UInt8) : Bool := isWordByte b || b == 46

/-- **What follows ends an expression:** nothing, or a blank, a closing parenthesis or a comma. -/
def Stops (rest : Text) : Prop := ∀ b ∈ rest.head?, b = 32 ∨ b = 41 ∨ b = 44

/-- No run goes on in `rest`. -/
def EndsRun (rest : Text) : Prop := ∀ b ∈ rest.head?, isRunByte b = false

theorem stops_nil : Stops [] := by
  rintro _ ⟨⟩

theorem stops_cons {b : UInt8} {t : Text} (stop : b = 32 ∨ b = 41 ∨ b = 44) : Stops (b :: t) := by
  rintro _ ⟨⟩
  exact stop

theorem stops_blank (t : Text) : Stops (" " ++ t) := stops_cons (.inl rfl)

theorem stops_closing (t : Text) : Stops (")" ++ t) := stops_cons (.inr (.inl rfl))

theorem stops_comma (t : Text) : Stops (", " ++ t) := stops_cons (.inr (.inr rfl))

theorem endsRun_opening (t : Text) : EndsRun ("(" ++ t) := by
  rintro _ ⟨⟩
  rfl

theorem Stops.endsRun {rest : Text} (stops : Stops rest) : EndsRun rest := by
  intro b first
  rcases stops b first with rfl | rfl | rfl <;> rfl

theorem takeWhile_span {p : UInt8 → Bool} {span rest : Text} (bytes : ∀ b ∈ span, p b = true)
    (ends : ∀ b ∈ rest.head?, p b = false) : (span ++ rest).takeWhile p = span := by
  rw [List.takeWhile_append_of_pos bytes]
  cases rest with
  | nil => exact List.append_nil span
  | cons b rest => rw [List.takeWhile_cons_of_neg (by simp [ends b rfl]), List.append_nil]

/-- **A longest span is told from what follows it.** -/
theorem span_append_inj (p : UInt8 → Bool) {span other rest more : Text}
    (bytes : ∀ b ∈ span, p b = true) (bytes' : ∀ b ∈ other, p b = true)
    (ends : ∀ b ∈ rest.head?, p b = false) (ends' : ∀ b ∈ more.head?, p b = false)
    (same : span ++ rest = other ++ more) : span = other ∧ rest = more := by
  have spans : span = other := by
    rw [← takeWhile_span bytes ends, same, takeWhile_span bytes' ends']
  subst spans
  exact ⟨rfl, List.append_cancel_left same⟩

/-- **The sign of an operator is told from what follows the blank behind it.** -/
theorem sign_append_inj {op op' : Operator} (known : op ∈ Operator.all)
    (known' : op' ∈ Operator.all) {rest more : Text}
    (same : op.sign ++ (" " ++ rest) = op'.sign ++ (" " ++ more)) : op = op' ∧ rest = more := by
  have signs : ∀ op ∈ Operator.all, (∀ b ∈ op.sign, (b != 32) = true) ∧
      ∀ op' ∈ Operator.all, op.sign = op'.sign → op = op' := by decide +kernel
  have blank : ∀ t : Text, ∀ b ∈ (" " ++ t : Text).head?, (b != 32) = false := by
    rintro t b ⟨⟩
    rfl
  obtain ⟨equal, rests⟩ := span_append_inj (· != 32) (signs op known).1 (signs op' known').1
    (blank rest) (blank more) same
  exact ⟨(signs op known).2 op' known' equal, List.append_cancel_left rests⟩

theorem isRunByte_of_word {b : UInt8} (word : isWordByte b = true) : isRunByte b = true := by
  simp [isRunByte, word]

/-- **A run that a name can be written as:** neither a number nor `new`. -/
structure IsNameWord (t : Text) : Prop where
  given : t ≠ []
  other : t ≠ ("new" : Text)
  bytes : ∀ b ∈ t, isRunByte b = true
  no_digit : t.head?.any isDigitByte = false

theorem IsNumber.run {t : Text} (number : IsNumber t) : ∀ b ∈ t, isRunByte b = true := by
  rcases number with digits | ⟨whole, part, before, behind, rfl⟩
  · exact fun b member => isRunByte_of_word (digits.word b member)
  · intro b member
    rcases List.mem_append.mp member with inside | inside
    · exact isRunByte_of_word (before.word b inside)
    · rcases List.mem_cons.mp inside with rfl | inside
      · rfl
      · exact isRunByte_of_word (behind.word b inside)

/-- A number starts with a digit. -/
theorem IsNumber.head {t : Text} (number : IsNumber t) :
    ∃ b rest, t = b :: rest ∧ isDigitByte b = true := by
  have first : ∀ digits : Text, IsDigits digits →
      ∃ b rest, digits = b :: rest ∧ isDigitByte b = true := by
    rintro (_ | ⟨b, rest⟩) ⟨given, all⟩
    · exact absurd rfl given
    · exact ⟨b, rest, rfl, all b List.mem_cons_self⟩
  rcases number with digits | ⟨whole, part, before, -, rfl⟩
  · exact first t digits
  · obtain ⟨b, rest, rfl, digit⟩ := first whole before
    exact ⟨b, rest ++ 46 :: part, rfl, digit⟩

/-! ### String literals -/

/-- The first byte that stands inside a string literal, and what follows it there. -/
def unescape : Text → Option (UInt8 × Text)
  | 0x5C :: 0x75 :: 0x30 :: 0x30 :: 0x37 :: 0x42 :: t => some (0x7B, t)
  | 0x5C :: 0x75 :: 0x30 :: 0x30 :: 0x37 :: 0x44 :: t => some (0x7D, t)
  | 0x5C :: 0x6E :: t => some (0x0A, t)
  | 0x5C :: 0x72 :: t => some (0x0D, t)
  | 0x5C :: 0x74 :: t => some (0x09, t)
  | 0x5C :: b :: t => some (b, t)
  | b :: t => if b = 0x22 then none else some (b, t)
  | [] => none

theorem unescape_escapeByte (b : UInt8) (t : Text) :
    unescape (escapeByte b ++ t) = some (b, t) := by
  rcases escapeByte_cases b with escaped | ⟨itself, others⟩
  · have each : ∀ e ∈ escapes, unescape (e.2 ++ t) = some (e.1, t) := by
      simp only [escapes, List.forall_mem_cons]
      exact ⟨rfl, rfl, rfl, rfl, rfl, rfl, rfl, List.forall_mem_nil _⟩
    exact each _ escaped
  · simp only [escapes, List.forall_mem_cons] at others
    obtain ⟨backslash, quote, -⟩ := others
    simp [itself, unescape, backslash.symm, quote.symm]

/-- **The content of a string literal is told from what follows it.** -/
theorem quote_append_inj {t u rest more : Text} (same : quote t ++ rest = quote u ++ more) :
    t = u ∧ rest = more := by
  have inner : t.flatMap escapeByte ++ 0x22 :: rest = u.flatMap escapeByte ++ 0x22 :: more := by
    rw [quote_append, quote_append] at same
    exact List.tail_eq_of_cons_eq same
  clear same
  have closed : ∀ v : Text, unescape (0x22 :: v) = none := fun _ => rfl
  induction t generalizing u with
  | nil =>
    cases u with
    | nil => exact ⟨rfl, List.tail_eq_of_cons_eq inner⟩
    | cons b u =>
      have read := congrArg unescape inner
      rw [List.flatMap_cons, List.append_assoc, unescape_escapeByte] at read
      cases (closed rest).symm.trans read
  | cons a t ih =>
    have read := congrArg unescape inner
    rw [List.flatMap_cons, List.append_assoc, unescape_escapeByte] at read
    cases u with
    | nil => cases read.trans (closed more)
    | cons b u =>
      rw [List.flatMap_cons, List.append_assoc, unescape_escapeByte] at read
      obtain ⟨rfl, later⟩ := Prod.mk.inj (Option.some.inj read)
      obtain ⟨rfl, rests⟩ := ih later
      exact ⟨rfl, rests⟩

/-! ### Fronts -/

/-- **How an expression of C# can start.** -/
inductive Front where
  | group
  | literal
  | number
  | name
  | call
  | list
deriving DecidableEq

/-- The front of a text that starts with a run and goes on with `next`. -/
def frontOf? (run : Text) (next : Option UInt8) : Option Front :=
  if run = [] then
    if next = some 40 then some .group else if next = some 34 then some .literal else none
  else if run = ("new" : Text) then some .list
  else if next = some 40 then some .call
  else if run.head?.any isDigitByte then some .number
  else some .name

/-- **The front of a text.** -/
def front? (t : Text) : Option Front :=
  frontOf? (t.takeWhile isRunByte) (t.dropWhile isRunByte).head?

theorem front?_append {run rest : Text} (bytes : ∀ b ∈ run, isRunByte b = true)
    (ends : EndsRun rest) : front? (run ++ rest) = frontOf? run rest.head? := by
  have taken := takeWhile_span bytes ends
  have dropped : (run ++ rest).dropWhile isRunByte = rest := by
    have whole := List.takeWhile_append_dropWhile (p := isRunByte) (l := run ++ rest)
    rw [taken] at whole
    exact List.append_cancel_left whole
  rw [front?, taken, dropped]

theorem Stops.next_ne {rest : Text} (stops : Stops rest) : rest.head? ≠ some 40 := by
  intro first
  rcases stops 40 first with same | same | same <;> cases same

theorem front?_number {t rest : Text} (number : IsNumber t) (stops : Stops rest) :
    front? (t ++ rest) = some .number := by
  rw [front?_append number.run stops.endsRun]
  obtain ⟨b, t, rfl, digit⟩ := number.head
  have no_new : b :: t ≠ ("new" : Text) := by
    intro same
    rw [show b = 110 from List.head_eq_of_cons_eq same] at digit
    cases digit
  rw [frontOf?, if_neg (List.cons_ne_nil b t), if_neg no_new, if_neg stops.next_ne,
    if_pos (by simpa using digit)]

theorem IsNameWord.front?_name {t rest : Text} (word : IsNameWord t) (stops : Stops rest) :
    front? (t ++ rest) = some .name := by
  rw [front?_append word.bytes stops.endsRun, frontOf?, if_neg word.given, if_neg word.other,
    if_neg stops.next_ne, if_neg (by simp [word.no_digit])]

theorem IsNameWord.front?_call {t : Text} (word : IsNameWord t) (rest : Text) :
    front? (t ++ ("(" ++ rest)) = some .call := by
  rw [front?_append word.bytes (endsRun_opening rest), frontOf?, if_neg word.given,
    if_neg word.other]
  exact if_pos rfl

/-- Nothing starts where an expression ends. -/
theorem front?_of_stops {rest : Text} (stops : Stops rest) : front? rest = none := by
  have read : front? ([] ++ rest) = frontOf? [] rest.head? :=
    front?_append (fun _ member => absurd member List.not_mem_nil) stops.endsRun
  rw [List.nil_append] at read
  rw [read]
  cases rest with
  | nil => rfl
  | cons b rest => rcases stops b rfl with rfl | rfl | rfl <;> rfl

end Code

/-! ### Words for names -/

namespace Builtin

/-- The word or dotted name that the code of a builtin starts with. -/
def word (b : Builtin) : Text := (b.render [[]]).takeWhile Code.isRunByte

/-- What stands behind the arguments of a builtin. -/
def behind (b : Builtin) : Text := (b.render [[]]).drop (b.word.length + 2)

theorem render_value {b : Builtin} (known : b ∈ all) (value : b.kind = .value) :
    b.render [] = b.word := by
  have each : ∀ b ∈ all, b.kind = .value → b.render [] = b.word := by decide
  exact each b known value

/-- One argument is written as it is. -/
theorem fill_first {before after absent : Text} {values : List Text} (given : values ≠ [])
    (fits : values.length ≤ 1) :
    (Form.first before after absent).fill values = before ++ (Text.join ", " values ++ after) := by
  cases values with
  | nil => exact absurd rfl given
  | cons value values =>
    cases values with
    | nil =>
      rw [Text.join_singleton, ← List.append_assoc]
      rfl
    | cons => exact absurd (Nat.le_of_succ_le_succ fits) (Nat.not_succ_le_zero _)

/-- A function of the language that does without a call when it gets no argument. -/
def needsArgument (name : Text) : Bool := name == ("長度" : Text) || name == ("轉換" : Text)

/-- **The code of a call of a builtin,** when it has the argument it needs and no more than it
takes. -/
theorem render_function {b : Builtin} (known : b ∈ all) (function : b.kind = .function)
    {values : List Text} (fits : ∀ limit ∈ b.arity, values.length ≤ limit)
    (supplied : values = [] → needsArgument b.name = false) :
    b.render values = b.word ++ ("(" ++ (Text.join ", " values ++ (")" ++ b.behind))) := by
  have given : needsArgument b.name = true → values ≠ [] := by
    intro needs none
    cases needs.symm.trans (supplied none)
  simp only [all, List.mem_cons, List.not_mem_nil, or_false] at known
  rcases known with rfl | rfl | rfl | rfl | rfl | rfl | rfl
  · rfl
  · obtain rfl : values = [] := List.length_eq_zero_iff.mp (Nat.le_zero.mp (fits 0 rfl))
    rfl
  · exact fill_first (given rfl) (fits 1 rfl)
  · exact fill_first (given rfl) (fits 1 rfl)
  all_goals cases function

/-- A builtin starts with a word of its own, which is reserved or has a point. -/
theorem word_facts {b : Builtin} (known : b ∈ all) :
    Code.IsNameWord b.word ∧ (Code.isReserved b.word = true ∨ 46 ∈ b.word) := by
  have each : ∀ b ∈ all, b.word ≠ [] ∧ b.word ≠ ("new" : Text) ∧
      b.word.all Code.isRunByte = true ∧ b.word.head?.any Code.isDigitByte = false ∧
      (Code.isReserved b.word = true ∨ 46 ∈ b.word) := by decide
  obtain ⟨given, other, bytes, digit, apart⟩ := each b known
  exact ⟨⟨given, other, List.all_eq_true.mp bytes, digit⟩, apart⟩

/-- Builtins are told apart by their words. -/
theorem eq_of_word {b b' : Builtin} (known : b ∈ all) (known' : b' ∈ all)
    (same : b.word = b'.word) : b = b' := by
  have words : (all.map word).Nodup := by decide
  exact List.inj_on_of_nodup_map words known known' same

end Builtin

namespace Code

/-- **The word for a name,** which may stand for a builtin. -/
def nameWord (name : Text) : Option Builtin → Text
  | some b => b.word
  | none => identifier name

/-- What stands behind the arguments of a call. -/
def behindCall : Option Builtin → Text
  | some b => b.behind
  | none => []

theorem identifier_ne_word (name : Text) {b : Builtin} (known : b ∈ Builtin.all) :
    identifier name ≠ b.word := by
  intro same
  obtain ⟨-, reserved | point⟩ := Builtin.word_facts known
  · rw [← same, isReserved_identifier] at reserved
    cases reserved
  · rw [← same] at point
    exact absurd (mem_identifier point) (by decide)

theorem isNameWord_nameWord (name : Text) {stands : Option Builtin}
    (known : ∀ b ∈ stands, b ∈ Builtin.all) : IsNameWord (nameWord name stands) := by
  cases stands with
  | some b => exact (Builtin.word_facts (known b rfl)).1
  | none =>
    obtain ⟨b, t, same, -⟩ := head_identifier name
    have given : identifier name ≠ [] := by simp [same]
    exact ⟨given, identifier_ne_new name, fun b member => isRunByte_of_word (mem_identifier member),
      not_digit_identifier name⟩

/-- **The word for a name tells the name,** and which builtin it stands for. -/
theorem nameWord_inj {Good : Text → Prop} (distinct : Distinct Good) {name other : Text}
    {stands stands' : Option Builtin}
    (known : ∀ b ∈ stands, b ∈ Builtin.all ∧ b.name = name)
    (known' : ∀ b ∈ stands', b ∈ Builtin.all ∧ b.name = other)
    (good : stands = none → Good name) (good' : stands' = none → Good other)
    (same : nameWord name stands = nameWord other stands') :
    name = other ∧ stands = stands' := by
  cases stands with
  | none =>
    cases stands' with
    | none => exact ⟨distinct name other (good rfl) (good' rfl) same, rfl⟩
    | some b => exact absurd same (identifier_ne_word name (known' b rfl).1)
  | some b =>
    cases stands' with
    | none => exact absurd same.symm (identifier_ne_word other (known b rfl).1)
    | some b' =>
      obtain ⟨member, rfl⟩ := known b rfl
      obtain ⟨member', rfl⟩ := known' b' rfl
      obtain rfl := Builtin.eq_of_word member member' same
      exact ⟨rfl, rfl⟩

end Code

end Guwen
