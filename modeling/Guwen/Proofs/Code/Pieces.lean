/-
**Code that reads as it was written.**

How the pieces of code put together come from the pieces of its parts, and what reading them finds.

* `Lexes code ps` — the code is cut into the pieces `ps`, when no word goes on behind it;
  `Sealed` — the same whatever follows.
* `Scans ps xs` — reading the pieces finds the names `xs` in use and declares nothing.
* **`Reads code xs`** — both at once, for code on one line: closed under what may stand before code
  (`Opens.append`) and behind it (`Reads.append`), and under lists with commas (`Reads.join`).
-/
import Guwen.Proofs.Code.Reading
import Guwen.Proofs.Code.StringLiteral
import Guwen.Proofs.Text.Split
import Mathlib.Data.List.Forall2

namespace Guwen

namespace Code

/-! ### Cutting -/

/-- No word goes on here. -/
def Apart (rest : Text) : Prop := ∀ b ∈ rest.head?, isWordByte b = false

theorem apart_cons {b : UInt8} {t : Text} (other : isWordByte b = false) : Apart (b :: t) := by
  intro c head
  cases head
  exact other

theorem Apart.append {code rest : Text} (first : Apart code) (second : Apart rest) :
    Apart (code ++ rest) := by
  cases code with
  | nil => exact second
  | cons b t => exact apart_cons (first b rfl)

/-- **The code is cut into these pieces,** when no word goes on behind it. -/
def Lexes (code : Text) (ps : List Piece) : Prop :=
  ∀ rest, Apart rest → lex (code ++ rest) = ps ++ lex rest

/-- The code is cut into these pieces whatever follows. -/
def Sealed (code : Text) (ps : List Piece) : Prop := ∀ rest, lex (code ++ rest) = ps ++ lex rest

section

variable {code more : Text} {ps qs : List Piece}

theorem Sealed.lexes (whole : Sealed code ps) : Lexes code ps := fun rest _ => whole rest

theorem Sealed.append (first : Sealed code ps) (second : Lexes more qs) :
    Lexes (code ++ more) (ps ++ qs) := by
  intro rest apart
  rw [List.append_assoc, first, second rest apart, List.append_assoc]

/-- A word that is followed by something else ends there. -/
theorem Lexes.append (first : Lexes code ps) (second : Lexes more qs) (start : Apart more) :
    Lexes (code ++ more) (ps ++ qs) := by
  intro rest apart
  rw [List.append_assoc, first _ (start.append apart), second rest apart, List.append_assoc]

theorem lexes_nil : Lexes [] [] := fun _ _ => rfl

theorem Lexes.lex_eq (cut : Lexes code ps) : lex code = ps := by
  have whole := cut [] fun b member => by cases member
  rwa [List.append_nil, show lex [] = [] from rfl, List.append_nil] at whole

end

theorem lexFrom_word {start t rest : Text} (word : ∀ b ∈ t, isWordByte b = true)
    (apart : Apart rest) : lexFrom (.word start) (t ++ rest) = .word (start ++ t) :: lex rest := by
  induction t generalizing start with
  | nil =>
    rw [List.nil_append, List.append_nil]
    cases rest with
    | nil => rfl
    | cons b rest =>
      have other := apart b rfl
      rw [lexFrom, if_neg (by simp [other])]
      rfl
  | cons b t ih =>
    have here := word b List.mem_cons_self
    rw [List.cons_append, lexFrom, if_pos here,
      ih fun c member => word c (List.mem_cons_of_mem b member), List.append_assoc,
      List.singleton_append]

/-- **A word is one piece.** -/
theorem lexes_word {t : Text} (given : t ≠ []) (word : ∀ b ∈ t, isWordByte b = true) :
    Lexes t [.word t] := by
  intro rest apart
  cases t with
  | nil => exact absurd rfl given
  | cons b t =>
    have start : opening b = ([], .word [b]) := by
      unfold opening
      rw [if_pos (word b List.mem_cons_self)]
    rw [lex, List.cons_append, lexFrom, start,
      lexFrom_word (fun c member => word c (List.mem_cons_of_mem b member)) apart]
    rfl

theorem lexes_identifier (name : Text) : Lexes (identifier name) [.word (identifier name)] := by
  obtain ⟨b, t, same, -⟩ := head_identifier name
  exact lexes_word (by simp [same]) fun _ => mem_identifier

/-- An escaped byte does not end a string literal. -/
theorem lexFrom_escapeByte (b : UInt8) (t : Text) :
    lexFrom .literal (escapeByte b ++ t) = lexFrom .literal t := by
  rcases escapeByte_cases b with escaped | ⟨itself, others⟩
  · have each : ∀ e ∈ escapes, lexFrom .literal (e.2 ++ t) = lexFrom .literal t := by
      simp only [escapes, List.forall_mem_cons]
      exact ⟨rfl, rfl, rfl, rfl, rfl, rfl, rfl, List.forall_mem_nil _⟩
    exact each _ escaped
  · simp only [escapes, List.forall_mem_cons] at others
    obtain ⟨backslash, quote, -⟩ := others
    rw [itself, List.singleton_append, lexFrom, if_neg backslash.symm, if_neg quote.symm]

/-- **A string literal is one piece.** -/
theorem sealed_quote (t : Text) : Sealed (quote t) [.literal] := by
  intro rest
  have inside : ∀ t : Text, lexFrom .literal (t.flatMap escapeByte ++ 34 :: rest) =
      .literal :: lex rest := by
    intro t
    induction t with
    | nil => rfl
    | cons b t ih => rw [List.flatMap_cons, List.append_assoc, lexFrom_escapeByte, ih]
  rw [quote_append]
  exact inside t

/-! ### Names in use -/

section Names

variable {names : Names} {xs : List Text}

theorem refer_pending (names : Names) (xs : List Text) :
    (xs.foldl Names.refer names).pending = names.pending := by
  induction xs generalizing names with
  | nil => rfl
  | cons x xs ih => exact ih (names.refer x)

/-- In a block without declarations every name stands for what it stands for outside. -/
theorem refer_enter (free : names.pending = []) :
    xs.foldl Names.refer names.enter = (xs.foldl Names.refer names).enter := by
  induction xs generalizing names with
  | nil => rfl
  | cons x xs ih =>
    have step : names.enter.refer x = (names.refer x).enter := by
      have same : List.findSome? (List.lookup x) ([] :: names.blocks) =
          List.findSome? (List.lookup x) names.blocks := rfl
      simp only [Names.enter, Names.refer, Names.find?, free, same]
    rw [List.foldl_cons, List.foldl_cons, step]
    exact ih free

theorem leave_enter (free : names.pending = []) : names.enter.leave = names := by
  obtain ⟨blocks, pending, declared, doubles, resolved⟩ := names
  cases free
  rfl

end Names

/-- The piece lets a name stand behind it. -/
def Neutral (previous : Option Piece) : Prop :=
  previous ≠ some (.mark 46) ∧ previous ≠ some (.word "new")

theorem neutral_mark {b : UInt8} (no_dot : b ≠ 46) : Neutral (some (.mark b)) := by
  constructor
  · simpa using no_dot
  · simp

theorem neutral_word {t : Text} (no_new : t ≠ ("new" : Text)) : Neutral (some (.word t)) := by
  constructor
  · simp
  · simpa using no_new

/-- **Reading the pieces finds the names `xs` in use,** and nothing else. -/
def Scans (ps : List Piece) (xs : List Text) : Prop :=
  ∀ previous after names, Neutral previous → after.head? ≠ some (.mark 46) → names.pending = [] →
    ∃ last, Neutral last ∧
      scan previous (ps ++ after) names = scan last after (xs.foldl Names.refer names)

namespace Scans

theorem nil : Scans [] [] := fun previous _ _ neutral _ _ => ⟨previous, neutral, rfl⟩

theorem append {ps qs : List Piece} {xs ys : List Text} (first : Scans ps xs) (second : Scans qs ys)
    (no_dot : qs.head? ≠ some (.mark 46)) : Scans (ps ++ qs) (xs ++ ys) := by
  intro previous after names neutral behind free
  have between : (qs ++ after).head? ≠ some (.mark 46) := by
    cases qs with
    | nil => exact behind
    | cons q qs => exact no_dot
  obtain ⟨middle, still, begun⟩ := first previous (qs ++ after) names neutral between free
  obtain ⟨last, neutral', done⟩ :=
    second middle after (xs.foldl Names.refer names) still behind (by rw [refer_pending, free])
  refine ⟨last, neutral', ?_⟩
  rw [List.append_assoc, begun, done, List.foldl_append]

/-- Any mark but a dot and braces. -/
theorem mark {b : UInt8} (no_dot : b ≠ 46) (no_open : b ≠ 123) (no_close : b ≠ 125) :
    Scans [.mark b] [] := by
  intro previous after names _ _ _
  refine ⟨some (.mark b), neutral_mark no_dot, ?_⟩
  rw [List.singleton_append, scan, if_neg no_open, if_neg no_close]
  rfl

theorem literal : Scans [.literal] [] :=
  fun _ _ _ _ _ _ => ⟨some .literal, ⟨by simp, by simp⟩, rfl⟩

/-- A word that starts with a digit is no name. -/
theorem number {b : UInt8} {t : Text} (digit : isDigitByte b = true) :
    Scans [.word (b :: t)] [] := by
  intro previous after names _ _ _
  have no_name : isName previous (b :: t) after.head? = false := by simp [isName, digit]
  refine ⟨some (.word (b :: t)), neutral_word ?_, ?_⟩
  · intro same
    obtain ⟨rfl, -⟩ := List.cons_eq_cons.mp (same : b :: t = 110 :: _)
    cases digit
  · rw [List.singleton_append, scan, no_name]
    rfl

/-- A reserved word is no name. -/
theorem reserved {t : Text} (known : isReserved t = true) (no_new : t ≠ ("new" : Text)) :
    Scans [.word t] [] := by
  intro previous after names _ _ _
  have no_name : isName previous t after.head? = false := by simp [isName, known]
  refine ⟨some (.word t), neutral_word no_new, ?_⟩
  rw [List.singleton_append, scan, no_name]
  rfl

/-- Neither part of a dotted name is a name of the program. -/
theorem dotted (s : Text) {t : Text} (no_new : t ≠ ("new" : Text)) :
    Scans [.word s, .mark 46, .word t] [] := by
  intro previous after names _ _ _
  refine ⟨some (.word t), neutral_word no_new, ?_⟩
  simp [scan, isName]

/-- A member of what stands in parentheses is no name of the program. -/
theorem member {t : Text} (no_new : t ≠ ("new" : Text)) :
    Scans [.mark 41, .mark 46, .word t] [] := by
  intro previous after names _ _ _
  refine ⟨some (.word t), neutral_word no_new, ?_⟩
  simp [scan, isName]

/-- **An identifier is a name.** -/
theorem identifier (name : Text) : Scans [.word (identifier name)] [Code.identifier name] := by
  intro previous after names neutral behind _
  have is_name : isName previous (Code.identifier name) after.head? = true := by
    simp [isName, not_digit_identifier, isReserved_identifier, neutral.1, neutral.2, behind]
  refine ⟨some (.word (Code.identifier name)), neutral_word (identifier_ne_new name), ?_⟩
  rw [List.singleton_append, scan, is_name]
  rfl

/-- The braces of a list open a block without declarations. -/
theorem braces {ps : List Piece} {xs : List Text} (inside : Scans ps xs) :
    Scans (.mark 123 :: (ps ++ [.mark 125])) xs := by
  intro previous after names _ _ free
  obtain ⟨last, -, done⟩ := inside (some (.mark 123)) (.mark 125 :: after) names.enter
    (neutral_mark (by decide)) (by simp) rfl
  refine ⟨some (.mark 125), neutral_mark (by decide), ?_⟩
  calc scan previous (.mark 123 :: (ps ++ [.mark 125]) ++ after) names
      = scan (some (.mark 123)) (ps ++ .mark 125 :: after) names.enter := by
        rw [List.cons_append, List.append_assoc, scan, if_pos rfl]
        rfl
    _ = scan last (.mark 125 :: after) (xs.foldl Names.refer names).enter := by
        rw [done, refer_enter free]
    _ = scan (some (.mark 125)) after (xs.foldl Names.refer names) := by
        rw [scan, if_neg (by decide), if_pos rfl, leave_enter (by rw [refer_pending, free])]

end Scans

/-! ### Reading -/

/-- **The code reads as the names `xs` in use,** on one line, when no word goes on behind it. -/
structure Reads (code : Text) (xs : List Text) : Prop where
  pieces : ∃ ps, Lexes code ps ∧ Scans ps xs ∧ ps.head? ≠ some (.mark 46)
  oneLine : 10 ∉ code

/-- Code without names that reads so whatever follows. -/
structure Opens (code : Text) : Prop where
  pieces : ∃ ps, Sealed code ps ∧ Scans ps [] ∧ ps.head? ≠ some (.mark 46)
  oneLine : 10 ∉ code

section

variable {code more : Text} {xs ys : List Text}

theorem head?_append_ne {ps qs : List Piece} (first : ps.head? ≠ some (.mark 46))
    (second : qs.head? ≠ some (.mark 46)) : (ps ++ qs).head? ≠ some (.mark 46) := by
  cases ps with
  | nil => exact second
  | cons p ps => exact first

theorem not_mem_append {b : UInt8} (first : b ∉ code) (second : b ∉ more) : b ∉ code ++ more := by
  simp [first, second]

theorem Reads.append (first : Reads code xs) (second : Reads more ys) (start : Apart more) :
    Reads (code ++ more) (xs ++ ys) := by
  obtain ⟨⟨ps, cut, scans, no_dot⟩, line⟩ := first
  obtain ⟨⟨qs, cut', scans', no_dot'⟩, line'⟩ := second
  exact ⟨⟨ps ++ qs, cut.append cut' start, scans.append scans' no_dot',
    head?_append_ne no_dot no_dot'⟩, not_mem_append line line'⟩

theorem Opens.append (first : Opens code) (second : Reads more ys) : Reads (code ++ more) ys := by
  obtain ⟨⟨ps, cut, scans, no_dot⟩, line⟩ := first
  obtain ⟨⟨qs, cut', scans', no_dot'⟩, line'⟩ := second
  exact ⟨⟨ps ++ qs, cut.append cut', scans.append scans' no_dot',
    head?_append_ne no_dot no_dot'⟩, not_mem_append line line'⟩

theorem Opens.reads (opens : Opens code) : Reads code [] := by
  obtain ⟨⟨ps, cut, scans, no_dot⟩, line⟩ := opens
  exact ⟨⟨ps, cut.lexes, scans, no_dot⟩, line⟩

/-- A blank ends a word, so that anything may follow. -/
theorem Reads.opens (reads : Reads code []) : Opens (code ++ " ") := by
  obtain ⟨⟨ps, cut, scans, no_dot⟩, line⟩ := reads
  refine ⟨⟨ps, fun rest => ?_, scans, no_dot⟩, not_mem_append line (by decide)⟩
  rw [List.append_assoc, cut]
  · rfl
  · exact apart_cons rfl

/-- Code behind which only a mark follows. -/
theorem Reads.close (first : Reads code xs) (close : Opens more) (start : Apart more) :
    Reads (code ++ more) xs := by
  have both := first.append close.reads start
  rwa [List.append_nil] at both

end

/-- No code at all. -/
theorem reads_nil : Reads [] [] := ⟨⟨[], lexes_nil, .nil, by simp⟩, List.not_mem_nil⟩

theorem opens_blank : Opens " " := ⟨⟨[], fun _ => rfl, .nil, by simp⟩, by decide⟩

theorem opens_comma : Opens ", " :=
  ⟨⟨[.mark 44], fun _ => rfl, .mark (by decide) (by decide) (by decide), by simp⟩, by decide⟩

/-- **A list with commas reads as its members do,** one after another. -/
theorem Reads.join {values : List Text} {xss : List (List Text)}
    (members : List.Forall₂ Reads values xss) : Reads (Text.join ", " values) xss.flatten :=
  Text.join_rel reads_nil
    (fun first rest => first.append (opens_comma.append rest) (apart_cons rfl)) members

theorem not_mem_of_word {code : Text} (word : ∀ b ∈ code, isWordByte b = true) : 10 ∉ code :=
  fun member => absurd (word 10 member) (by decide)

theorem not_mem_identifier (name : Text) : 10 ∉ identifier name :=
  not_mem_of_word fun _ => mem_identifier

theorem reads_identifier (name : Text) : Reads (identifier name) [identifier name] :=
  ⟨⟨_, lexes_identifier name, .identifier name, by simp⟩, not_mem_identifier name⟩

theorem not_mem_quote (t : Text) : 10 ∉ quote t := by
  have escaped : ∀ b : UInt8, 10 ∉ escapeByte b :=
    fun b member => (not_mem_escapeByte member).2.2.1 rfl
  have ends : (10 : UInt8) ∉ ("\"" : Text) := by decide
  simp [quote, ends, escaped]

theorem reads_quote (t : Text) : Reads (quote t) [] :=
  ⟨⟨_, (sealed_quote t).lexes, .literal, by simp⟩, not_mem_quote t⟩

/-! ### Numbers -/

/-- One digit or more. -/
def IsDigits (t : Text) : Prop := t ≠ [] ∧ ∀ b ∈ t, isDigitByte b = true

/-- **A number in digits,** with a point between them or not. -/
def IsNumber (t : Text) : Prop :=
  IsDigits t ∨ ∃ whole part, IsDigits whole ∧ IsDigits part ∧ t = whole ++ 46 :: part

namespace IsDigits

variable {t : Text}

theorem word (digits : IsDigits t) : ∀ b ∈ t, isWordByte b = true :=
  fun b member => isWordByte_of_digit (digits.2 b member)

theorem lexes (digits : IsDigits t) : Lexes t [.word t] := lexes_word digits.1 digits.word

theorem scans (digits : IsDigits t) : Scans [.word t] [] := by
  cases t with
  | nil => exact absurd rfl digits.1
  | cons b t => exact .number (digits.2 b List.mem_cons_self)

/-- Digits, a point and digits are three pieces. -/
theorem lexes_decimal {part : Text} (digits : IsDigits t) (behind : IsDigits part) :
    Lexes (t ++ 46 :: part) [.word t, .mark 46, .word part] := by
  have point : Sealed [46] [.mark 46] := fun _ => rfl
  exact digits.lexes.append (point.append behind.lexes) (apart_cons rfl)

theorem ne_new (digits : IsDigits t) : t ≠ ("new" : Text) := by
  rintro rfl
  exact absurd (digits.2 110 (by decide)) (by decide)

end IsDigits

/-- **A number holds no name.** -/
theorem reads_number {t : Text} (number : IsNumber t) : Reads t [] := by
  rcases number with digits | ⟨whole, part, before, behind, rfl⟩
  · exact ⟨⟨_, digits.lexes, digits.scans, by simp⟩, not_mem_of_word digits.word⟩
  · have line : (10 : UInt8) ∉ ([46] ++ part : Text) :=
      not_mem_append (by decide) (not_mem_of_word behind.word)
    exact ⟨⟨_, before.lexes_decimal behind, .dotted whole behind.ne_new, by simp⟩,
      not_mem_append (not_mem_of_word before.word) line⟩

theorem isDigits_zero : IsDigits [48] := ⟨by simp, by simp [isDigitByte]⟩

theorem reads_zero : Reads "0.0" [] :=
  reads_number (.inr ⟨[48], [48], isDigits_zero, isDigits_zero, rfl⟩)

end Code

end Guwen
