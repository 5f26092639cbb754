/-
**Braces: the code of a program opens and closes its blocks, line by line.**

`depthAfter?` reads a text byte by byte and keeps the depth of braces; it fails where a brace closes
what none has opened. Whatever a source holds in its strings and names, an expression leaves the
depth as it was (`Balanced`) and stands on one line, and so does every line of a statement (`Tidy`).

* **`Expr.tidy_code`** — the code of a legible expression is tidy.
* `Laid` — marks whose blocks are closed again and whose lines are tidy or empty.
* **`Stmt.laid_marks`** — the marks of a legible statement are laid.
* `Indented` — each line stands behind as many copies of the indentation as braces are open.
* **`Laid.indented`** — laid marks are written as indented lines.
-/
import Guwen.Proofs.Code.Replay
import Guwen.Proofs.Text.Encoding
import Guwen.Text.Blank

namespace Guwen

namespace Code

/-! ### The depth of braces -/

/-- The depth after one more byte. -/
def braceStep (depth : Nat) (b : UInt8) : Option Nat :=
  if b = 123 then some (depth + 1)
  else if b = 125 then if depth = 0 then none else some (depth - 1)
  else some depth

/-- **The depth of braces after a text,** unless it falls below zero inside. -/
def depthAfter? (depth : Nat) (t : Text) : Option Nat := t.foldlM braceStep depth

theorem depthAfter?_append (depth : Nat) (t u : Text) :
    depthAfter? depth (t ++ u) = (depthAfter? depth t).bind fun d => depthAfter? d u :=
  List.foldlM_append

theorem depthAfter?_cons (depth : Nat) (b : UInt8) (t : Text) :
    depthAfter? depth (b :: t) = (braceStep depth b).bind fun d => depthAfter? d t :=
  List.foldlM_cons

theorem braceStep_eq_some {depth next : Nat} {b : UInt8} (step : braceStep depth b = some next) :
    depth + [b].count 123 = next + [b].count 125 := by
  unfold braceStep at step
  split at step
  · rename_i opens
    cases step
    simp [opens]
  split at step
  · rename_i closes
    split at step
    · cases step
    · rename_i inside
      cases step
      simp [closes]
      omega
  · rename_i no_open no_close
    cases step
    simp [no_open, no_close]

/-- The depth after a text is what it opens less what it closes. -/
theorem count_of_depthAfter? {depth after : Nat} {t : Text}
    (reached : depthAfter? depth t = some after) :
    depth + t.count 123 = after + t.count 125 := by
  induction t generalizing depth with
  | nil =>
    cases reached
    rfl
  | cons b t ih =>
    rw [depthAfter?_cons] at reached
    obtain ⟨next, step, rest⟩ := Option.bind_eq_some_iff.mp reached
    have here := braceStep_eq_some step
    have later := ih rest
    rw [← List.singleton_append, List.count_append, List.count_append]
    omega

/-- Where the depth is known behind a text, it is known inside. -/
theorem depthAfter?_of_prefix {depth after : Nat} {t u : Text} (within : u <+: t)
    (reached : depthAfter? depth t = some after) : ∃ inside, depthAfter? depth u = some inside := by
  obtain ⟨rest, rfl⟩ := within
  rw [depthAfter?_append] at reached
  obtain ⟨inside, here, -⟩ := Option.bind_eq_some_iff.mp reached
  exact ⟨inside, here⟩

/-- **The text closes the braces it opens,** and no others. -/
def Balanced (t : Text) : Prop := ∀ depth, depthAfter? depth t = some depth

theorem Balanced.append {t u : Text} (first : Balanced t) (second : Balanced u) :
    Balanced (t ++ u) := by
  intro depth
  rw [depthAfter?_append, first]
  exact second depth

/-- The text holds no brace and no line feed. -/
def IsBraceless (t : Text) : Prop := ∀ b ∈ t, b ≠ 10 ∧ b ≠ 123 ∧ b ≠ 125

instance (t : Text) : Decidable (IsBraceless t) := List.decidableBAll _ t

theorem IsBraceless.balanced {t : Text} (plain : IsBraceless t) : Balanced t := by
  intro depth
  induction t with
  | nil => rfl
  | cons b t ih =>
    obtain ⟨-, no_open, no_close⟩ := plain b List.mem_cons_self
    have stays : braceStep depth b = some depth := by simp [braceStep, no_open, no_close]
    rw [depthAfter?_cons, stays]
    exact ih fun c member => plain c (List.mem_cons_of_mem b member)

/-! ### Tidy code -/

/-- **Part of a line:** its braces are balanced. -/
structure Flat (code : Text) : Prop where
  oneLine : 10 ∉ code
  balanced : Balanced code

theorem IsBraceless.flat {t : Text} (plain : IsBraceless t) : Flat t :=
  ⟨fun member => (plain 10 member).1 rfl, plain.balanced⟩

theorem Flat.append {code more : Text} (first : Flat code) (second : Flat more) :
    Flat (code ++ more) :=
  ⟨not_mem_append first.oneLine second.oneLine, first.balanced.append second.balanced⟩

/-- A byte that a line of code can start with: one that shows, but no closing brace. A name that is
hashed starts with the byte 232. -/
def showsByte (b : UInt8) : Bool := (33 ≤ b && b ≤ 126 && b != 125) || b == 232

/-- **A line of code,** without its indentation. -/
structure Tidy (code : Text) : Prop extends Flat code where
  starts : code.head?.any showsByte = true

theorem Tidy.append {code more : Text} (first : Tidy code) (second : Flat more) :
    Tidy (code ++ more) := by
  refine ⟨first.toFlat.append second, ?_⟩
  obtain ⟨-, starts⟩ := first
  cases code with
  | nil => cases starts
  | cons b code => exact starts

theorem tidy_of_braceless {code : Text} (plain : IsBraceless code)
    (starts : code.head?.any showsByte = true) : Tidy code := ⟨plain.flat, starts⟩

theorem flat_word {t : Text} (word : ∀ b ∈ t, isWordByte b = true) : Flat t := by
  refine IsBraceless.flat fun b member => ?_
  have known := word b member
  refine ⟨?_, ?_, ?_⟩ <;> rintro rfl <;> exact absurd known (by decide)

theorem showsByte_of_word {b : UInt8} (word : isLetterByte b = true ∨ isDigitByte b = true) :
    showsByte b = true := by
  simp only [isLetterByte, isDigitByte, showsByte, Bool.or_eq_true, Bool.and_eq_true,
    decide_eq_true_eq, beq_iff_eq, bne_iff_ne, UInt8.le_iff_toNat_le, ← UInt8.toNat_inj, ne_eq,
    UInt8.reduceToNat] at *
  omega

theorem tidy_identifier (name : Text) : Tidy (identifier name) := by
  refine ⟨flat_word fun b => mem_identifier, ?_⟩
  obtain ⟨b, t, same, ⟨-, -, letter⟩ | ⟨-, -, rfl⟩ | ⟨-, rfl⟩⟩ := head_identifier name
  · rw [same]
    exact showsByte_of_word (.inl letter)
  · rw [same]
    rfl
  · rw [same]
    rfl

theorem braceless_escapeByte (b : UInt8) : IsBraceless (escapeByte b) := by
  intro c member
  obtain ⟨opens, closes, line, -⟩ := not_mem_escapeByte member
  exact ⟨line, opens, closes⟩

theorem tidy_quote (t : Text) : Tidy (quote t) := by
  refine tidy_of_braceless (fun b member => ?_) rfl
  unfold quote at member
  rw [List.mem_append, List.mem_append] at member
  rcases member with (start | inside) | finish
  · rw [List.mem_singleton.mp start]
    decide
  · obtain ⟨a, -, here⟩ := List.mem_flatMap.mp inside
    exact braceless_escapeByte a b here
  · rw [List.mem_singleton.mp finish]
    decide

theorem tidy_digits {t : Text} (digits : IsDigits t) : Tidy t := by
  refine ⟨flat_word digits.word, ?_⟩
  obtain ⟨some, all⟩ := digits
  cases t with
  | nil => exact absurd rfl some
  | cons b t => exact showsByte_of_word (.inr (all b List.mem_cons_self))

theorem tidy_number {t : Text} (number : IsNumber t) : Tidy t := by
  rcases number with digits | ⟨whole, part, before, behind, rfl⟩
  · exact tidy_digits digits
  · have point : Flat [46] := IsBraceless.flat (by decide)
    exact (tidy_digits before).append (point.append (tidy_digits behind).toFlat)

theorem flat_join {values : List Text} (members : ∀ value ∈ values, Tidy value) :
    Flat (Text.join ", " values) := by
  have comma : Flat ", " := IsBraceless.flat (by decide)
  exact Text.join_good (IsBraceless.flat (by decide))
    (fun first rest => first.append (comma.append rest))
    fun value member => (members value member).toFlat

/-- The braces of a list close what they open. -/
theorem tidy_list {values : List Text} (members : ∀ value ∈ values, Tidy value) :
    Tidy ("new List<object> \x7b " ++ (Text.join ", " values ++ " \x7d")) := by
  obtain ⟨line, balanced⟩ := flat_join members
  refine ⟨⟨not_mem_append (by decide) (not_mem_append line (by decide)), fun depth => ?_⟩, rfl⟩
  have opened : depthAfter? depth "new List<object> \x7b " = some (depth + 1) := rfl
  have closed : depthAfter? (depth + 1) " \x7d" = some depth := rfl
  rw [depthAfter?_append, opened, Option.bind_some, depthAfter?_append, balanced,
    Option.bind_some, closed]

theorem tidy_render {b : Builtin} (known : b ∈ Builtin.all) {values : List Text}
    (members : ∀ value ∈ values, Tidy value) : Tidy (b.render values) := by
  have fixed (code : Text) (plain : IsBraceless code) (starts : code.head?.any showsByte = true) :
      Tidy ((Builtin.Form.fixed code).fill values) := tidy_of_braceless plain starts
  have first (before after absent : Text) (opens : Tidy before) (closes : IsBraceless after)
      (none : Tidy absent) : Tidy ((Builtin.Form.first before after absent).fill values) := by
    cases values with
    | nil => exact none
    | cons value _ =>
      exact (opens.append (members value List.mem_cons_self).toFlat).append closes.flat
  simp only [Builtin.all, List.mem_cons, List.not_mem_nil, or_false] at known
  rcases known with rfl | rfl | rfl | rfl | rfl | rfl | rfl
  · have opens : Tidy "Console.WriteLine(" := tidy_of_braceless (by decide) rfl
    exact (opens.append (flat_join members)).append (IsBraceless.flat (by decide))
  · exact fixed _ (by decide) rfl
  · exact first _ _ _ (tidy_of_braceless (by decide) rfl) (by decide)
      (tidy_of_braceless (by decide) rfl)
  · exact first _ _ _ (tidy_of_braceless (by decide) rfl) (by decide)
      (tidy_of_braceless (by decide) rfl)
  · exact fixed _ (by decide) rfl
  · exact fixed _ (by decide) rfl
  · exact fixed _ (by decide) rfl

theorem flat_sign {op : Operator} (known : op ∈ Operator.all) : Flat op.sign := by
  have signs : ∀ op ∈ Operator.all, IsBraceless op.sign := by decide
  exact (signs op known).flat

end Code

/-! ### Expressions -/

section

open Code

theorem composes_tidy : Composes Tidy where
  group known left right := by
    have opens : Tidy "(" := tidy_of_braceless (by decide) rfl
    have blank : Flat " " := IsBraceless.flat (by decide)
    have closes : Flat ")" := IsBraceless.flat (by decide)
    exact (((((opens.append left.toFlat).append blank).append (flat_sign known)).append
      blank).append right.toFlat).append closes
  literal := tidy_quote
  number := tidy_number
  name := tidy_identifier
  builtin known := tidy_render known
  call name _ members := by
    have opens : Flat "(" := IsBraceless.flat (by decide)
    have closes : Flat ")" := IsBraceless.flat (by decide)
    exact (((tidy_identifier name).append opens).append (flat_join members)).append closes
  list members := by
    rw [List.append_assoc]
    exact tidy_list members

/-- **The code of an expression stands on one line and closes the braces it opens.** -/
theorem Expr.tidy_code (e : Expr) (legible : e.Legible) (code : Text)
    (written : e.code = .ok code) : Tidy code :=
  e.good_code composes_tidy legible code written

theorem tidy_optionCode {absent : Text} (default : Tidy absent) {value : Option Expr}
    (legible : optionLegible value) {code : Text} (written : optionCode absent value = .ok code) :
    Tidy code := by
  cases value with
  | none =>
    cases written
    exact default
  | some e => exact e.tidy_code legible code written

end

/-! ### Statements -/

namespace Code

/-- **Marks whose blocks are closed again,** with lines that are tidy or empty. -/
inductive Laid : List Mark → Prop where
  | nil : Laid []
  | line {code : Text} {marks : List Mark} (tidy : code = [] ∨ Tidy code) (rest : Laid marks) :
      Laid (.line code :: marks)
  | block {inner marks : List Mark} (inside : Laid inner) (rest : Laid marks) :
      Laid (Mark.enclose inner ++ marks)

namespace Laid

variable {marks more : List Mark}

theorem append (first : Laid marks) (second : Laid more) : Laid (marks ++ more) := by
  induction first with
  | nil => exact second
  | line tidy _ ih => exact .line tidy ih
  | block inside _ _ ih =>
    rw [List.append_assoc]
    exact .block inside ih

theorem single {code : Text} (tidy : Tidy code) : Laid [.line code] := .line (.inr tidy) .nil

theorem enclose (inner : Laid marks) : Laid (Mark.enclose marks) := by
  have whole := inner.block .nil
  rwa [List.append_nil] at whole

/-- A line and the block it introduces. -/
theorem headed {code : Text} (tidy : Tidy code) (inner : Laid marks) :
    Laid (.line code :: Mark.enclose marks) := .line (.inr tidy) inner.enclose

end Laid

theorem tidy_typeOf (word : Text) : Tidy (typeOf word) := by
  rcases typeOf_cases word with same | same | same | same <;> rw [same] <;>
    exact tidy_of_braceless (by decide) rfl

theorem tidy_defaultOf (word : Text) : Tidy (defaultOf (typeOf word)) := by
  rcases typeOf_cases word with same | same | same | same <;> rw [same] <;>
    exact tidy_of_braceless (by decide) rfl

theorem tidy_param (p : Param) : Tidy p.code :=
  ((tidy_typeOf p.type.lexeme).append (IsBraceless.flat (by decide))).append
    (tidy_identifier p.name.lexeme).toFlat

/-- Code between two fixed parts. -/
theorem Tidy.between {before code after : Text} (inside : Tidy code) (opens : IsBraceless before)
    (starts : before.head?.any showsByte = true) (closes : IsBraceless after) :
    Tidy (before ++ code ++ after) :=
  ((tidy_of_braceless opens starts).append inside.toFlat).append closes.flat

theorem tidy_assignment (name : Text) {value : Text} (tidy : Tidy value) :
    Tidy (identifier name ++ " = " ++ value ++ ";") := by
  have equals : Flat " = " := IsBraceless.flat (by decide)
  have ends : Flat ";" := IsBraceless.flat (by decide)
  exact (((tidy_identifier name).append equals).append tidy.toFlat).append ends

theorem tidy_declaration (word name : Text) {value : Text} (tidy : Tidy value) :
    Tidy (typeOf word ++ " " ++ identifier name ++ " = " ++ value ++ ";") := by
  have blank : Flat " " := IsBraceless.flat (by decide)
  have whole := ((tidy_typeOf word).append blank).append (tidy_assignment name tidy).toFlat
  simpa only [List.append_assoc] using whole

theorem tidy_head (name : Text) (params : List Param) : Tidy ("dynamic " ++ identifier name ++ "("
    ++ Text.join ", " (params.map Param.code) ++ ")") := by
  have opens : Tidy "dynamic " := tidy_of_braceless (by decide) rfl
  have left : Flat "(" := IsBraceless.flat (by decide)
  have right : Flat ")" := IsBraceless.flat (by decide)
  have values : Flat (Text.join ", " (params.map Param.code)) := by
    refine flat_join fun value member => ?_
    obtain ⟨p, -, rfl⟩ := List.mem_map.mp member
    exact tidy_param p
  exact (((opens.append (tidy_identifier name).toFlat).append left).append values).append right

theorem laid_closingReturn (body : List Stmt) : Laid (closingReturn body) := by
  unfold closingReturn
  split
  · exact .nil
  · exact .single (tidy_of_braceless (by decide) rfl)

end Code

section

open Code

mutual

/-- **The lines of a statement are tidy, and its blocks are closed again.** -/
theorem Stmt.laid_marks : ∀ s : Stmt, s.Legible → ∀ marks, s.marks = .ok marks → Laid marks
  | .declare _ type name value, legible, marks, written => by
    rw [Stmt.marks] at written
    obtain ⟨code, codeWritten, written⟩ := bind_eq_ok.mp written
    cases written
    exact .single (tidy_declaration type.lexeme name.lexeme
      (tidy_optionCode (tidy_defaultOf type.lexeme) legible codeWritten))
  | .function _ name params body, legible, marks, written => by
    rw [Stmt.marks] at written
    obtain ⟨inner, innerWritten, written⟩ := bind_eq_ok.mp written
    cases written
    have inside := (laid_stmtMarks body legible inner innerWritten).append (laid_closingReturn body)
    exact inside.headed (tidy_head name.lexeme params)
  | .conditional _ condition yes no, legible, marks, written => by
    obtain ⟨first, second, third⟩ := legible
    rw [Stmt.marks] at written
    obtain ⟨code, codeWritten, written⟩ := bind_eq_ok.mp written
    obtain ⟨yesMarks, yesWritten, written⟩ := bind_eq_ok.mp written
    have head : Tidy ("if (" ++ code ++ ")") :=
      (condition.tidy_code first code codeWritten).between (by decide) rfl (by decide)
    have branch := (laid_stmtMarks yes second yesMarks yesWritten).headed head
    by_cases empty : no.isEmpty = true
    · rw [if_pos empty] at written
      cases written
      exact branch
    · rw [if_neg empty] at written
      obtain ⟨noMarks, noWritten, written⟩ := bind_eq_ok.mp written
      cases written
      have otherwise : Tidy "else" := tidy_of_braceless (by decide) rfl
      exact branch.append ((laid_stmtMarks no third noMarks noWritten).headed otherwise)
  | .loop _ body, legible, marks, written => by
    rw [Stmt.marks] at written
    obtain ⟨inner, innerWritten, written⟩ := bind_eq_ok.mp written
    cases written
    have head : Tidy "while (true)" := tidy_of_braceless (by decide) rfl
    exact (laid_stmtMarks body legible inner innerWritten).headed head
  | .print _ value, legible, marks, written => by
    rw [Stmt.marks] at written
    obtain ⟨code, codeWritten, written⟩ := bind_eq_ok.mp written
    cases written
    exact .single
      ((value.tidy_code legible code codeWritten).between (by decide) rfl (by decide))
  | .returns _ value, legible, marks, written => by
    rw [Stmt.marks] at written
    obtain ⟨code, codeWritten, written⟩ := bind_eq_ok.mp written
    cases written
    have null : Tidy "null" := tidy_of_braceless (by decide) rfl
    exact .single ((tidy_optionCode null legible codeWritten).between (by decide) rfl (by decide))
  | .assign name value, legible, marks, written => by
    rw [Stmt.marks] at written
    obtain ⟨code, codeWritten, written⟩ := bind_eq_ok.mp written
    cases written
    exact .single (tidy_assignment name.lexeme (value.tidy_code legible code codeWritten))
  | .breaks _, _, marks, written => by
    rw [Stmt.marks] at written
    cases written
    exact .single (tidy_of_braceless (by decide) rfl)
  | .perform _ value, legible, marks, written => by
    rw [Stmt.marks] at written
    obtain ⟨code, codeWritten, written⟩ := bind_eq_ok.mp written
    cases written
    exact .single ((value.tidy_code legible code codeWritten).append (IsBraceless.flat (by decide)))
  | .param _, legible, _, _ => legible.elim
  | .missing, legible, _, _ => legible.elim

/-- The marks of statements are laid. -/
theorem laid_stmtMarks : ∀ ss : List Stmt, stmtsLegible ss → ∀ marks, stmtMarks ss = .ok marks →
    Laid marks
  | [], _, marks, written => by
    cases written
    exact .nil
  | s :: ss, legible, marks, written => by
    rw [stmtMarks] at written
    obtain ⟨first, firstWritten, written⟩ := bind_eq_ok.mp written
    obtain ⟨rest, restWritten, written⟩ := bind_eq_ok.mp written
    cases written
    exact (s.laid_marks legible.1 first firstWritten).append
      (laid_stmtMarks ss legible.2 rest restWritten)

end

end

/-! ### Lines -/

namespace Code

/-- The line that a mark at a level writes. -/
def Mark.lineOf (indent : Text) (level : Nat) : Mark → Text
  | line code => if code.isEmpty then [] else Text.replicate level indent ++ code
  | openBlock => Text.replicate level indent ++ "\x7b"
  | closeBlock => Text.replicate (level - 1) indent ++ "\x7d"

/-- **The lines of marks that start at a level.** -/
def Mark.lines (indent : Text) : Nat → List Mark → List Text
  | _, [] => []
  | level, mark :: marks => mark.lineOf indent level :: lines indent (mark.levelAfter level) marks

/-- The text of marks is that of their lines, with a line feed behind each. -/
theorem layout_eq (indent : Text) (level : Nat) (marks : List Mark) :
    Mark.layout indent level marks = (Mark.lines indent level marks).flatMap (· ++ [10]) := by
  induction marks generalizing level with
  | nil => rfl
  | cons mark marks ih =>
    have here : mark.text indent level = mark.lineOf indent level ++ [10] := by
      cases mark with
      | line code =>
        by_cases empty : code.isEmpty = true
        · rw [Mark.text, lineAt, if_pos empty, Mark.lineOf, if_pos empty]
          rfl
        · rw [Mark.text, lineAt, if_neg empty, Mark.lineOf, if_neg empty]
          rfl
      | openBlock => rfl
      | closeBlock => rfl
    rw [Mark.layout, Mark.lines, List.flatMap_cons, here, ih]

theorem lines_append (indent : Text) (level : Nat) (marks more : List Mark) :
    Mark.lines indent level (marks ++ more) = Mark.lines indent level marks ++
      Mark.lines indent (marks.foldl Mark.levelAfter level) more := by
  induction marks generalizing level with
  | nil => rfl
  | cons mark marks ih => rw [List.cons_append, Mark.lines, ih, Mark.lines, List.foldl_cons]; rfl

/-- Laid marks end at the level where they start. -/
theorem Laid.level {marks : List Mark} (laid : Laid marks) (level : Nat) :
    marks.foldl Mark.levelAfter level = level := by
  induction laid generalizing level with
  | nil => rfl
  | line _ _ ih => exact ih level
  | @block inner marks _ _ ihInner ihRest =>
    have inside : (Mark.openBlock :: inner).foldl Mark.levelAfter level = level + 1 :=
      ihInner (level + 1)
    rw [Mark.enclose, List.foldl_append, List.foldl_append, inside]
    exact ihRest level

/-- **The text starts with something that shows,** and not with white space. -/
def Shows (t : Text) : Prop := ∃ c cs, t.chars = c :: cs ∧ isBlank c = false

theorem isBlank_of_high {c : Char} (high : 0x3000 < c.toNat) : isBlank c = false := by
  simp only [isBlank, CharSet.contains, CharSet.blank, List.any_cons, List.any_nil, Bool.or_false,
    Bool.or_eq_false_iff, Bool.and_eq_false_iff, decide_eq_false_iff_not]
  omega

/-- The byte 232 starts a character beyond all blanks, or is stray. -/
theorem isBlank_lead_hash (t : Text) : isBlank (Text.lead 232 t).1.reading = false := by
  have pair : Text.pair? 232 t = none := by
    unfold Text.pair?
    split
    · rw [if_neg (by decide)]
    · rfl
  have quad : Text.quad? 232 t = none := by
    unfold Text.quad?
    split
    · rw [if_neg (by decide)]
    · rfl
  unfold Text.lead
  rw [if_neg (by decide), pair, quad]
  cases found : Text.triple? 232 t with
  | none => decide
  | some read =>
    obtain ⟨c, more⟩ := read
    have high := Text.le_toNat_of_triple? found
    rw [show (232 : UInt8).toNat = 232 from rfl] at high
    have beyond : 0x3000 < c.toNat := by omega
    exact isBlank_of_high beyond

theorem shows_of_starts {code : Text} (starts : code.head?.any showsByte = true) :
    Shows code ∧ code ≠ ("\x7d" : Text) := by
  have ascii : ∀ n < 127, 33 ≤ n → isBlank (Char.ofNat n) = false := by decide
  cases code with
  | nil => cases starts
  | cons b t =>
    refine ⟨⟨_, _, rfl, ?_⟩, fun same => ?_⟩
    · simp only [List.head?_cons, Option.any_some, showsByte, Bool.or_eq_true, Bool.and_eq_true,
        decide_eq_true_eq, UInt8.le_iff_toNat_le, UInt8.reduceToNat, beq_iff_eq] at starts
      rcases starts with ⟨⟨low, high⟩, -⟩ | rfl
      · unfold Text.lead
        rw [if_pos (by omega)]
        exact ascii b.toNat (by omega) low
      · exact isBlank_lead_hash t
    · rw [same] at starts
      exact absurd starts (by decide)

/-- **How a line at a depth of braces is written:** it is empty, or it closes a block and stands as
far as the line that opened it, or it stands behind as many copies of the indentation as the depth
says. -/
def StandsAt (indent : Text) (depth : Nat) (line : Text) : Prop :=
  line = [] ∨ (1 ≤ depth ∧ line = Text.replicate (depth - 1) indent ++ "\x7d") ∨
    ∃ code, Shows code ∧ code ≠ ("\x7d" : Text) ∧ line = Text.replicate depth indent ++ code

/-- **Each of the lines stands where the depth of braces says,** from one depth to another. -/
inductive Indented (indent : Text) : Nat → List Text → Nat → Prop where
  | nil {depth : Nat} : Indented indent depth [] depth
  | cons {depth next last : Nat} {line : Text} {lines : List Text} (one : 10 ∉ line)
      (stands : StandsAt indent depth line) (reached : depthAfter? depth line = some next)
      (rest : Indented indent next lines last) : Indented indent depth (line :: lines) last

theorem Indented.append {indent : Text} {first mid last : Nat} {lines more : List Text}
    (before : Indented indent first lines mid) (behind : Indented indent mid more last) :
    Indented indent first (lines ++ more) last := by
  induction before with
  | nil => exact behind
  | cons one stands reached _ ih => exact .cons one stands reached (ih behind)

theorem Indented.single {indent : Text} {depth next : Nat} {line : Text} (one : 10 ∉ line)
    (stands : StandsAt indent depth line) (reached : depthAfter? depth line = some next) :
    Indented indent depth [line] next := .cons one stands reached .nil

theorem IsBraceless.replicate {indent : Text} (plain : IsBraceless indent) (n : Nat) :
    IsBraceless (Text.replicate n indent) := by
  intro b member
  obtain ⟨copy, inside, here⟩ := List.mem_flatten.mp member
  exact plain b (List.eq_of_mem_replicate inside ▸ here)

theorem depthAfter?_replicate {indent : Text} (plain : IsBraceless indent) (n depth : Nat)
    (code : Text) :
    depthAfter? depth (Text.replicate n indent ++ code) = depthAfter? depth code := by
  rw [depthAfter?_append, (plain.replicate n).balanced]
  rfl

/-- **Laid marks are written as indented lines.** -/
theorem Laid.indented {indent : Text} (plain : IsBraceless indent) {marks : List Mark}
    (laid : Laid marks) (level : Nat) :
    Indented indent level (Mark.lines indent level marks) level := by
  induction laid generalizing level with
  | nil => exact .nil
  | @line code marks tidy _ ih =>
    rcases tidy with rfl | ⟨⟨one, balanced⟩, starts⟩
    · exact .cons List.not_mem_nil (.inl rfl) rfl (ih level)
    · have some : code.isEmpty = false := by cases code <;> first | rfl | cases starts
      have same : Mark.lineOf indent level (.line code) = Text.replicate level indent ++ code := by
        simp [Mark.lineOf, some]
      have shows := shows_of_starts starts
      rw [Mark.lines, same]
      refine .cons (not_mem_append (plain.replicate level).flat.oneLine one)
        (.inr (.inr ⟨code, shows.1, shows.2, rfl⟩)) ?_ (ih level)
      rw [depthAfter?_replicate plain, balanced]
  | @block inner marks inside _ ihInner ihRest =>
    have opened : Indented indent level [Mark.lineOf indent level .openBlock] (level + 1) := by
      have shows : Shows "\x7b" ∧ ("\x7b" : Text) ≠ ("\x7d" : Text) := shows_of_starts rfl
      refine .single (not_mem_append (plain.replicate level).flat.oneLine (by decide))
        (.inr (.inr ⟨_, shows.1, shows.2, rfl⟩)) ?_
      rw [Mark.lineOf, depthAfter?_replicate plain]
      rfl
    have closed :
        Indented indent (level + 1) [Mark.lineOf indent (level + 1) .closeBlock] level := by
      refine .single (not_mem_append (plain.replicate level).flat.oneLine (by decide))
        (.inr (.inl ⟨Nat.le_add_left 1 level, rfl⟩)) ?_
      rw [Mark.lineOf, depthAfter?_replicate plain]
      rfl
    have block : Mark.lines indent level (Mark.enclose inner ++ marks) =
        [Mark.lineOf indent level .openBlock] ++ (Mark.lines indent (level + 1) inner ++
          ([Mark.lineOf indent (level + 1) .closeBlock] ++ Mark.lines indent level marks)) := by
      rw [Mark.enclose, List.cons_append, List.cons_append, List.append_assoc, Mark.lines,
        lines_append, inside.level]
      rfl
    rw [block]
    exact opened.append ((ihInner (level + 1)).append (closed.append (ihRest level)))

/-! ### Reading the lines back -/

/-- The lines of a text that is written line by line. -/
theorem split_flatMap (lines : List Text) :
    List.splitOn 10 (lines.flatMap (· ++ [10])) = lines.flatMap (List.splitOn 10) ++ [[]] := by
  induction lines with
  | nil => rfl
  | cons line lines ih =>
    rw [List.flatMap_cons, List.append_assoc, List.singleton_append,
      List.splitOn_append_cons_self, ih, List.flatMap_cons, List.append_assoc]

namespace Indented

variable {indent : Text} {first last : Nat} {lines : List Text}

theorem oneLine (indented : Indented indent first lines last) : ∀ line ∈ lines, 10 ∉ line := by
  induction indented with
  | nil => exact fun _ member => absurd member List.not_mem_nil
  | cons one _ _ _ ih => exact List.forall_mem_cons.mpr ⟨one, ih⟩

theorem depth (indented : Indented indent first lines last) :
    depthAfter? first (lines.flatMap (· ++ [10])) = some last := by
  induction indented with
  | nil => rfl
  | cons _ _ reached _ ih =>
    rw [List.flatMap_cons, List.append_assoc, depthAfter?_append, reached, Option.bind_some]
    exact ih

/-- A line stands where the braces before it say. -/
theorem standsAt {before after : List Text} {line : Text}
    (indented : Indented indent first (before ++ line :: after) last) :
    ∃ depth, depthAfter? first before.flatten = some depth ∧ StandsAt indent depth line := by
  induction before generalizing first with
  | nil =>
    cases indented with
    | cons _ stands _ _ => exact ⟨first, rfl, stands⟩
  | cons head before ih =>
    cases indented with
    | cons _ _ reached rest =>
      obtain ⟨depth, inside, stands⟩ := ih rest
      refine ⟨depth, ?_, stands⟩
      rw [List.flatten_cons, depthAfter?_append, reached]
      exact inside

end Indented

end Code

end Guwen
