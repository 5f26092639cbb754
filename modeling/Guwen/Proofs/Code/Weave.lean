/-
**Code is woven from texts without line breaks and string literals.**

Names are plain or hashed, numbers are digits, and the rest of the code is fixed. So a character of
the source that ends a line can come into the code through a string literal only.

* `Unbroken` — a text without a line break.
* **`Woven code ts`** — the code is made of such texts and of the literals of the texts `ts`, in
  order; `Woven.exists_chars` — so its line breaks are those that the literals do not escape.
* `Expr.strings` — the texts of an expression that are written as literals.
* **`Expr.woven_code`**, **`woven_stmtMarks`** — the code of an expression, and the lines of a
  program, are woven from its texts.
-/
import Guwen.Proofs.Code.Braces
import Guwen.Proofs.Code.RegularLiteral
import Guwen.Proofs.Grammar.Occurrences

namespace Guwen

namespace Code

/-! ### Texts without line breaks -/

/-- **A text of characters none of which ends a line.** -/
def Unbroken (t : Text) : Prop := ∃ cs, t = Text.ofChars cs ∧ ∀ c ∈ cs, isLineBreak c = false

theorem unbroken_nil : Unbroken [] := ⟨[], rfl, fun _ member => absurd member List.not_mem_nil⟩

theorem unbroken_ofString {s : String} (free : (s.toList.all fun c => !isLineBreak c) = true) :
    Unbroken s :=
  ⟨s.toList, rfl, fun c member => by simpa using List.all_eq_true.mp free c member⟩

theorem Unbroken.append {t u : Text} (first : Unbroken t) (second : Unbroken u) :
    Unbroken (t ++ u) := by
  obtain ⟨cs, rfl, free⟩ := first
  obtain ⟨ds, rfl, free'⟩ := second
  exact ⟨cs ++ ds, (Text.ofChars_append cs ds).symm, List.forall_mem_append.mpr ⟨free, free'⟩⟩

/-- Letters, digits, `@` and the point. -/
theorem unbroken_of_bytes {t : Text}
    (bytes : ∀ b ∈ t, isLetterByte b = true ∨ isDigitByte b = true ∨ b = 46 ∨ b = 64) :
    Unbroken t := by
  have each : ∀ n < 256, (isLetterByte n.toUInt8 = true ∨ isDigitByte n.toUInt8 = true ∨
      n.toUInt8 = 46 ∨ n.toUInt8 = 64) →
      [n.toUInt8] = Text.encode (Char.ofNat n) ∧ isLineBreak (Char.ofNat n) = false := by
    decide +kernel
  induction t with
  | nil => exact unbroken_nil
  | cons b t ih =>
    obtain ⟨here, rest⟩ := List.forall_mem_cons.mp bytes
    have byte := each b.toNat b.toNat_lt
    rw [show b.toNat.toUInt8 = b from UInt8.ofNat_toNat] at byte
    obtain ⟨encoded, free⟩ := byte here
    have single : Unbroken [b] := by
      refine ⟨[Char.ofNat b.toNat], encoded.trans (List.append_nil _).symm, ?_⟩
      simpa using free
    exact single.append (ih rest)

theorem unbroken_number {t : Text} (number : IsNumber t) : Unbroken t := by
  refine unbroken_of_bytes fun b member => ?_
  rcases number with digits | ⟨whole, part, before, behind, rfl⟩
  · exact .inr (.inl (digits.2 b member))
  · rcases List.mem_append.mp member with inside | inside
    · exact .inr (.inl (before.2 b inside))
    · rcases List.mem_cons.mp inside with rfl | inside
      · exact .inr (.inr (.inl rfl))
      · exact .inr (.inl (behind.2 b inside))

theorem unbroken_hex (width n : Nat) : Unbroken (Text.hex width n) := by
  induction width generalizing n with
  | zero => exact unbroken_nil
  | succ width ih =>
    have digits : ∀ a < 16, isLineBreak (Nat.digitChar a) = false := by decide
    have last : Unbroken (Text.ofChars [Nat.digitChar (n % 16)]) :=
      ⟨_, rfl, by simpa using digits (n % 16) (Nat.mod_lt _ (by decide))⟩
    exact (ih (n / 16)).append last

/-- **An identifier has no line break,** whatever the name. -/
theorem unbroken_identifier (name : Text) : Unbroken (identifier name) := by
  have plain {name : Text} (isPlain : isPlain name = true) :
      ∀ b ∈ name, isLetterByte b = true ∨ isDigitByte b = true := by
    cases name with
    | nil => exact fun _ member => absurd member List.not_mem_nil
    | cons b t =>
      obtain ⟨letter, others⟩ := isPlain_cons.mp isPlain
      exact List.forall_mem_cons.mpr ⟨.inl letter, others⟩
  rcases identifier_cases name with ⟨isPlain, -, same⟩ | ⟨isPlain, -, same⟩ | ⟨-, same⟩
  · rw [same]
    exact unbroken_of_bytes fun b member => (plain isPlain b member).imp_right .inl
  · rw [same]
    refine unbroken_of_bytes (List.forall_mem_cons.mpr ⟨.inr (.inr (.inr rfl)), ?_⟩)
    exact fun b member => (plain isPlain b member).imp_right .inl
  · rw [same]
    exact (unbroken_ofString (by decide)).append (unbroken_hex 16 _)

theorem unbroken_sign {op : Operator} (known : op ∈ Operator.all) : Unbroken op.sign := by
  simp only [Operator.all, List.mem_cons, List.not_mem_nil, or_false] at known
  rcases known with rfl | rfl | rfl | rfl | rfl | rfl | rfl
  all_goals exact unbroken_ofString (by decide)

/-! ### Woven code -/

/-- **The code is made of texts without line breaks and of the literals of `ts`,** in order. -/
inductive Woven : Text → List Text → Prop where
  | nil : Woven [] []
  | plain {t code : Text} {ts : List Text} (unbroken : Unbroken t) (rest : Woven code ts) :
      Woven (t ++ code) ts
  | literal (cs : List Char) {code : Text} {ts : List Text} (rest : Woven code ts) :
      Woven (quote (Text.ofChars cs) ++ code) (Text.ofChars cs :: ts)

theorem woven_unbroken {t : Text} (unbroken : Unbroken t) : Woven t [] := by
  have woven := Woven.nil.plain unbroken
  rwa [List.append_nil] at woven

theorem woven_quote (cs : List Char) : Woven (quote (Text.ofChars cs)) [Text.ofChars cs] := by
  have woven := Woven.literal cs .nil
  rwa [List.append_nil] at woven

/-- Fixed code. -/
theorem woven_fixed {s : String} (free : (s.toList.all fun c => !isLineBreak c) = true) :
    Woven s [] := woven_unbroken (unbroken_ofString free)

namespace Woven

variable {code more : Text} {ts us : List Text}

theorem append (first : Woven code ts) (second : Woven more us) :
    Woven (code ++ more) (ts ++ us) := by
  induction first with
  | nil => exact second
  | plain unbroken _ ih =>
    rw [List.append_assoc]
    exact .plain unbroken ih
  | literal cs _ ih =>
    rw [List.append_assoc]
    exact .literal cs ih

/-- Code with an unbroken text behind it. -/
theorem close (first : Woven code ts) (unbroken : Unbroken more) : Woven (code ++ more) ts := by
  have both := first.append (woven_unbroken unbroken)
  rwa [List.append_nil] at both

/-- **A list with commas is woven as its members are,** one after another. -/
theorem join {values : List Text} {tss : List (List Text)}
    (members : List.Forall₂ Woven values tss) : Woven (Text.join ", " values) tss.flatten :=
  Text.join_rel .nil
    (fun first rest => first.append (.plain (unbroken_ofString (by decide)) rest)) members

/-- **The line breaks of woven code are those that its literals do not escape,** and every literal
stands in it. -/
theorem exists_chars (woven : Woven code ts) :
    ∃ cs, code = Text.ofChars cs ∧
      cs.filter isLineBreak = (ts.flatMap Text.chars).filter isBareBreak ∧
      ∀ t ∈ ts, (quote t).chars <:+: cs := by
  induction woven with
  | nil => exact ⟨[], rfl, rfl, fun _ member => absurd member List.not_mem_nil⟩
  | plain unbroken _ ih =>
    obtain ⟨front, rfl, free⟩ := unbroken
    obtain ⟨cs, rfl, breaks, inside⟩ := ih
    refine ⟨front ++ cs, (Text.ofChars_append front cs).symm, ?_, fun t member => ?_⟩
    · have none : front.filter isLineBreak = [] :=
        List.filter_eq_nil_iff.mpr fun c member => by simp [free c member]
      rw [List.filter_append, breaks, none]
      rfl
    · exact (inside t member).trans (List.suffix_append front cs).isInfix
  | @literal front _ ts _ ih =>
    obtain ⟨cs, rfl, breaks, inside⟩ := ih
    refine ⟨(quote (Text.ofChars front)).chars ++ cs, ?_, ?_, List.forall_mem_cons.mpr ⟨?_, ?_⟩⟩
    · rw [Text.ofChars_append, chars_quote_ofChars, ← quote_ofChars]
    · rw [List.filter_append, breaks, filter_chars_quote, List.flatMap_cons, List.filter_append,
        Text.chars_ofChars]
    · exact (List.prefix_append _ cs).isInfix
    · exact fun t member => (inside t member).trans (List.suffix_append _ cs).isInfix

end Woven

/-- Lines woven from texts, one after another. -/
theorem exists_lines {lines : List Text} {tss : List (List Text)}
    (woven : List.Forall₂ Woven lines tss) :
    ∃ css : List (List Char), lines = css.map Text.ofChars ∧
      css.flatten.filter isLineBreak = (tss.flatten.flatMap Text.chars).filter isBareBreak ∧
      ∀ t ∈ tss.flatten, ∃ cs ∈ css, (quote t).chars <:+: cs := by
  induction woven with
  | nil => exact ⟨[], rfl, rfl, fun _ member => absurd member List.not_mem_nil⟩
  | cons first _ ih =>
    obtain ⟨cs, rfl, breaks, inside⟩ := first.exists_chars
    obtain ⟨css, rfl, others, rest⟩ := ih
    refine ⟨cs :: css, rfl, ?_, ?_⟩
    · rw [List.flatten_cons, List.filter_append, breaks, others, List.flatten_cons,
        List.flatMap_append, List.filter_append]
    · rw [List.flatten_cons]
      refine List.forall_mem_append.mpr ⟨fun t member => ?_, fun t member => ?_⟩
      · exact ⟨cs, List.mem_cons_self, inside t member⟩
      · obtain ⟨line, later, within⟩ := rest t member
        exact ⟨line, List.mem_cons_of_mem cs later, within⟩

/-! ### Builtins -/

section

variable {values : List Text} {tss : List (List Text)}

/-- Fixed code, in place of no arguments. -/
theorem woven_none {s : String} (free : (s.toList.all fun c => !isLineBreak c) = true)
    (members : List.Forall₂ Woven values tss) (fits : values.length ≤ 0) : Woven s tss.flatten := by
  cases members with
  | nil => exact woven_fixed free
  | cons _ _ => exact absurd fits (Nat.not_succ_le_zero _)

/-- One argument inside `before` and `after`, or `absent` when there is none. -/
theorem woven_first {before after absent : Text} (opens : Unbroken before)
    (closes : Unbroken after) (none : Unbroken absent) (members : List.Forall₂ Woven values tss)
    (fits : values.length ≤ 1) :
    Woven ((Builtin.Form.first before after absent).fill values) tss.flatten := by
  cases members with
  | nil => exact woven_unbroken none
  | @cons value ts _ _ first rest =>
    cases rest with
    | cons _ _ => exact absurd (Nat.le_of_succ_le_succ fits) (Nat.not_succ_le_zero _)
    | nil =>
      rw [List.flatten_singleton, Builtin.Form.fill, List.append_assoc]
      exact .plain opens (first.close closes)

/-- **A builtin is woven as its arguments are,** when there are no more than it takes. -/
theorem woven_render {b : Builtin} (known : b ∈ Builtin.all)
    (members : List.Forall₂ Woven values tss)
    (fits : ∀ limit ∈ b.arity, values.length ≤ limit) : Woven (b.render values) tss.flatten := by
  have fixed {s : String} (free : (s.toList.all fun c => !isLineBreak c) = true) : Unbroken s :=
    unbroken_ofString free
  simp only [Builtin.all, List.mem_cons, List.not_mem_nil, or_false] at known
  rcases known with rfl | rfl | rfl | rfl | rfl | rfl | rfl
  · rw [Builtin.render, Builtin.Form.fill, List.append_assoc]
    exact .plain (fixed (by decide)) ((Woven.join members).close (fixed (by decide)))
  · exact woven_none (by decide) members (fits 0 rfl)
  · exact woven_first (fixed (by decide)) (fixed (by decide)) (fixed (by decide)) members
      (fits 1 rfl)
  · exact woven_first (fixed (by decide)) (fixed (by decide)) (fixed (by decide)) members
      (fits 1 rfl)
  all_goals exact woven_none (by decide) members (fits 0 rfl)

end

end Code

/-! ### Expressions -/

mutual

/-- **The texts of an expression that are written as literals,** in order. -/
def Expr.strings : Expr → List Text
  | .binary _ _ left right => left.strings ++ right.strings
  | .literal _ kind text => if kind = .string then [text] else []
  | .call _ _ arguments _ => exprStrings arguments
  | .list _ elements => exprStrings elements
  | .use .. | .missing => []

/-- The texts of expressions that are written as literals. -/
def exprStrings : List Expr → List Text
  | [] => []
  | e :: es => e.strings ++ exprStrings es

end

/-- **A text that is made of characters.** -/
def Text.IsWritten (t : Text) : Prop := ∃ cs, t = Text.ofChars cs

section

open Code

mutual

/-- **The code of an expression is woven from its texts.** -/
theorem Expr.woven_code : ∀ e : Expr, e.Legible → (∀ act ∈ e.acts, act.Fits) →
    (∀ t ∈ e.strings, t.IsWritten) → ∀ code, e.code = .ok code → Woven code e.strings
  | .binary _ op left right, legible, fit, texts, code, written => by
    obtain ⟨known, first, second⟩ := legible
    obtain ⟨leftTexts, rightTexts⟩ := List.forall_mem_append.mp texts
    obtain ⟨leftFit, rightFit⟩ := List.forall_mem_append.mp fit
    rw [Expr.code] at written
    obtain ⟨leftCode, leftWritten, written⟩ := bind_eq_ok.mp written
    obtain ⟨rightCode, rightWritten, written⟩ := bind_eq_ok.mp written
    cases written
    have blank {more : Text} {ts : List Text} (woven : Woven more ts) : Woven (" " ++ more) ts :=
      .plain (unbroken_ofString (by decide)) woven
    have tail := (right.woven_code second rightFit rightTexts rightCode rightWritten).close
      (unbroken_ofString (s := ")") (by decide))
    have whole := (left.woven_code first leftFit leftTexts leftCode leftWritten).append
      (blank (.plain (unbroken_sign known) (blank tail)))
    have opened := whole.plain (unbroken_ofString (s := "(") (by decide))
    rw [Expr.strings]
    simpa only [List.append_assoc] using opened
  | .literal _ kind text, legible, _, texts, code, written => by
    rw [Expr.code] at written
    cases written
    rw [Expr.strings] at texts ⊢
    by_cases string : kind = .string
    · rw [if_pos string] at texts ⊢
      rw [if_pos string]
      obtain ⟨cs, rfl⟩ := texts text (List.mem_singleton_self text)
      exact woven_quote cs
    · rw [if_neg string, if_neg string]
      exact woven_unbroken (unbroken_number (legible.resolve_left string))
  | .use name mark, _, _, _, code, written => by
    rw [Expr.code] at written
    rw [Expr.strings]
    cases found : Builtin.standsFor? name.lexeme mark .value with
    | some b =>
      rw [found] at written
      cases written
      exact woven_render (Builtin.eq_of_standsFor? found).1 .nil fun _ _ => Nat.zero_le _
    | none =>
      rw [found] at written
      cases written
      exact woven_unbroken (unbroken_identifier name.lexeme)
  | .call _ callee arguments mark, legible, fit, texts, code, written => by
    rw [Expr.code] at written
    obtain ⟨values, valuesWritten, written⟩ := bind_eq_ok.mp written
    obtain ⟨tss, members, same⟩ := woven_exprCodes arguments legible
      (fun act member => fit act (List.mem_cons_of_mem _ member)) texts values valuesWritten
    rw [Expr.strings, ← same]
    cases found : Builtin.standsFor? callee.lexeme mark .function with
    | some b =>
      rw [found] at written
      cases written
      refine woven_render (Builtin.eq_of_standsFor? found).1 members fun limit bound => ?_
      rw [length_exprCodes valuesWritten]
      exact fit _ List.mem_cons_self callee arguments.length mark rfl b found limit bound
    | none =>
      rw [found] at written
      cases written
      have inner := (Woven.join members).close (unbroken_ofString (s := ")") (by decide))
      have whole := (inner.plain (unbroken_ofString (s := "(") (by decide))).plain
        (unbroken_identifier callee.lexeme)
      simpa only [List.append_assoc] using whole
  | .list _ elements, legible, fit, texts, code, written => by
    rw [Expr.code] at written
    obtain ⟨values, valuesWritten, written⟩ := bind_eq_ok.mp written
    cases written
    obtain ⟨tss, members, same⟩ := woven_exprCodes elements legible fit texts values valuesWritten
    rw [Expr.strings, ← same]
    have inner := (Woven.join members).close (unbroken_ofString (s := " \x7d") (by decide))
    have whole := inner.plain (unbroken_ofString (s := "new List<object> \x7b ") (by decide))
    simpa only [List.append_assoc] using whole
  | .missing, legible, _, _, _, _ => legible.elim

theorem woven_exprCodes : ∀ es : List Expr, exprsLegible es → (∀ act ∈ exprActs es, act.Fits) →
    (∀ t ∈ exprStrings es, t.IsWritten) → ∀ codes, exprCodes es = .ok codes →
      ∃ tss, List.Forall₂ Woven codes tss ∧ tss.flatten = exprStrings es
  | [], _, _, _, codes, written => by
    cases written
    exact ⟨[], .nil, rfl⟩
  | e :: es, legible, fit, texts, codes, written => by
    obtain ⟨firstTexts, restTexts⟩ := List.forall_mem_append.mp texts
    obtain ⟨firstFit, restFit⟩ := List.forall_mem_append.mp fit
    rw [exprCodes] at written
    obtain ⟨code, codeWritten, written⟩ := bind_eq_ok.mp written
    obtain ⟨rest, restWritten, written⟩ := bind_eq_ok.mp written
    cases written
    obtain ⟨tss, members, same⟩ := woven_exprCodes es legible.2 restFit restTexts rest restWritten
    refine ⟨e.strings :: tss,
      .cons (e.woven_code legible.1 firstFit firstTexts code codeWritten) members, ?_⟩
    rw [List.flatten_cons, same, exprStrings]

end

/-! ### Lines -/

/-- **The lines of marks are woven from texts,** one line after another. -/
inductive WovenMarks : List Mark → List Text → Prop where
  | nil : WovenMarks [] []
  | line {code : Text} {marks : List Mark} {ts us : List Text} (woven : Woven code ts)
      (rest : WovenMarks marks us) : WovenMarks (.line code :: marks) (ts ++ us)
  | openBlock {marks : List Mark} {ts : List Text} (rest : WovenMarks marks ts) :
      WovenMarks (.openBlock :: marks) ts
  | closeBlock {marks : List Mark} {ts : List Text} (rest : WovenMarks marks ts) :
      WovenMarks (.closeBlock :: marks) ts

namespace WovenMarks

variable {marks more : List Mark} {ts us : List Text} {code : Text}

theorem append (first : WovenMarks marks ts) (second : WovenMarks more us) :
    WovenMarks (marks ++ more) (ts ++ us) := by
  induction first with
  | nil => exact second
  | line woven _ ih =>
    rw [List.append_assoc]
    exact .line woven ih
  | openBlock _ ih => exact .openBlock ih
  | closeBlock _ ih => exact .closeBlock ih

theorem single (woven : Woven code ts) : WovenMarks [.line code] ts := by
  have marks := WovenMarks.nil.line woven
  rwa [List.append_nil] at marks

/-- A line of code with fixed code around it. -/
theorem framed {before after : Text} (front : Unbroken before) (woven : Woven code ts)
    (back : Unbroken after) : WovenMarks [.line (before ++ code ++ after)] ts := by
  rw [List.append_assoc]
  exact .single (.plain front (woven.close back))

/-- A head and a block behind it. -/
theorem enclose (head : Woven code us) (inner : WovenMarks marks ts) :
    WovenMarks (.line code :: Mark.enclose marks) (us ++ ts) := by
  have block := inner.append (.closeBlock .nil)
  rw [List.append_nil] at block
  exact .line head (.openBlock block)

/-- **The lines that the marks write are woven from the same texts.** -/
theorem lines (woven : WovenMarks marks ts) {indent : Text} (unbroken : Unbroken indent)
    (level : Nat) :
    ∃ tss, List.Forall₂ Woven (Mark.lines indent level marks) tss ∧ tss.flatten = ts := by
  have blank : ∀ level, Unbroken (Text.replicate level indent) := by
    intro level
    induction level with
    | zero => exact unbroken_nil
    | succ level ih => exact unbroken.append ih
  induction woven generalizing level with
  | nil => exact ⟨[], .nil, rfl⟩
  | @line code marks ts us woven _ ih =>
    obtain ⟨tss, rest, same⟩ := ih level
    refine ⟨ts :: tss, .cons ?_ rest, by rw [List.flatten_cons, same]⟩
    rw [Mark.lineOf]
    split
    · rename_i empty
      rwa [← List.isEmpty_iff.mp empty]
    · exact .plain (blank level) woven
  | openBlock _ ih =>
    obtain ⟨tss, rest, same⟩ := ih (level + 1)
    exact ⟨[] :: tss, .cons (.plain (blank level) (woven_fixed (by decide))) rest, same⟩
  | closeBlock _ ih =>
    obtain ⟨tss, rest, same⟩ := ih (level - 1)
    exact ⟨[] :: tss, .cons (.plain (blank (level - 1)) (woven_fixed (by decide))) rest, same⟩

end WovenMarks

/-! ### Statements -/

/-- The texts of a statement that are written as literals. -/
def Stmt.strings (s : Stmt) : List Text := s.exprs.flatMap Expr.strings

/-- **The texts of a program that are written as literals,** in order. -/
def Program.strings (p : Program) : List Text := (stmtExprs p).flatMap Expr.strings

/-- The code of the expression, if there is any, is woven from its texts. -/
def Expr.Weaves (e : Expr) : Prop := ∀ code, e.code = .ok code → Woven code e.strings

theorem woven_optionCode {absent : Text} (unbroken : Unbroken absent) {value : Option Expr}
    (weaves : ∀ e ∈ value.toList, e.Weaves) {code : Text}
    (written : optionCode absent value = .ok code) :
    Woven code (value.toList.flatMap Expr.strings) := by
  cases value with
  | none =>
    cases written
    exact woven_unbroken unbroken
  | some e =>
    rw [Option.toList_some, List.flatMap_singleton]
    exact weaves e (List.mem_singleton_self e) code written

theorem unbroken_typeOf (word : Text) : Unbroken (typeOf word) := by
  rcases typeOf_cases word with same | same | same | same
  all_goals
    rw [same]
    exact unbroken_ofString (by decide)

theorem unbroken_defaultOf (type : Text) : Unbroken (defaultOf type) := by
  unfold defaultOf
  split
  · exact unbroken_ofString (by decide)
  split
  · exact unbroken_ofString (by decide)
  split
  · exact unbroken_ofString (by decide)
  · exact unbroken_ofString (by decide)

/-- The head of a function holds names and types only. -/
theorem woven_head (name : Text) (params : List Param) :
    Woven ("dynamic " ++ identifier name ++ "(" ++ Text.join ", " (params.map Param.code) ++ ")")
      [] := by
  have members : List.Forall₂ Woven (params.map Param.code) (params.map fun _ => []) := by
    rw [List.forall₂_map_left_iff, List.forall₂_map_right_iff, List.forall₂_same]
    intro p _
    exact woven_unbroken (((unbroken_typeOf p.type.lexeme).append
      (unbroken_ofString (by decide))).append (unbroken_identifier p.name.lexeme))
  have inner := (Woven.join members).close (unbroken_ofString (s := ")") (by decide))
  have whole := ((inner.plain (unbroken_ofString (s := "(") (by decide))).plain
    (unbroken_identifier name)).plain (unbroken_ofString (s := "dynamic ") (by decide))
  have none : (params.map fun _ => ([] : List Text)).flatten = [] := by simp
  rw [none] at whole
  simpa only [List.append_assoc] using whole

theorem woven_closingReturn (body : List Stmt) : WovenMarks (closingReturn body) [] := by
  unfold closingReturn
  split
  · exact .nil
  · exact .single (woven_fixed (by decide))

mutual

/-- **The lines of a statement are woven from its texts.** -/
theorem Stmt.woven_marks : ∀ s : Stmt, (∀ e ∈ s.exprs, e.Weaves) →
    ∀ marks, s.marks = .ok marks → WovenMarks marks s.strings
  | .declare _ type name value, weaves, marks, written => by
    rw [Stmt.marks] at written
    obtain ⟨code, codeWritten, written⟩ := bind_eq_ok.mp written
    cases written
    have typed := (unbroken_typeOf type.lexeme).append (unbroken_ofString (s := " ") (by decide))
    have named := (typed.append (unbroken_identifier name.lexeme)).append
      (unbroken_ofString (s := " = ") (by decide))
    exact .framed named (woven_optionCode (unbroken_defaultOf _) weaves codeWritten)
      (unbroken_ofString (by decide))
  | .param _, _, marks, written => by
    cases written
    exact .nil
  | .function _ name params body, weaves, marks, written => by
    rw [Stmt.marks] at written
    obtain ⟨inner, innerWritten, written⟩ := bind_eq_ok.mp written
    cases written
    have body := (woven_stmtMarks body weaves inner innerWritten).append (woven_closingReturn body)
    rw [List.append_nil] at body
    exact .enclose (woven_head name.lexeme params) body
  | .conditional _ condition yes no, weaves, marks, written => by
    obtain ⟨test, branches⟩ := List.forall_mem_cons.mp weaves
    obtain ⟨first, second⟩ := List.forall_mem_append.mp branches
    rw [Stmt.marks] at written
    obtain ⟨code, codeWritten, written⟩ := bind_eq_ok.mp written
    obtain ⟨yesMarks, yesWritten, written⟩ := bind_eq_ok.mp written
    have head : Woven ("if (" ++ code ++ ")") condition.strings := by
      rw [List.append_assoc]
      exact .plain (unbroken_ofString (by decide))
        ((test code codeWritten).close (unbroken_ofString (by decide)))
    have yesWoven := WovenMarks.enclose head (woven_stmtMarks yes first yesMarks yesWritten)
    rw [Stmt.strings, Stmt.exprs, List.flatMap_cons, List.flatMap_append, ← List.append_assoc]
    by_cases empty : no.isEmpty = true
    · rw [if_pos empty] at written
      cases written
      cases List.isEmpty_iff.mp empty
      rw [stmtExprs, List.flatMap_nil, List.append_nil]
      exact yesWoven
    · rw [if_neg empty] at written
      obtain ⟨noMarks, noWritten, written⟩ := bind_eq_ok.mp written
      cases written
      exact yesWoven.append (.enclose (woven_fixed (by decide))
        (woven_stmtMarks no second noMarks noWritten))
  | .loop _ body, weaves, marks, written => by
    rw [Stmt.marks] at written
    obtain ⟨inner, innerWritten, written⟩ := bind_eq_ok.mp written
    cases written
    exact .enclose (woven_fixed (by decide)) (woven_stmtMarks body weaves inner innerWritten)
  | .print _ value, weaves, marks, written => by
    rw [Stmt.marks] at written
    obtain ⟨code, codeWritten, written⟩ := bind_eq_ok.mp written
    cases written
    rw [Stmt.strings, Stmt.exprs, List.flatMap_singleton]
    exact .framed (unbroken_ofString (by decide)) (weaves value List.mem_cons_self code codeWritten)
      (unbroken_ofString (by decide))
  | .returns _ value, weaves, marks, written => by
    rw [Stmt.marks] at written
    obtain ⟨code, codeWritten, written⟩ := bind_eq_ok.mp written
    cases written
    exact .framed (unbroken_ofString (by decide))
      (woven_optionCode (unbroken_ofString (by decide)) weaves codeWritten)
      (unbroken_ofString (by decide))
  | .assign name value, weaves, marks, written => by
    rw [Stmt.marks] at written
    obtain ⟨code, codeWritten, written⟩ := bind_eq_ok.mp written
    cases written
    rw [Stmt.strings, Stmt.exprs, List.flatMap_singleton]
    exact .framed ((unbroken_identifier name.lexeme).append (unbroken_ofString (by decide)))
      (weaves value List.mem_cons_self code codeWritten) (unbroken_ofString (by decide))
  | .breaks _, _, marks, written => by
    cases written
    exact .single (woven_fixed (by decide))
  | .perform _ value, weaves, marks, written => by
    rw [Stmt.marks] at written
    obtain ⟨code, codeWritten, written⟩ := bind_eq_ok.mp written
    cases written
    rw [Stmt.strings, Stmt.exprs, List.flatMap_singleton]
    exact .framed unbroken_nil (weaves value List.mem_cons_self code codeWritten)
      (unbroken_ofString (by decide))
  | .missing, _, _, written => by cases written

/-- **The lines of a program are woven from its texts.** -/
theorem woven_stmtMarks : ∀ ss : List Stmt, (∀ e ∈ stmtExprs ss, e.Weaves) →
    ∀ marks, stmtMarks ss = .ok marks → WovenMarks marks (Program.strings ss)
  | [], _, marks, written => by
    cases written
    exact .nil
  | s :: ss, weaves, marks, written => by
    obtain ⟨first, rest⟩ := List.forall_mem_append.mp weaves
    rw [stmtMarks] at written
    obtain ⟨firstMarks, firstWritten, written⟩ := bind_eq_ok.mp written
    obtain ⟨restMarks, restWritten, written⟩ := bind_eq_ok.mp written
    cases written
    rw [Program.strings, stmtExprs, List.flatMap_append]
    exact (s.woven_marks first firstMarks firstWritten).append
      (woven_stmtMarks ss rest restMarks restWritten)

end

end

end Guwen
