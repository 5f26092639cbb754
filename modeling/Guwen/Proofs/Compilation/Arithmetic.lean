/-
**Arithmetic in a source and in its code.**

A source writes its numbers in digits or in glyphs, with 加, 減, 乘 and 除 between them. Read over the
rational numbers this has an exact value. The code that it becomes holds the same numbers under the
same operators, joined in the same order, but C# computes it with integers wherever a number has no
point; the two values agree as long as no quotient of integers is cut off.

* `Formula.value?` — the value of numbers with operators between them, for any meaning of the
  operators: `Formula.meaning?` over the rational numbers, `Formula.computed?` as C# computes.
* `Formula.comesOutEven` — every quotient of two integers is an integer.
* **`Formula.exists_computed?`**, **`Formula.meaning?_of_computed?`** — one value against the other.
* **`SpellsFormula.tells`** — the tokens of a formula spell one tree, which has the computed value.
* **`formula_keeps_value`** — from the tokens to the value of the code.
-/
import Guwen.Proofs.Code.Arithmetic
import Guwen.Proofs.Compilation.Preservation

namespace Guwen

open Code Grammar

/-! ### Numbers with operators between them -/

/-- The operator does not cut off a quotient of integers. -/
def Operator.isEven : Operator → Number → Number → Bool
  | .div, .integer a, .integer b => decide (b ∣ a)
  | _, _, _ => true

/-- **Numbers with operators between them.** -/
structure Formula (α : Type) where
  first : α
  links : List (Operator × α)

namespace Formula

section

variable {α β : Type}

/-- The value behind a sum that waits, if any, and a term begun: 乘 and 除 go on with the term, any
other operator starts the next one. -/
def valueFrom? (apply : Operator → α → α → Option α) (waiting : Option (α × Operator)) (term : α) :
    List (Operator × α) → Option α
  | [] => Operator.join? apply waiting term
  | (op, n) :: links =>
    if op.IsProduct then
      (apply op term n).bind fun product => valueFrom? apply waiting product links
    else
      (Operator.join? apply waiting term).bind fun sum => valueFrom? apply (some (sum, op)) n links

/-- **The value of a formula:** 乘 and 除 before 加 and 減, and each from left to right. -/
def value? (apply : Operator → α → α → Option α) (f : Formula α) : Option α :=
  valueFrom? apply none f.first f.links

/-- The formula with other numbers. -/
def map (g : α → β) (f : Formula α) : Formula β :=
  ⟨g f.first, f.links.map fun link => (link.1, g link.2)⟩

end

/-- **The value over the rational numbers,** unless something is divided by zero. -/
def meaning? (f : Formula Number) : Option ℚ := (f.map Number.toRat).value? Operator.onRationals?

/-- The value as C# computes it. -/
def computed? (f : Formula Number) : Option Number := f.value? Operator.onNumbers?

/-- No quotient of integers behind a term begun is cut off. -/
def evenFrom (term : Number) : List (Operator × Number) → Bool
  | [] => true
  | (op, n) :: links =>
    if op.IsProduct then
      op.isEven term n && (op.onNumbers? term n).all fun product => evenFrom product links
    else evenFrom n links

/-- **Every quotient of two integers is an integer.** -/
def comesOutEven (f : Formula Number) : Bool := evenFrom f.first f.links

end Formula

/-! ### One value against the other -/

namespace Operator

variable {op : Operator} {a b n : Number}

/-- **An operator that cuts off nothing is exact.** -/
theorem onRationals?_of_onNumbers? (applied : op.onNumbers? a b = some n)
    (even : op.isEven a b = true) :
    op.onRationals? a.toRat b.toRat = some n.toRat := by
  unfold onNumbers? at applied
  split at applied
  · rename_i x y
    obtain ⟨z, evaluated, rfl⟩ := Option.map_eq_some_iff.mp applied
    cases op with
    | add | sub | mul =>
      cases evaluated
      simp [onRationals?, evaluate?, Number.toRat]
    | div =>
      obtain ⟨k, rfl⟩ : y ∣ x := of_decide_eq_true even
      by_cases zero : y = 0
      · rw [evaluate?, if_pos zero] at evaluated
        cases evaluated
      · rw [evaluate?, if_neg zero, Int.mul_tdiv_cancel_left _ zero] at evaluated
        cases evaluated
        simp [onRationals?, evaluate?, Number.toRat, zero]
    | gt | lt | eq | other => cases evaluated
  · obtain ⟨q, evaluated, rfl⟩ := Option.map_eq_some_iff.mp applied
    exact evaluated

end Operator

namespace Formula

variable {term n : Number} {links : List (Operator × Number)} {waiting : Option (Number × Operator)}

/-- Only a sum waits. -/
def WaitsSum (waiting : Option (Number × Operator)) : Prop := ∀ sum ∈ waiting, sum.2.IsSum

theorem waitsSum_none : WaitsSum (none : Option (Number × Operator)) := by
  rintro _ ⟨⟩

theorem waitsSum_some (a : Number) {op : Operator} (additive : op.IsSum) :
    WaitsSum (some (a, op)) := by
  rintro _ ⟨⟩
  exact additive

theorem exists_join? (waits : WaitsSum waiting) (term : Number) :
    ∃ n, Operator.join? Operator.onNumbers? waiting term = some n := by
  cases waiting with
  | none => exact ⟨term, rfl⟩
  | some sum =>
    obtain ⟨a, op⟩ := sum
    have additive : op.IsSum := waits (a, op) rfl
    refine Option.isSome_iff_exists.mp
      ((Operator.isSome_onNumbers? op a term).mpr ⟨.inr additive, ?_⟩)
    rintro rfl
    rcases additive with same | same <;> cases same

/-- Behind any term C# finds a value, when there is an exact one behind some term. -/
theorem exists_valueFrom? {term' q : ℚ} {waiting' : Option (ℚ × Operator)}
    (arithmetic : ∀ link ∈ links, link.1.IsArithmetic) (waits : WaitsSum waiting)
    (meaning : valueFrom? Operator.onRationals? waiting' term'
      (links.map fun link => (link.1, link.2.toRat)) = some q) :
    ∃ n, valueFrom? Operator.onNumbers? waiting term links = some n := by
  induction links generalizing waiting waiting' term term' with
  | nil => exact exists_join? waits term
  | cons link links ih =>
    obtain ⟨op, a⟩ := link
    have here := arithmetic (op, a) List.mem_cons_self
    have later := fun link member => arithmetic link (List.mem_cons_of_mem _ member)
    rw [List.map_cons, valueFrom?] at meaning
    rw [valueFrom?]
    by_cases level : op.IsProduct
    · rw [if_pos level] at meaning ⊢
      obtain ⟨product', applied', meaning⟩ := Option.bind_eq_some_iff.mp meaning
      -- The divisor is a number of the formula, so it is the same on both sides.
      have defined := (Operator.isSome_evaluate? (· / ·) op term' a.toRat).mp
        (Option.isSome_of_eq_some applied')
      obtain ⟨product, applied⟩ :=
        Option.isSome_iff_exists.mp ((Operator.isSome_onNumbers? op term a).mpr defined)
      rw [applied]
      exact ih later waits meaning
    · rw [if_neg level] at meaning ⊢
      obtain ⟨sum', -, meaning⟩ := Option.bind_eq_some_iff.mp meaning
      obtain ⟨sum, joined⟩ := exists_join? waits term
      rw [joined]
      exact ih later (waitsSum_some sum (Or.resolve_left here level)) meaning

/-- **C# finds a value** when no number is divided by zero. -/
theorem exists_computed? {f : Formula Number} {q : ℚ}
    (arithmetic : ∀ link ∈ f.links, link.1.IsArithmetic) (meaning : f.meaning? = some q) :
    ∃ n, f.computed? = some n :=
  exists_valueFrom? arithmetic waitsSum_none meaning

theorem join?_of_computed (waits : WaitsSum waiting)
    (joined : Operator.join? Operator.onNumbers? waiting term = some n) :
    Operator.join? Operator.onRationals? (waiting.map fun sum => (sum.1.toRat, sum.2)) term.toRat =
      some n.toRat := by
  cases waiting with
  | none =>
    cases joined
    rfl
  | some sum =>
    obtain ⟨a, op⟩ := sum
    refine Operator.onRationals?_of_onNumbers? joined ?_
    rcases waits (a, op) rfl with rfl | rfl <;> rfl

theorem valueFrom?_of_computed (arithmetic : ∀ link ∈ links, link.1.IsArithmetic)
    (waits : WaitsSum waiting) (even : evenFrom term links = true)
    (computed : valueFrom? Operator.onNumbers? waiting term links = some n) :
    valueFrom? Operator.onRationals? (waiting.map fun sum => (sum.1.toRat, sum.2)) term.toRat
      (links.map fun link => (link.1, link.2.toRat)) = some n.toRat := by
  induction links generalizing waiting term with
  | nil => exact join?_of_computed waits computed
  | cons link links ih =>
    obtain ⟨op, a⟩ := link
    have here := arithmetic (op, a) List.mem_cons_self
    have later := fun link member => arithmetic link (List.mem_cons_of_mem _ member)
    rw [valueFrom?] at computed
    rw [List.map_cons, valueFrom?]
    rw [evenFrom] at even
    by_cases level : op.IsProduct
    · rw [if_pos level] at computed even ⊢
      obtain ⟨product, applied, computed⟩ := Option.bind_eq_some_iff.mp computed
      obtain ⟨here, even⟩ := Bool.and_eq_true_iff.mp even
      rw [applied, Option.all_some] at even
      rw [Operator.onRationals?_of_onNumbers? applied here]
      exact ih later waits even computed
    · rw [if_neg level] at computed even ⊢
      obtain ⟨sum, joined, computed⟩ := Option.bind_eq_some_iff.mp computed
      rw [join?_of_computed waits joined]
      exact ih later (waitsSum_some sum (Or.resolve_left here level)) even computed

/-- **The value that C# computes is the exact one,** when every quotient comes out even. -/
theorem meaning?_of_computed? {f : Formula Number}
    (arithmetic : ∀ link ∈ f.links, link.1.IsArithmetic) (even : f.comesOutEven = true)
    (computed : f.computed? = some n) : f.meaning? = some n.toRat :=
  valueFrom?_of_computed arithmetic waitsSum_none even computed

end Formula

/-! ### Numbers in a source -/

theorem foldl_ofChars {cs : List Char} (digits : ∀ c ∈ cs, isDigit c = true) (n : Nat) :
    (Text.ofChars cs).foldl (fun n b => 10 * n + (b.toNat - 48)) n = Nat.ofDigitChars 10 cs n := by
  induction cs generalizing n with
  | nil => rfl
  | cons c cs ih =>
    obtain ⟨b, first, same, -⟩ := encode_digit (digits c List.mem_cons_self)
    rw [Nat.ofDigitChars_cons, ← ih fun d member => digits d (List.mem_cons_of_mem c member),
      Text.ofChars, List.flatMap_cons, first, List.singleton_append, List.foldl_cons, same]
    rfl

/-- **A whole number in decimal digits is a literal of it.** -/
theorem denotes_ofNat (n : Nat) : Denotes (Text.ofNat n) (.integer n) := by
  have same : digitsValue (Text.ofNat n) = n := by
    rw [digitsValue, Text.ofNat, foldl_ofChars fun _ => isDigit_of_mem_toDigits,
      Nat.ofDigitChars_ten_toDigits]
  have literal := Denotes.integer (isDigits_ofNat n)
  rwa [same] at literal

namespace Grammar

/-- **The tokens write the number:** one token in digits, or glyphs side by side. -/
inductive SpellsNumber : Number → List Token → Prop where
  | digits {t : Token} {n : Number} (number : t.kind = .number) (arabic : isArabic t = true)
      (denotes : Denotes t.lexeme n) : SpellsNumber n [t]
  | glyphs {t : Token} {run : List Token} {value : Nat} (number : t.kind = .number)
      (glyph : isArabic t = false) (together : List.IsChain GoesOn (t :: run))
      (reads : Numeral.value? (Text.chars ((t :: run).flatMap Token.lexeme)) = some value) :
      SpellsNumber (.integer value) (t :: run)

theorem spellsNumber_glyph {t : Token} {value : Nat} (number : t.kind = .number)
    (glyph : isArabic t = false) (reads : Numeral.value? t.lexeme.chars = some value) :
    SpellsNumber (.integer value) [t] := by
  refine .glyphs number glyph (.singleton t) ?_
  rwa [List.flatMap_singleton]

/-- The kinds of the four operators of arithmetic. -/
def arithmeticKinds : List (TokenKind × Operator) :=
  [(.plus, .add), (.minus, .sub), (.times, .mul), (.divide, .div)]

/-- The tokens write operators from 加, 減, 乘 and 除, each with the number behind it. -/
inductive SpellsLinks : List (Operator × Number) → List Token → Prop where
  | nil : SpellsLinks [] []
  | cons {t : Token} {op : Operator} {n : Number} {links : List (Operator × Number)}
      {ts us : List Token} (operator : (t.kind, op) ∈ arithmeticKinds)
      (number : SpellsNumber n ts) (rest : SpellsLinks links us) :
      SpellsLinks ((op, n) :: links) (t :: (ts ++ us))

/-- **The tokens write the formula.** -/
def SpellsFormula (f : Formula Number) (ts : List Token) : Prop :=
  ∃ us vs, SpellsNumber f.first us ∧ SpellsLinks f.links vs ∧ ts = us ++ vs

/-- They are read as these operators. -/
theorem arithmetic_of_mem {kind : TokenKind} {op : Operator}
    (known : (kind, op) ∈ arithmeticKinds) :
    Operator.ofKind? kind = some op ∧ op.IsArithmetic := by
  have all : ∀ entry ∈ arithmeticKinds, Operator.ofKind? entry.1 = some entry.2 ∧
      entry.2.IsArithmetic := by decide
  exact all (kind, op) known

theorem SpellsLinks.arithmetic {links : List (Operator × Number)} {ts : List Token}
    (spelt : SpellsLinks links ts) : ∀ link ∈ links, link.1.IsArithmetic := by
  induction spelt with
  | nil => exact fun _ member => absurd member List.not_mem_nil
  | cons operator _ _ ih => exact List.forall_mem_cons.mpr ⟨(arithmetic_of_mem operator).2, ih⟩

/-- **The tokens spell a phrase with the value,** whatever follows them. -/
def Tells (phrase : Expr → Phrase) (ts : List Token) (n : Number) : Prop :=
  ∃ e, (∀ after, Spells (phrase e) ts after) ∧ e.Computes n

section

variable {ts us : List Token} {t : Token} {op : Operator} {a b n : Number}

theorem SpellsNumber.tells (spelt : SpellsNumber n ts) : Tells .operand ts n := by
  cases spelt with
  | digits number arabic denotes => exact ⟨_, fun _ => .arabic number arabic, .literal denotes⟩
  | glyphs number glyph together reads =>
    exact ⟨_, fun _ => .glyphs number glyph together reads, .literal (denotes_ofNat _)⟩

theorem Tells.term (tells : Tells .operand ts n) : Tells .term ts n := by
  obtain ⟨e, spelt, computes⟩ := tells
  exact ⟨e, fun after => .operandTerm (spelt after), computes⟩

theorem Tells.product (left : Tells .term ts a) (operator : Operator.ofKind? t.kind = some op)
    (product : op.IsProduct) (right : Tells .operand us b)
    (applied : op.onNumbers? a b = some n) : Tells .term (ts ++ t :: us) n := by
  obtain ⟨x, leftSpelt, leftComputes⟩ := left
  obtain ⟨y, rightSpelt, rightComputes⟩ := right
  have level : op.isMultiplicative = true := by
    rcases product with rfl | rfl <;> rfl
  exact ⟨_, fun after => .product (leftSpelt _) operator level (rightSpelt after),
    .binary leftComputes rightComputes applied⟩

/-- The tokens before a term: nothing, or a sum and its operator. -/
inductive Awaits : Option (Number × Operator) → List Token → Prop where
  | nothing : Awaits none []
  | sum {ts : List Token} {t : Token} {a : Number} {op : Operator} (tells : Tells .sum ts a)
      (operator : Operator.ofKind? t.kind = some op) (sum : op.IsSum) :
      Awaits (some (a, op)) (ts ++ [t])

theorem Awaits.join {waiting : Option (Number × Operator)} (awaits : Awaits waiting us)
    (term : Tells .term ts a) (joined : Operator.join? Operator.onNumbers? waiting a = some n) :
    Tells .sum (us ++ ts) n := by
  obtain ⟨y, spelt, computes⟩ := term
  cases awaits with
  | nothing =>
    cases joined
    exact ⟨y, fun after => .termSum (spelt after), computes⟩
  | @sum _ _ _ op tells operator sum =>
    obtain ⟨x, leftSpelt, leftComputes⟩ := tells
    have level : op.isAdditive = true := by
      rcases sum with rfl | rfl <;> rfl
    rw [List.append_assoc, List.singleton_append]
    exact ⟨_, fun after => .sum (leftSpelt _) operator level (spelt after),
      .binary leftComputes computes joined⟩

/-- The operators and numbers behind a term spell one sum with it: a number behind 乘 or 除 goes on
with the term, and one behind 加 or 減 ends the sum so far. -/
theorem SpellsLinks.tells {links : List (Operator × Number)} {vs : List Token}
    (spelt : SpellsLinks links vs) {waiting : Option (Number × Operator)}
    (awaits : Awaits waiting us) (term : Tells .term ts a)
    (computed : Formula.valueFrom? Operator.onNumbers? waiting a links = some n) :
    Tells .sum (us ++ (ts ++ vs)) n := by
  induction spelt generalizing waiting us ts a with
  | nil =>
    rw [List.append_nil]
    exact awaits.join term computed
  | @cons t op b links bs vs known number rest ih =>
    obtain ⟨operator, arithmetic⟩ := arithmetic_of_mem known
    rw [Formula.valueFrom?] at computed
    by_cases level : op.IsProduct
    · rw [if_pos level] at computed
      obtain ⟨product, applied, computed⟩ := Option.bind_eq_some_iff.mp computed
      have whole := ih awaits (term.product operator level number.tells applied) computed
      simpa only [List.append_assoc, List.cons_append] using whole
    · rw [if_neg level] at computed
      obtain ⟨sum, joined, computed⟩ := Option.bind_eq_some_iff.mp computed
      have additive : op.IsSum := Or.resolve_left arithmetic level
      have before := Awaits.sum (awaits.join term joined) operator additive
      have whole := ih before number.tells.term computed
      simpa only [List.append_assoc, List.cons_append, List.nil_append] using whole

/-- **The tokens of a formula spell one tree,** which has the computed value. -/
theorem SpellsFormula.tells {f : Formula Number} (spelt : SpellsFormula f ts)
    (computed : f.computed? = some n) : Tells .sum ts n := by
  obtain ⟨us, vs, first, rest, rfl⟩ := spelt
  exact rest.tells .nothing first.tells.term computed

theorem SpellsFormula.arithmetic {f : Formula Number} (spelt : SpellsFormula f ts) :
    ∀ link ∈ f.links, link.1.IsArithmetic := by
  obtain ⟨us, vs, -, rest, -⟩ := spelt
  exact rest.arithmetic

end

end Grammar

/-! ### From the tokens to the code -/

/-- **The tokens become the text.** -/
structure Becomes (ts : List Token) (e : Expr) (text : Text) : Prop where
  /-- Wherever they stand as an expression, they are read as the same tree. -/
  read : ∀ (site : Site) (after : List Token), NotNext isNumber after → NotNext isOperator after →
    Leaves (expression site (ts ++ after)) e after
  /-- Resolution leaves the tree as it is. -/
  resolved : ∀ scope : Scope, e.resolve scope = (e, none)
  /-- The tree is written as the text. -/
  written : e.code = .ok text
  /-- A source that only prints the expression becomes a unit that only prints the text. -/
  printed : ∀ (options : Options) (source : Text) (k : Token),
    body (Token.tokenize source) = k :: ts → k.kind = .print →
      (compile options source).outcome = .ok (Mark.layout options.withDefaults.indent 0
        (wrap options.withDefaults [.line ("Console.WriteLine(" ++ text ++ ");")]))

theorem Becomes.unique {ts : List Token} {e e' : Expr} {text text' : Text}
    (first : Becomes ts e text) (second : Becomes ts e' text') : text = text' := by
  have nothing : ∀ kinds, NotNext kinds [] := fun _ _ head => by cases head
  obtain ⟨_, read⟩ := first.read (top []) [] (nothing _) (nothing _)
  obtain ⟨_, read'⟩ := second.read (top []) [] (nothing _) (nothing _)
  cases read.symm.trans read'
  exact Except.ok.inj (first.written.symm.trans second.written)

/-- A program that only prints a tree without names is written as one line. -/
theorem compile_print {options : Options} {source text : Text} {k : Token} {e : Expr}
    (derived : Derives (body (Token.tokenize source)) [.print k e])
    (resolved : ∀ scope : Scope, e.resolve scope = (e, none)) (written : e.code = .ok text) :
    (compile options source).outcome = .ok (Mark.layout options.withDefaults.indent 0
      (wrap options.withDefaults [.line ("Console.WriteLine(" ++ text ++ ");")])) := by
  have tree : Program.resolve [.print k e] = ⟨[.print k e], .initial, [], none⟩ := by
    rw [Program.resolve, resolveStmts, Stmt.resolve, resolved]
    rfl
  have marks : stmtMarks [.print k e] =
      .ok [.line ("Console.WriteLine(" ++ text ++ ");")] := by
    rw [stmtMarks, Stmt.marks, written]
    rfl
  refine compile_eq_ok_iff.mpr ⟨_, ofTokens_eq_ok_iff.mpr derived, ?_, ?_⟩
  · rw [tree]
  · rw [tree, Program.code, marks]
    rfl

/-- **The tokens of a formula become a text that C# computes as the formula.** -/
theorem exists_becomes {f : Formula Number} {ts : List Token} {n : Number}
    (spelt : SpellsFormula f ts) (computed : f.computed? = some n) :
    ∃ e text, Becomes ts e text ∧ value? text = some n := by
  obtain ⟨e, spells, computes⟩ := spelt.tells computed
  obtain ⟨text, written, value⟩ := computes.hasValue_code
  refine ⟨e, text, ⟨?_, computes.resolve_eq, written, ?_⟩, value.value?⟩
  · intro site after number operator
    exact expression_complete (.sumExpression (spells after)) number operator site
  · intro options source k scanned print
    have formed : Forms (.statement (.print k e)) .top (k :: (ts ++ [])) [] :=
      .print print (.sumExpression (spells _)) (.inl rfl)
    have derived : Derives (k :: (ts ++ []) ++ []) [.print k e] := .more formed .none
    rw [List.append_nil, List.append_nil, ← scanned] at derived
    exact compile_print derived computes.resolve_eq written

/-- **Arithmetic keeps its value in the code,** as long as no quotient of integers is cut off.

Numbers with 加, 減, 乘 and 除 between them, where nothing is divided by zero, become a text that C#
computes as it computes the formula: 乘 and 除 first, each operator from the left. This is the value
over the rational numbers when every quotient of two integers comes out even. -/
theorem formula_keeps_value {f : Formula Number} {ts : List Token} {q : ℚ}
    (spelt : SpellsFormula f ts) (meaning : f.meaning? = some q) :
    ∃ e text n, Becomes ts e text ∧ value? text = some n ∧ f.computed? = some n ∧
      (f.comesOutEven = true → n.toRat = q) := by
  obtain ⟨n, computed⟩ := Formula.exists_computed? spelt.arithmetic meaning
  obtain ⟨e, text, becomes, value⟩ := exists_becomes spelt computed
  refine ⟨e, text, n, becomes, value, computed, fun even => ?_⟩
  have same := Formula.meaning?_of_computed? spelt.arithmetic even computed
  exact Option.some.inj (same.symm.trans meaning)

/-- 十二除四加1.5乘二減三 is three. -/
theorem formula_keeps_value_even :
    let number (lexeme : String) (column : Int) : Token := ⟨.number, lexeme, 1, column⟩
    let ts : List Token := [number "十" 2, number "二" 3, ⟨.divide, "除", 1, 4⟩, number "四" 5,
      ⟨.plus, "加", 1, 6⟩, number "1.5" 7, ⟨.times, "乘", 1, 10⟩, number "二" 11,
      ⟨.minus, "減", 1, 12⟩, number "三" 13]
    let f : Formula Number := ⟨.integer 12, [(.div, .integer 4), (.add, .double (3 / 2)),
      (.mul, .integer 2), (.sub, .integer 3)]⟩
    SpellsFormula f ts ∧ f.meaning? = some 3 ∧ f.comesOutEven = true ∧
      ∃ e text n, Becomes ts e text ∧ value? text = some n ∧ n.toRat = 3 := by
  intro number ts f
  have twelve : SpellsNumber (.integer 12) [number "十" 2, number "二" 3] :=
    .glyphs rfl (by decide) (.cons_cons ⟨rfl, by decide, by decide⟩ (.singleton _)) (by decide)
  have four : SpellsNumber (.integer 4) [number "四" 5] :=
    spellsNumber_glyph rfl (by decide) (by decide)
  have half : SpellsNumber (.double (3 / 2)) [number "1.5" 7] := by
    have literal : Denotes "1.5" (.double (decimalValue "1" "5")) :=
      .double (by decide +kernel) (by decide +kernel)
    rw [show decimalValue "1" "5" = 3 / 2 by decide +kernel] at literal
    exact .digits rfl (by decide) literal
  have two : SpellsNumber (.integer 2) [number "二" 11] :=
    spellsNumber_glyph rfl (by decide) (by decide)
  have three : SpellsNumber (.integer 3) [number "三" 13] :=
    spellsNumber_glyph rfl (by decide) (by decide)
  have spelt : SpellsFormula f ts :=
    ⟨_, _, twelve, .cons (t := ⟨.divide, "除", 1, 4⟩) (by decide) four
      (.cons (t := ⟨.plus, "加", 1, 6⟩) (by decide) half
        (.cons (t := ⟨.times, "乘", 1, 10⟩) (by decide) two
          (.cons (t := ⟨.minus, "減", 1, 12⟩) (by decide) three .nil))), rfl⟩
  have meaning : f.meaning? = some 3 := by decide +kernel
  have even : f.comesOutEven = true := by decide +kernel
  obtain ⟨e, text, n, becomes, value, -, same⟩ := formula_keeps_value spelt meaning
  exact ⟨spelt, meaning, even, e, text, n, becomes, value, same even⟩

/-- **A quotient that is cut off changes the value:** 三除二 becomes `(3 / 2)`, which is one. -/
theorem formula_loses_value :
    ¬ ∀ (f : Formula Number) (ts : List Token) (q : ℚ), SpellsFormula f ts → f.meaning? = some q →
      ∃ e text n, Becomes ts e text ∧ value? text = some n ∧ n.toRat = q := by
  intro all
  have three : SpellsNumber (.integer 3) [⟨.number, "三", 1, 2⟩] :=
    spellsNumber_glyph rfl (by decide) (by decide)
  have two : SpellsNumber (.integer 2) [⟨.number, "二", 1, 4⟩] :=
    spellsNumber_glyph rfl (by decide) (by decide)
  have spelt : SpellsFormula ⟨.integer 3, [(.div, .integer 2)]⟩
      [⟨.number, "三", 1, 2⟩, ⟨.divide, "除", 1, 3⟩, ⟨.number, "二", 1, 4⟩] :=
    ⟨_, _, three, .cons (t := ⟨.divide, "除", 1, 3⟩) (by decide) two .nil, rfl⟩
  obtain ⟨e, text, n, becomes, value, same⟩ := all _ _ (3 / 2) spelt (by decide +kernel)
  obtain ⟨e', text', becomes', value'⟩ := exists_becomes spelt (n := .integer 1) (by decide)
  rw [becomes.unique becomes', value'] at value
  cases value
  exact absurd same (by decide +kernel)

end Guwen
