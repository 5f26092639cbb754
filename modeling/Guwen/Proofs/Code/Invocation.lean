/-
**Invocations: which calls the code writes as calls.**

A statement of C# that is no declaration and no assignment has to be an invocation: a name, with
dots or not, and arguments in parentheses, with nothing behind them. Calls of the program's own
functions are written so, and so are those of the language's, but for two: the code of 長度 ends in
a member, and without an argument both 長度 and 轉換 are written as a number.

* `Nested`, `Matched` — the parentheses of some code match, those in its string literals apart.
* `IsArgument`, `IsInvocation` — some code can be an argument, or is an invocation, read from its
  text alone.
* `isInvocation_render_iff` — the calls of builtins that are invocations.
* `composes_isArgument` — so the code of every expression can be an argument.
* **`Expr.isInvocation_code_iff`** — the calls whose code is an invocation.
-/
import Guwen.Proofs.Code.Expression

namespace Guwen

namespace Code

/-! ### Parentheses -/

/-- **Pieces whose parentheses match.** -/
inductive Nested : List Piece → Prop where
  | nil : Nested []
  | other {p : Piece} {ps : List Piece} (no_open : p ≠ .mark 40) (no_close : p ≠ .mark 41)
      (rest : Nested ps) : Nested (p :: ps)
  | group {ps qs : List Piece} (inner : Nested ps) (rest : Nested qs) :
      Nested (.mark 40 :: (ps ++ .mark 41 :: qs))

theorem Nested.append {ps qs : List Piece} (first : Nested ps) (second : Nested qs) :
    Nested (ps ++ qs) := by
  induction first with
  | nil => exact second
  | other no_open no_close _ ih => exact .other no_open no_close ih
  | group inner _ _ ih =>
    rw [List.cons_append, List.append_assoc]
    exact .group inner ih

theorem nested_of_free {ps : List Piece} (free : ∀ p ∈ ps, p ≠ .mark 40 ∧ p ≠ .mark 41) :
    Nested ps := by
  induction ps with
  | nil => exact .nil
  | cons p ps ih =>
    obtain ⟨⟨no_open, no_close⟩, rest⟩ := List.forall_mem_cons.mp free
    exact .other no_open no_close (ih rest)

theorem nested_word (t : Text) : Nested [.word t] := .other (by simp) (by simp) .nil

theorem nested_mark {b : UInt8} (no_open : b ≠ 40) (no_close : b ≠ 41) : Nested [.mark b] :=
  .other (by simpa using no_open) (by simpa using no_close) .nil

/-- **The parentheses of the code match,** whatever stands behind it. -/
def Matched (code : Text) : Prop := ∃ ps, Lexes code ps ∧ Nested ps

namespace Matched

variable {code more : Text}

theorem nil : Matched [] := ⟨[], lexes_nil, .nil⟩

theorem append (first : Matched code) (second : Matched more) (start : Apart more) :
    Matched (code ++ more) := by
  obtain ⟨ps, cut, nested⟩ := first
  obtain ⟨qs, cut', nested'⟩ := second
  exact ⟨ps ++ qs, cut.append cut' start, nested.append nested'⟩

theorem behind {ps : List Piece} (cut : Sealed code ps) (nested : Nested ps)
    (second : Matched more) : Matched (code ++ more) := by
  obtain ⟨qs, cut', nested'⟩ := second
  exact ⟨ps ++ qs, cut.append cut', nested.append nested'⟩

/-- **Code in parentheses,** behind code that ends in the opening one. -/
theorem enclosed {ps : List Piece} (cut : Sealed code (ps ++ [.mark 40])) (nested : Nested ps)
    (inner : Matched more) : Matched (code ++ (more ++ ")")) := by
  obtain ⟨qs, cut', nested'⟩ := inner
  have closing : Sealed ")" [.mark 41] := fun _ => rfl
  refine ⟨_, cut.append (cut'.append closing.lexes (apart_cons rfl)), ?_⟩
  rw [List.append_assoc]
  exact nested.append (.group nested' .nil)

theorem number (isNumber : IsNumber code) : Matched code := by
  rcases isNumber with digits | ⟨whole, part, before, behind, rfl⟩
  · exact ⟨_, digits.lexes, nested_word code⟩
  · exact ⟨_, before.lexes_decimal behind, (nested_word whole).append
      ((nested_mark (by decide) (by decide)).append (nested_word part))⟩

theorem quote (t : Text) : Matched (quote t) :=
  ⟨_, (sealed_quote t).lexes, nested_of_free (by decide)⟩

theorem sign {op : Operator} (known : op ∈ Operator.all) (second : Matched more) :
    Matched (op.sign ++ more) := by
  have one {b : UInt8} (cut : Sealed [b] [.mark b]) (no_open : b ≠ 40) (no_close : b ≠ 41) :
      Matched ([b] ++ more) := behind cut (nested_mark no_open no_close) second
  simp only [Operator.all, List.mem_cons, List.not_mem_nil, or_false] at known
  rcases known with rfl | rfl | rfl | rfl | rfl | rfl | rfl
  case inr.inr.inr.inr.inr.inr =>
    have double : Sealed "==" [.mark 61, .mark 61] := fun _ => rfl
    exact behind double (nested_of_free (by decide)) second
  all_goals exact one (fun _ => rfl) (by decide) (by decide)

/-- **Pieces of code with a mark between each two.** -/
theorem join {separator : Text} {b : UInt8} (cut : Sealed separator [.mark b])
    (starts : ∀ rest, Apart (separator ++ rest)) (no_open : b ≠ 40) (no_close : b ≠ 41)
    {values : List Text} (members : ∀ value ∈ values, Matched value) :
    Matched (Text.join separator values) :=
  Text.join_good nil (fun first rest =>
    first.append (behind cut (nested_mark no_open no_close) rest) (starts _)) members

end Matched

/-! ### Invocations -/

/-- **A word that can be a name:** it is not empty, has no digit at its head and is not reserved. -/
def isNameable (t : Text) : Bool :=
  !t.isEmpty && t.all isWordByte && !t.head?.any isDigitByte && !isReserved t

/-- **Code that can be an argument:** it is not empty, and its parentheses match. -/
structure IsArgument (code : Text) : Prop where
  given : code ≠ []
  matched : Matched code

/-- **An invocation:** a name, with dots or not, and arguments in parentheses, with nothing behind
them. -/
def IsInvocation (code : Text) : Prop :=
  ∃ words arguments : List Text, words ≠ [] ∧ (∀ word ∈ words, isNameable word = true) ∧
    (∀ argument ∈ arguments, IsArgument argument) ∧
    code = Text.join "." words ++ ("(" ++ (Text.join ", " arguments ++ ")"))

namespace IsArgument

variable {code : Text}

theorem word (given : code ≠ []) (bytes : ∀ b ∈ code, isWordByte b = true) : IsArgument code :=
  ⟨given, _, lexes_word given bytes, nested_word code⟩

theorem number (isNumber : IsNumber code) : IsArgument code := by
  refine ⟨?_, .number isNumber⟩
  rcases isNumber with digits | ⟨whole, part, before, -, rfl⟩
  · exact digits.1
  · exact List.append_ne_nil_of_left_ne_nil before.1 _

theorem identifier (name : Text) : IsArgument (identifier name) := by
  obtain ⟨b, t, same, -⟩ := head_identifier name
  exact word (by simp [same]) fun _ => mem_identifier

end IsArgument

theorem matched_of_isNameable {word : Text} (nameable : isNameable word = true) :
    Matched word := by
  simp only [isNameable, Bool.and_eq_true, Bool.not_eq_true', List.isEmpty_eq_false_iff,
    List.all_eq_true] at nameable
  obtain ⟨⟨⟨given, bytes⟩, -⟩, -⟩ := nameable
  exact (IsArgument.word given bytes).matched

theorem isNameable_identifier (name : Text) : isNameable (identifier name) = true := by
  obtain ⟨b, t, same, -⟩ := head_identifier name
  have given : (identifier name).isEmpty = false := by simp [same]
  have bytes : (identifier name).all isWordByte = true :=
    List.all_eq_true.mpr fun b member => mem_identifier member
  rw [isNameable, given, bytes, not_digit_identifier, isReserved_identifier]
  rfl

theorem matched_arguments {values : List Text} (members : ∀ value ∈ values, IsArgument value) :
    Matched (Text.join ", " values) :=
  Matched.join (b := 44) (fun _ => rfl) (fun _ => apart_cons rfl) (by decide) (by decide)
    fun value member => (members value member).matched

namespace IsInvocation

variable {code : Text}

theorem isArgument (invocation : IsInvocation code) : IsArgument code := by
  obtain ⟨words, arguments, -, nameable, inside, rfl⟩ := invocation
  have name : Matched (Text.join "." words) :=
    Matched.join (b := 46) (fun _ => rfl) (fun _ => apart_cons rfl) (by decide) (by decide)
      fun word member => matched_of_isNameable (nameable word member)
  have opening : Sealed "(" ([] ++ [.mark 40]) := fun _ => rfl
  refine ⟨fun none => ?_, name.append (.enclosed opening .nil (matched_arguments inside))
    (apart_cons rfl)⟩
  cases (List.append_eq_nil_iff.mp none).2

/-- An invocation ends in a parenthesis. -/
theorem getLast?_eq (invocation : IsInvocation code) : code.getLast? = some 41 := by
  obtain ⟨words, arguments, -, -, -, rfl⟩ := invocation
  simp only [List.getLast?_append]
  rfl

theorem identifier (name : Text) {values : List Text}
    (members : ∀ value ∈ values, IsArgument value) :
    IsInvocation (Code.identifier name ++ ("(" ++ (Text.join ", " values ++ ")"))) := by
  refine ⟨[Code.identifier name], values, List.cons_ne_nil _ _, ?_, members, ?_⟩
  · intro word member
    rw [List.mem_singleton.mp member]
    exact isNameable_identifier name
  · rw [Text.join_singleton]

/-- A function of a class of the library. -/
theorem method {owner name : Text} (first : isNameable owner = true)
    (second : isNameable name = true) {values : List Text}
    (members : ∀ value ∈ values, IsArgument value) :
    IsInvocation (owner ++ ("." ++ (name ++ ("(" ++ (Text.join ", " values ++ ")"))))) := by
  refine ⟨[owner, name], values, List.cons_ne_nil _ _, ?_, members, ?_⟩
  · simp [first, second]
  · rw [Text.join_cons_cons, Text.join_singleton]
    simp only [List.append_assoc]

end IsInvocation

/-! ### Builtins -/

end Code

/-- **A call of a builtin whose code is no invocation:** of 長度, or of 轉換 without an argument. -/
def Builtin.hidesCall (name : Text) (bare : Bool) : Bool :=
  name == ("長度" : Text) || (name == ("轉換" : Text) && bare)

namespace Code

section

variable {b : Builtin} {values : List Text}

/-- The names that the functions of the language are written with. -/
theorem isNameable_library : ∀ word ∈ (["Console", "WriteLine", "ReadLine", "Convert", "ToString",
    "ToDouble"] : List Text), isNameable word = true :=
  List.all_eq_true.mp (by decide +kernel)

/-- A number that ends in a zero is no invocation. -/
theorem not_isInvocation_zero {code : Text} (zero : code.getLast? = some 48) :
    ¬ IsInvocation code := by
  intro invocation
  cases zero.symm.trans invocation.getLast?_eq

/-- A function of a class with one argument. -/
theorem IsInvocation.one {owner name value : Text} (first : isNameable owner = true)
    (second : isNameable name = true) (argument : IsArgument value) :
    IsInvocation (owner ++ ("." ++ (name ++ ("(" ++ (value ++ ")"))))) := by
  have whole := IsInvocation.method first second fun v (member : v ∈ [value]) =>
    List.mem_singleton.mp member ▸ argument
  rwa [Text.join_singleton] at whole

/-- **The calls of builtins that are invocations.** -/
theorem isInvocation_render_iff (known : b ∈ Builtin.all) (function : b.kind = .function)
    (members : ∀ value ∈ values, IsArgument value) :
    IsInvocation (b.render values) ↔ Builtin.hidesCall b.name values.isEmpty = false := by
  simp only [Builtin.all, List.mem_cons, List.not_mem_nil, or_false] at known
  rcases known with rfl | rfl | rfl | rfl | rfl | rfl | rfl
  · refine iff_of_true ?_ rfl
    exact .method (isNameable_library "Console" (by simp))
      (isNameable_library "WriteLine" (by simp)) members
  · refine iff_of_true ?_ rfl
    exact .method (isNameable_library "Console" (by simp)) (isNameable_library "ReadLine" (by simp))
      (List.forall_mem_nil _)
  · have hides : ∀ bare, ¬ Builtin.hidesCall "長度" bare = false := by decide
    refine iff_of_false ?_ (hides _)
    cases values with
    | nil => exact not_isInvocation_zero rfl
    | cons value values =>
      intro invocation
      have last := invocation.getLast?_eq
      simp only [Builtin.render, Builtin.Form.fill, List.getLast?_append] at last
      cases last
  · cases values with
    | nil => exact iff_of_false (not_isInvocation_zero rfl) (by decide)
    | cons value values =>
      refine iff_of_true ?_ rfl
      exact .one (isNameable_library "Convert" (by simp)) (isNameable_library "ToDouble" (by simp))
        (members value List.mem_cons_self)
  all_goals cases function

/-- The code of a builtin can be an argument. -/
theorem isArgument_render (known : b ∈ Builtin.all)
    (members : ∀ value ∈ values, IsArgument value) : IsArgument (b.render values) := by
  have invoked (function : b.kind = .function)
      (shows : Builtin.hidesCall b.name values.isEmpty = false) : IsArgument (b.render values) :=
    ((isInvocation_render_iff known function members).mpr shows).isArgument
  have word {w : Text} (bytes : w ≠ [] ∧ w.all isWordByte = true) : IsArgument w :=
    .word bytes.1 (List.all_eq_true.mp bytes.2)
  simp only [Builtin.all, List.mem_cons, List.not_mem_nil, or_false] at known
  rcases known with rfl | rfl | rfl | rfl | rfl | rfl | rfl
  · exact invoked rfl rfl
  · exact invoked rfl rfl
  · cases values with
    | nil => exact word (w := "0") (by decide)
    | cons value values =>
      have call := IsInvocation.one (isNameable_library "Convert" (by simp))
        (isNameable_library "ToString" (by simp)) (members value List.mem_cons_self)
      have dot : Sealed "." [.mark 46] := fun _ => rfl
      have length : Matched ".Length" := .behind dot (nested_mark (by decide) (by decide))
        (word (w := "Length") (by decide)).matched
      have whole := call.isArgument.matched.append length (apart_cons rfl)
      simp only [List.append_assoc] at whole
      refine ⟨List.cons_ne_nil _ _, ?_⟩
      rw [Builtin.render, Builtin.Form.fill, List.append_assoc]
      exact whole
  · cases values with
    | nil => exact .number (.inr ⟨[48], [48], isDigits_zero, isDigits_zero, rfl⟩)
    | cons value values => exact invoked rfl rfl
  · exact word (w := "true") (by decide)
  · exact word (w := "false") (by decide)
  · exact word (w := "null") (by decide)

end

end Code

/-! ### Expressions -/

section

open Code

/-- **The code of an expression can be an argument.** -/
theorem composes_isArgument : Composes IsArgument where
  group {op left right} known first second := by
    have blank {more : Text} (matched : Matched more) : Matched (" " ++ more) :=
      .behind (fun _ => rfl) .nil matched
    have opening : Sealed "(" ([] ++ [.mark 40]) := fun _ => rfl
    have inner := first.matched.append (blank (.sign known (blank second.matched))) (apart_cons rfl)
    have whole := Matched.enclosed opening .nil inner
    refine ⟨List.cons_ne_nil _ _, ?_⟩
    simpa only [List.append_assoc] using whole
  literal t := ⟨List.cons_ne_nil _ _, .quote t⟩
  number := .number
  name := .identifier
  builtin := isArgument_render
  call name _ members := by
    have invocation := IsInvocation.identifier name members
    simpa only [List.append_assoc] using invocation.isArgument
  list members := by
    have opening : Sealed "new List<object> \x7b "
        [.word "new", .word "List", .mark 60, .word "object", .mark 62, .mark 123] := fun _ => rfl
    have closing : Matched " \x7d" :=
      ⟨[.mark 125], fun _ _ => rfl, nested_mark (by decide) (by decide)⟩
    have whole := Matched.behind opening (nested_of_free (by decide))
      ((matched_arguments members).append closing (apart_cons rfl))
    refine ⟨List.cons_ne_nil _ _, ?_⟩
    simpa only [List.append_assoc] using whole

/-- **A call that the code does not write as one.** -/
def Expr.isHiddenCall : Expr → Bool
  | .call _ callee arguments mark =>
    (Builtin.standsFor? callee.lexeme mark .function).isSome &&
      Builtin.hidesCall callee.lexeme arguments.isEmpty
  | _ => false

/-- A call, of any function. -/
def Expr.isCall : Expr → Bool
  | .call .. => true
  | _ => false

/-- **The calls whose code is an invocation:** all but those of 長度, and of 轉換 without an
argument, where the name stands for the builtin. -/
theorem Expr.isInvocation_code_iff {e : Expr} (call : e.isCall = true) (legible : e.Legible)
    {code : Text} (written : e.code = .ok code) :
    IsInvocation code ↔ e.isHiddenCall = false := by
  cases e with
  | call _ callee arguments mark =>
    rw [Expr.code] at written
    obtain ⟨values, valuesWritten, written⟩ := bind_eq_ok.mp written
    have members := good_exprCodes composes_isArgument arguments legible values valuesWritten
    have length := length_exprCodes valuesWritten
    cases found : Builtin.standsFor? callee.lexeme mark .function with
    | some b =>
      rw [found] at written
      cases written
      obtain ⟨known, same, function⟩ := Builtin.eq_of_standsFor? found
      have empty : values.isEmpty = arguments.isEmpty := by
        rw [Bool.eq_iff_iff, List.isEmpty_iff_length_eq_zero, List.isEmpty_iff_length_eq_zero,
          length]
      rw [isInvocation_render_iff known function members, Expr.isHiddenCall, found, same, empty]
      rfl
    | none =>
      rw [found] at written
      cases written
      have invocation := IsInvocation.identifier callee.lexeme members
      simp only [List.append_assoc]
      refine iff_of_true invocation ?_
      rw [Expr.isHiddenCall, found]
      rfl
  | binary | literal | use | list | missing => cases call

end

end Guwen
