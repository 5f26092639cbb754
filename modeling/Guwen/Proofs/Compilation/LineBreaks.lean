/-
**Line breaks: where the lines of the code end.**

The code ends each of its lines with a line feed. No carriage return and no other line feed can come
into it, but three characters that end a line of C# as well pass through a string literal as they
are: the next line, the line separator and the paragraph separator.

* `strings_of_forms` — the texts that are written as literals are those of string tokens.
* `weaves_of_resolve` — the expressions of an accepted source are woven from their texts.
* **`compile_breaks`** — the line breaks of the code inside its lines, and which literals C# can
  read.
* `compile_breaks_line` — so a line of the code can be broken.
-/
import Guwen.Proofs.Code.Weave
import Guwen.Proofs.Compilation.Nesting

namespace Guwen

open Code Grammar

/-! ### Texts that are written as literals -/

mutual

theorem Expr.strings_bare : ∀ e : Expr, e.bare.strings = e.strings
  | .binary _ _ left right => by
    rw [Expr.bare, Expr.strings, left.strings_bare, right.strings_bare, Expr.strings]
  | .call _ _ arguments _ => exprStrings_bare arguments
  | .list _ elements => exprStrings_bare elements
  | .literal .. | .use .. | .missing => rfl

theorem exprStrings_bare : ∀ es : List Expr, exprStrings (bareExprs es) = exprStrings es
  | [] => rfl
  | e :: es => by rw [bareExprs, exprStrings, e.strings_bare, exprStrings_bare es, exprStrings]

end

/-- Resolution leaves the texts of a program as they are. -/
theorem strings_resolve (p : Program) : Program.strings p.resolve.tree = p.strings := by
  have bare : ∀ q : Program, q.strings = ((stmtExprs q).map Expr.bare).flatMap Expr.strings := by
    intro q
    rw [List.flatMap_map]
    exact congrArg ((stmtExprs q).flatMap ·) (funext fun e => e.strings_bare.symm)
  have same : bareStmts p.resolve.tree = bareStmts p := bare_resolveStmts .initial p
  rw [bare, ← stmtExprs_bare, same, stmtExprs_bare, ← bare]

namespace Grammar

/-- The texts of a phrase that are written as literals. -/
def Phrase.strings : Phrase → List Text
  | operand e | term e | sum e | expression e => e.strings
  | arguments es => exprStrings es

/-- The text is that of a string token. -/
def StringIn (ts : List Token) (text : Text) : Prop := ∃ t ∈ ts, t.kind = .string ∧ t.lexeme = text

theorem StringIn.mono {ts us : List Token} {text : Text} (inside : StringIn ts text)
    (within : ∀ t ∈ ts, t ∈ us) : StringIn us text := by
  obtain ⟨t, member, string, same⟩ := inside
  exact ⟨t, within t member, string, same⟩

/-- **The texts that a phrase has as literals are those of its string tokens.** -/
theorem strings_of_spells {phrase : Phrase} {ts after : List Token}
    (spelt : Spells phrase ts after) : ∀ text ∈ phrase.strings, StringIn ts text := by
  induction spelt with
  | arabic | glyphs | name | bareCall => exact fun _ member => absurd member List.not_mem_nil
  | @string t _ string =>
    intro text member
    cases List.mem_singleton.mp member
    exact ⟨t, List.mem_singleton_self t, string, rfl⟩
  | call _ _ _ _ values =>
    exact fun text member => (values text member).mono fun t inside => by simp [inside]
  | lastArgument _ _ value =>
    intro text member
    rw [Phrase.strings, exprStrings, exprStrings, List.append_nil] at member
    exact value text member
  | argument _ _ _ first rest | product _ _ _ _ first rest | sum _ _ _ _ first rest
  | comparison _ _ _ _ first rest =>
    intro text member
    rcases List.mem_append.mp member with here | later
    · exact (first text here).mono fun t inside => by simp [inside]
    · exact (rest text later).mono fun t inside => by simp [inside]
  | operandTerm _ inner | termSum _ inner | sumExpression _ inner => exact inner

theorem strings_of_spellsElements {es : List Expr} {ts after : List Token}
    (spelt : SpellsElements es ts after) : ∀ text ∈ exprStrings es, StringIn ts text := by
  induction spelt with
  | last value =>
    intro text member
    rw [exprStrings, exprStrings, List.append_nil] at member
    exact strings_of_spells value text member
  | more value _ _ rest =>
    intro text member
    rcases List.mem_append.mp member with here | later
    · exact (strings_of_spells value text here).mono fun t inside => by simp [inside]
    · exact (rest text later).mono fun t inside => by simp [inside]

end Grammar

section Program

variable {source : Text} {p : Program}

/-- **The texts of a program that are written as literals are those of string tokens.** -/
theorem strings_of_ofSource (read : Program.ofSource source = .ok p) :
    ∀ text ∈ p.strings, StringIn (body (Token.tokenize source)) text := by
  intro text member
  obtain ⟨e, outermost, inside⟩ := List.mem_flatMap.mp member
  obtain ⟨isList, us, rest, within, value⟩ :=
    spelt_of_forms (ofTokens_eq_ok_iff.mp read) e outermost
  have string : StringIn us text := by
    cases value with
    | single value | reference value _ => exact strings_of_spells value text inside
    | list values _ => exact strings_of_spellsElements values text inside
  exact string.mono within

theorem written_of_ofSource (read : Program.ofSource source = .ok p) :
    ∀ text ∈ p.strings, text.IsWritten := by
  intro text member
  obtain ⟨t, inside, -, rfl⟩ := strings_of_ofSource read text member
  obtain ⟨cs, -, same⟩ := (body_tokenize source).1 t inside
  exact ⟨cs, same⟩

/-- **The expressions of an accepted source are woven from their texts.** -/
theorem weaves_of_resolve (read : Program.ofSource source = .ok p)
    (resolved : p.resolve.fault = none) : ∀ e ∈ stmtExprs p.resolve.tree, e.Weaves := by
  intro e member
  have complete := complete_of_derives (ofTokens_eq_ok_iff.mp read)
  have legible := (sound_of_ofSource read ⟨e, member, .self e⟩).1
  have fit := fits_of_resolve complete resolved
  refine e.woven_code legible (fun act inside => fit act (mem_stmtActs _ e member act inside)) ?_
  intro text inside
  refine written_of_ofSource read text ?_
  rw [← strings_resolve]
  exact List.mem_flatMap.mpr ⟨e, member, inside⟩

end Program

/-! ### The unit around a program -/

/-- **No option brings a line break.** -/
structure Options.Unbroken (options : Options) : Prop where
  space : Code.Unbroken options.space
  className : Code.Unbroken options.className
  indent : Code.Unbroken options.indent

theorem Options.Unbroken.withDefaults {options : Options} (unbroken : options.Unbroken) :
    options.withDefaults.Unbroken := by
  have either {t default : Text} (given : Code.Unbroken t) (fixed : Code.Unbroken default) :
      Code.Unbroken (if t.isEmpty then default else t) := by
    split
    · exact fixed
    · exact given
  exact ⟨either unbroken.space (unbroken_ofString (by decide)),
    either unbroken.className (unbroken_ofString (by decide)),
    either unbroken.indent (unbroken_ofString (by decide))⟩

theorem Options.unbroken_blank : Options.blank.Unbroken :=
  ⟨unbroken_nil, unbroken_nil, unbroken_nil⟩

theorem woven_wrap {options : Options} (unbroken : options.Unbroken) {inner : List Mark}
    {ts : List Text} (inside : WovenMarks inner ts) : WovenMarks (wrap options inner) ts := by
  have unit : Woven ("public class " ++ options.className) [] :=
    woven_unbroken ((unbroken_ofString (by decide)).append unbroken.className)
  have space : Woven ("namespace " ++ options.space) [] :=
    woven_unbroken ((unbroken_ofString (by decide)).append unbroken.space)
  have entry : Woven "public static void Main()" [] := woven_fixed (by decide)
  have blank : Woven [] [] := .nil
  exact .line (woven_fixed (by decide)) (.line (woven_fixed (by decide)) (.line blank
    (.enclose space (.enclose unit (.enclose entry inside)))))

theorem ofChars_lines (lines : List (List Char)) :
    (lines.map Text.ofChars).flatMap (· ++ [10]) = Text.ofChars (lines.flatMap (· ++ ['\n'])) := by
  induction lines with
  | nil => rfl
  | cons line lines ih =>
    rw [List.map_cons, List.flatMap_cons, ih, List.flatMap_cons, Text.ofChars_append,
      Text.ofChars_append]
    rfl

/-- **The lines of the code of an accepted source are woven from its texts.** -/
theorem exists_lines_of_compile {options : Options} (unbroken : options.Unbroken)
    {source code : Text} (accepted : (compile options source).outcome = .ok code) :
    ∃ (p : Program) (inner : List Mark) (lines : List (List Char)),
      Program.ofSource source = .ok p ∧ stmtMarks p.resolve.tree = .ok inner ∧
      Mark.lines options.withDefaults.indent 0 (wrap options.withDefaults inner) =
        lines.map Text.ofChars ∧
      code = Text.ofChars (lines.flatMap (· ++ ['\n'])) ∧
      lines.flatten.filter isLineBreak = (p.strings.flatMap Text.chars).filter isBareBreak ∧
      ∀ text ∈ p.strings, ∃ line ∈ lines, (quote text).chars <:+: line := by
  obtain ⟨p, inner, read, resolved, written, -, rfl⟩ := exists_marks accepted
  have defaults := unbroken.withDefaults
  have inside := woven_stmtMarks _ (weaves_of_resolve read resolved) inner written
  rw [strings_resolve] at inside
  obtain ⟨tss, woven, same⟩ := (woven_wrap defaults inside).lines defaults.indent 0
  obtain ⟨lines, laid, breaks, literals⟩ := exists_lines woven
  rw [same] at breaks literals
  refine ⟨p, inner, lines, read, written, laid, ?_, breaks, literals⟩
  rw [layout_eq, laid, ofChars_lines]

/-! ### The main result -/

/-- **The code ends its lines with line feeds, and the only line breaks inside a line are those that
a string literal does not escape.** For every accepted source, where no option brings a line break,
the code is made of characters, one line for each mark and a line feed behind each line. The line
breaks inside the lines are in order those of the texts that the source has as string literals, the
line feeds and carriage returns apart: none of these is among them, and no name, number or type
brings one. Every such text stands in a line as a literal, and the literal is a regular one of C#
just when the text has no line break but those. -/
theorem compile_breaks {options : Options} (unbroken : options.Unbroken) {source code : Text}
    (accepted : (compile options source).outcome = .ok code) :
    ∃ (p : Program) (inner : List Mark) (lines : List (List Char)),
      Program.ofSource source = .ok p ∧ stmtMarks p.resolve.tree = .ok inner ∧
      Mark.lines options.withDefaults.indent 0 (wrap options.withDefaults inner) =
        lines.map Text.ofChars ∧
      code = Text.ofChars (lines.flatMap (· ++ ['\n'])) ∧
      lines.flatten.filter isLineBreak = (p.strings.flatMap Text.chars).filter isBareBreak ∧
      ∀ text ∈ p.strings, StringIn (Token.tokenize source) text ∧
        (∃ line ∈ lines, (quote text).chars <:+: line) ∧
        (IsRegularLiteral (quote text).chars ↔ ∀ c ∈ text.chars, isBareBreak c = false) := by
  obtain ⟨p, inner, lines, read, written, laid, same, breaks, literals⟩ :=
    exists_lines_of_compile unbroken accepted
  refine ⟨p, inner, lines, read, written, laid, same, breaks, fun text member => ?_⟩
  have within : ∀ t ∈ body (Token.tokenize source), t ∈ Token.tokenize source := by
    intro t inside
    rw [(body_tokenize source).2]
    exact List.mem_append_left _ inside
  refine ⟨(strings_of_ofSource read text member).mono within, literals text member, ?_⟩
  obtain ⟨cs, rfl⟩ := written_of_ofSource read text member
  rw [isRegularLiteral_quote_iff, Text.chars_ofChars]

/-- A text with a line feed, a paragraph separator, a backslash and a quote, and one without a line
break. -/
theorem compile_breaks_separator :
    let broken : Text := "a\n\u2029\\\""
    let whole : Text := "一\\"
    let source : Text := "云「a\n\u2029\\\"」也云「一\\」"
    ∃ (code : Text) (lines : List (List Char)),
      Options.blank.Unbroken ∧ (compile .blank source).outcome = .ok code ∧
      code = Text.ofChars (lines.flatMap (· ++ ['\n'])) ∧
      lines.flatten.filter isLineBreak = ['\u2029'] ∧
      ¬ IsRegularLiteral (quote broken).chars ∧ IsRegularLiteral (quote whole).chars := by
  intro broken whole source
  have scanned : Token.tokenize source =
      [⟨.print, "云", 1, 1⟩, ⟨.string, broken, 1, 2⟩, ⟨.close, "也", 2, 5⟩, ⟨.print, "云", 2, 6⟩,
       ⟨.string, whole, 2, 7⟩, ⟨.eof, [], 2, 11⟩] := by
    decide +kernel
  obtain ⟨p, read, resolved, strings⟩ : ∃ p, Program.ofSource source = .ok p ∧
      p.resolve.fault = none ∧ p.strings = [broken, whole] := by
    refine ⟨[.print ⟨.print, "云", 1, 1⟩ (.literal ⟨.string, broken, 1, 2⟩ .string broken),
      .print ⟨.print, "云", 2, 6⟩ (.literal ⟨.string, whole, 2, 7⟩ .string whole)], ?_, ?_, ?_⟩
    · rw [Program.ofSource, scanned]
      with_unfolding_all rfl
    · decide
    · rfl
  obtain ⟨code, accepted⟩ := exists_compile .blank read resolved
  obtain ⟨p', inner, lines, read', -, -, same, breaks, literals⟩ :=
    compile_breaks Options.unbroken_blank accepted
  obtain rfl : p = p' := Except.ok.inj (read.symm.trans read')
  rw [strings] at breaks literals
  obtain ⟨-, -, first⟩ := literals broken List.mem_cons_self
  obtain ⟨-, -, second⟩ := literals whole (List.mem_cons_of_mem _ List.mem_cons_self)
  have free : (whole.chars.all fun c => !isBareBreak c) = true := by decide +kernel
  have holds : (broken.chars.any isBareBreak) = true := by decide +kernel
  refine ⟨code, lines, Options.unbroken_blank, accepted, same, breaks.trans (by decide +kernel),
    fun regular => ?_, second.mpr fun c member => by simpa using List.all_eq_true.mp free c member⟩
  obtain ⟨c, member, bare⟩ := List.any_eq_true.mp holds
  cases bare.symm.trans (first.mp regular c member)

/-- **An accepted source whose code has a line break that ends none of its lines:** a line separator
between quotes. -/
theorem compile_breaks_line :
    ¬ ∀ source code : Text, (compile .blank source).outcome = .ok code →
      ∀ c ∈ code.chars, isLineBreak c = true → c = '\n' := by
  intro never
  have scanned : Token.tokenize "云「\u2028」" =
      [⟨.print, "云", 1, 1⟩, ⟨.string, "\u2028", 1, 2⟩, ⟨.eof, [], 1, 5⟩] := by
    decide +kernel
  obtain ⟨p, read, resolved, strings⟩ : ∃ p, Program.ofSource "云「\u2028」" = .ok p ∧
      p.resolve.fault = none ∧ p.strings = (["\u2028"] : List Text) := by
    refine ⟨[.print ⟨.print, "云", 1, 1⟩ (.literal ⟨.string, "\u2028", 1, 2⟩ .string "\u2028")],
      ?_, ?_, ?_⟩
    · rw [Program.ofSource, scanned]
      with_unfolding_all rfl
    · decide
    · rfl
  obtain ⟨code, accepted⟩ := exists_compile .blank read resolved
  obtain ⟨p', inner, lines, read', -, -, rfl, breaks, -⟩ :=
    exists_lines_of_compile Options.unbroken_blank accepted
  obtain rfl : p = p' := Except.ok.inj (read.symm.trans read')
  have inside : '\u2028' ∈ lines.flatten.filter isLineBreak := by
    rw [breaks, strings]
    decide +kernel
  obtain ⟨line, member, here⟩ := List.mem_flatten.mp (List.mem_filter.mp inside).1
  have separator : '\u2028' ∈ lines.flatMap (· ++ ['\n']) :=
    List.mem_flatMap.mpr ⟨line, member, List.mem_append_left _ here⟩
  rw [← Text.chars_ofChars (lines.flatMap (· ++ ['\n']))] at separator
  exact absurd (never _ _ accepted _ separator rfl) (by decide)

end Guwen
