/-
**Nesting: the code of every accepted source is indented by its braces.**

The marks of an accepted source are laid (`exists_marks`), and so is the unit around them
(`laid_wrap`), as long as no option brings braces or line feeds of its own.

* **`compile_nests_braces`** — no closing brace of the code stands before the opening one it
  answers, all are answered, and each line stands where the braces before it say.
-/
import Guwen.Proofs.Code.Braces
import Guwen.Proofs.Compilation.Preservation

namespace Guwen

open Code

/-- **The marks of an accepted source are laid,** and the code is what they write. -/
theorem exists_marks {options : Options} {source code : Text}
    (accepted : (compile options source).outcome = .ok code) :
    ∃ p inner, Program.ofSource source = .ok p ∧ p.resolve.fault = none ∧
      stmtMarks p.resolve.tree = .ok inner ∧ Laid inner ∧
      code = Mark.layout options.withDefaults.indent 0 (wrap options.withDefaults inner) := by
  obtain ⟨p, read, resolved, written⟩ := compile_eq_ok_iff.mp accepted
  have legible : stmtsLegible p.resolve.tree := by
    rw [legible_resolve]
    exact legible_of_ofSource read
  obtain ⟨inner, innerWritten, written⟩ := bind_eq_ok.mp written
  cases written
  exact ⟨p, inner, read, resolved, innerWritten, laid_stmtMarks _ legible inner innerWritten, rfl⟩

/-- **No option brings a brace or a line feed.** -/
structure Options.Braceless (options : Options) : Prop where
  space : IsBraceless options.space
  className : IsBraceless options.className
  indent : IsBraceless options.indent

theorem Options.Braceless.withDefaults {options : Options} (plain : options.Braceless) :
    options.withDefaults.Braceless := by
  refine ⟨?_, ?_, ?_⟩
  · show IsBraceless (if options.space.isEmpty then standard.space else options.space)
    split
    · decide
    · exact plain.space
  · show IsBraceless (if options.className.isEmpty then standard.className else options.className)
    split
    · decide
    · exact plain.className
  · show IsBraceless (if options.indent.isEmpty then standard.indent else options.indent)
    split
    · decide
    · exact plain.indent

theorem Options.braceless_blank : Options.blank.Braceless := ⟨by decide, by decide, by decide⟩

/-- The unit around laid marks is laid. -/
theorem laid_wrap {options : Options} (plain : options.Braceless) {inner : List Mark}
    (laid : Laid inner) : Laid (wrap options inner) := by
  have main : Tidy "public static void Main()" := tidy_of_braceless (by decide) rfl
  have unit : Tidy ("public class " ++ options.className) :=
    (tidy_of_braceless (by decide) rfl).append plain.className.flat
  have space : Tidy ("namespace " ++ options.space) :=
    (tidy_of_braceless (by decide) rfl).append plain.space.flat
  have first : Tidy "using System;" := tidy_of_braceless (by decide) rfl
  have second : Tidy "using System.Collections.Generic;" := tidy_of_braceless (by decide) rfl
  exact .line (.inr first) (.line (.inr second) (.line (.inl rfl)
    (((laid.headed main).headed unit).headed space)))

/-- **Braces and indentation agree in all code.** Whatever stands in the strings and names of an
accepted source: no part of the code from its start closes more braces than it opens; the whole
closes all of them; and each line that is not empty stands behind as many copies of the indentation
as braces are open before it, or one less if it is a closing brace, and goes on with something that
shows. -/
theorem compile_nests_braces {options : Options} {source code : Text} (plain : options.Braceless)
    (accepted : (compile options source).outcome = .ok code) :
    (∀ before, before <+: code → before.count 125 ≤ before.count 123) ∧
      code.count 123 = code.count 125 ∧
      ∀ before line after, List.splitOn 10 code = before ++ line :: after →
        ∃ depth, before.flatten.count 123 = before.flatten.count 125 + depth ∧
          StandsAt options.withDefaults.indent depth line := by
  obtain ⟨p, inner, -, -, -, laid, rfl⟩ := exists_marks accepted
  have indented := (laid_wrap plain.withDefaults laid).indented plain.withDefaults.indent 0
  rw [layout_eq]
  generalize Mark.lines options.withDefaults.indent 0 (wrap options.withDefaults inner) = lines
    at indented
  have whole := indented.depth
  refine ⟨fun before within => ?_, ?_, fun before line after parts => ?_⟩
  · obtain ⟨depth, reached⟩ := depthAfter?_of_prefix within whole
    have counted := count_of_depthAfter? reached
    omega
  · have counted := count_of_depthAfter? whole
    omega
  · have single : lines.flatMap (List.splitOn 10) = lines := by
      rw [List.flatMap_congr fun line member =>
        List.splitOn_eq_singleton (indented.oneLine line member)]
      exact List.flatMap_singleton' lines
    rw [split_flatMap, single] at parts
    have ended : Indented options.withDefaults.indent 0 [[]] 0 :=
      .single List.not_mem_nil (.inl rfl) rfl
    have all := indented.append ended
    rw [parts] at all
    obtain ⟨depth, reached, stands⟩ := all.standsAt
    have counted := count_of_depthAfter? reached
    exact ⟨depth, by omega, stands⟩

/-- Braces in the name of a function and in strings, a line feed in a string, a list, and an
indentation that is not blank. -/
theorem compile_nests_braces_quoted :
    let source : Text :=
      "有術曰「\x7d\x7b」恆為是云「\n\x7d」乃止云云之術也吾有一列曰「\x7b」其值「\x7d」、一也"
    let options : Options := ⟨"n", [], "|"⟩
    ∃ code, options.Braceless ∧ (compile options source).outcome = .ok code ∧
      (∀ before, before <+: code → before.count 125 ≤ before.count 123) ∧
      code.count 123 = code.count 125 ∧
      ∀ before line after, List.splitOn 10 code = before ++ line :: after →
        ∃ depth, before.flatten.count 123 = before.flatten.count 125 + depth ∧
          StandsAt "|" depth line := by
  intro source options
  have scanned : Token.tokenize source =
      [⟨.function, "有術", 1, 1⟩, ⟨.named, "曰", 1, 3⟩, ⟨.string, "\x7d\x7b", 1, 4⟩,
       ⟨.loop, "恆為是", 1, 8⟩, ⟨.print, "云", 1, 11⟩, ⟨.string, "\n\x7d", 1, 12⟩,
       ⟨.breaks, "乃止", 2, 3⟩, ⟨.blockEnd, "云云", 2, 5⟩, ⟨.functionEnd, "之術也", 2, 7⟩,
       ⟨.declare, "吾有", 2, 10⟩, ⟨.listType, "一列", 2, 12⟩, ⟨.named, "曰", 2, 14⟩,
       ⟨.string, "\x7b", 2, 15⟩, ⟨.value, "其值", 2, 18⟩, ⟨.string, "\x7d", 2, 20⟩,
       ⟨.comma, "、", 2, 23⟩, ⟨.number, "一", 2, 24⟩, ⟨.close, "也", 2, 25⟩,
       ⟨.eof, [], 2, 26⟩] := by
    decide +kernel
  obtain ⟨p, read, resolved⟩ : ∃ p, Program.ofSource source = .ok p ∧ p.resolve.fault = none := by
    refine ⟨[
      .function ⟨.function, "有術", 1, 1⟩ ⟨.string, "\x7d\x7b", 1, 4⟩ []
        [.loop ⟨.loop, "恆為是", 1, 8⟩
          [.print ⟨.print, "云", 1, 11⟩ (.literal ⟨.string, "\n\x7d", 1, 12⟩ .string "\n\x7d"),
           .breaks ⟨.breaks, "乃止", 2, 3⟩]],
      .declare ⟨.declare, "吾有", 2, 10⟩ ⟨.listType, "一列", 2, 12⟩ ⟨.string, "\x7b", 2, 15⟩
        (some (.list ⟨.string, "\x7d", 2, 20⟩
          [.literal ⟨.string, "\x7d", 2, 20⟩ .string "\x7d",
           .literal ⟨.number, "一", 2, 24⟩ .number "1"]))], ?_, ?_⟩
    · rw [Program.ofSource, scanned]
      with_unfolding_all rfl
    · decide
  have plain : options.Braceless := ⟨by decide, by decide, by decide⟩
  obtain ⟨code, accepted⟩ := exists_compile options read resolved
  exact ⟨code, plain, accepted, compile_nests_braces plain accepted⟩

end Guwen
