/-
**Concatenation: what follows a program does not change it.**

A source is finished when its last token is 也, 云云 or 之術也, or it has none. Behind a finished
source and a line feed another source is read as if it stood alone, only further down
(`ofSource_line_iff`); resolution and generation take the statements in their order, so what they
made of the first ones stays.

* `body_tokenize_line` — the tokens before the end of both sources.
* `exists_stmtMarks_append` — generation of both programs.
* **`compile_append_line`** — the program of both sources is that of the first followed by that of
  the second, and their code is that of the first with lines added before its last three.
-/
import Guwen.Proofs.Compilation.Nesting
import Guwen.Proofs.Grammar.Succession
import Guwen.Proofs.Token.Lines

namespace Guwen

open Code Grammar

/-! ### Reading -/

/-- **The program so many lines further down.** -/
def Program.down (n : Int) (p : Program) : Program := stmtsMapTokens (Token.down n) (Token.down n) p

theorem keeps_down (n : Int) : Keeps (Token.down n) := by
  refine ⟨fun _ => rfl, fun _ => rfl, fun a b => ?_⟩
  unfold adjacent
  have same : ((a.down n).position.line == (b.down n).position.line) =
      (a.position.line == b.position.line) := by
    rw [Bool.eq_iff_iff, beq_iff_eq, beq_iff_eq]
    exact Int.add_left_inj n
  rw [same]
  rfl

theorem down_neg_down (n : Int) (t : Token) : (t.down n).down (-n) = t := by
  obtain ⟨kind, lexeme, ⟨line, column⟩⟩ := t
  show Token.mk kind lexeme ⟨line + n + -n, column⟩ = _
  rw [Int.add_neg_cancel_right]

/-- A finished source leaves no string open, since the open string would be its last token. -/
theorem leavesOpen_of_finished {a : Text} (finished : Finished (body (Token.tokenize a))) :
    Token.leavesOpen 0 a.chars = false := by
  refine Bool.eq_false_iff.mpr fun opened => ?_
  obtain ⟨t, last, string⟩ := Token.exists_string_of_leavesOpen opened .start
  have finishing := finished t (dropLast_tokenize a ▸ last)
  rw [string] at finishing
  cases finishing

/-- **The tokens of two sources with a line feed between them,** the first one finished. -/
theorem body_tokenize_line {a : Text} (finished : Finished (body (Token.tokenize a))) (b : Text) :
    body (Token.tokenize (a ++ 10 :: b)) = body (Token.tokenize a) ++
      (body (Token.tokenize b)).map (Token.down (a.chars.count '\n' + 1)) := by
  rw [Token.tokenize_line (leavesOpen_of_finished finished), dropLast_tokenize]
  have before : ∀ t ∈ body (Token.tokenize a), (t.kind != .eof) = true := by
    intro t member
    unfold body at member
    have picked := List.mem_takeWhile_imp member
    exact picked
  rw [body, List.takeWhile_append_of_pos before, List.takeWhile_map]
  rfl

/-- **A source behind a finished one is read as if it stood alone,** only further down. -/
theorem ofSource_line_iff {a : Text} {p : Program} (read : Program.ofSource a = .ok p)
    (finished : Finished (body (Token.tokenize a))) {b : Text} {r : Program} :
    Program.ofSource (a ++ 10 :: b) = .ok r ↔
      ∃ q, Program.ofSource b = .ok q ∧ r = p ++ q.down (a.chars.count '\n' + 1) := by
  have shift {more : Program} := @derives_map_iff _ _ (keeps_down (a.chars.count '\n' + 1))
    (keeps_down (-(a.chars.count '\n' + 1))) (down_neg_down _) (body (Token.tokenize b)) more
  rw [Program.ofSource, ofTokens_eq_ok_iff, body_tokenize_line finished,
    derives_append_iff (ofTokens_eq_ok_iff.mp read) finished]
  constructor
  · rintro ⟨more, derived, rfl⟩
    obtain ⟨q, alone, rfl⟩ := shift.mp derived
    exact ⟨q, ofTokens_eq_ok_iff.mpr alone, rfl⟩
  · rintro ⟨q, alone, rfl⟩
    exact ⟨_, shift.mpr ⟨q, ofTokens_eq_ok_iff.mp alone, rfl⟩, rfl⟩

/-! ### Generation -/

/-- **The marks of statements one after another.** -/
theorem exists_stmtMarks_append {ss more : List Stmt} {inner whole : List Mark}
    (first : stmtMarks ss = .ok inner) (written : stmtMarks (ss ++ more) = .ok whole) :
    ∃ rest, stmtMarks more = .ok rest ∧ whole = inner ++ rest := by
  induction ss generalizing inner whole with
  | nil =>
    cases first
    exact ⟨whole, written, rfl⟩
  | cons s ss ih =>
    rw [stmtMarks] at first
    obtain ⟨marks, head, first⟩ := bind_eq_ok.mp first
    obtain ⟨others, tail, first⟩ := bind_eq_ok.mp first
    rw [List.cons_append, stmtMarks] at written
    obtain ⟨again, same, written⟩ := bind_eq_ok.mp written
    obtain ⟨later, laterWritten, written⟩ := bind_eq_ok.mp written
    cases head.symm.trans same
    cases first
    cases written
    obtain ⟨rest, restWritten, rfl⟩ := ih tail laterWritten
    exact ⟨rest, restWritten, (List.append_assoc marks others rest).symm⟩

/-! ### Lines -/

/-- **The last three lines of a unit,** which close the blocks around a program. -/
def closingLines (indent : Text) : List Text :=
  [indent ++ indent ++ "\x7d", indent ++ "\x7d", "\x7d"]

/-- The marks before a program. -/
def opening (options : Options) : List Mark :=
  [.line "using System;", .line "using System.Collections.Generic;", .line "",
    .line ("namespace " ++ options.space), .openBlock,
    .line ("public class " ++ options.className), .openBlock,
    .line "public static void Main()", .openBlock]

theorem lines_wrap (options : Options) {inner : List Mark} (laid : Laid inner) :
    Mark.lines options.indent 0 (wrap options inner) = Mark.lines options.indent 0 (opening options)
      ++ (Mark.lines options.indent 3 inner ++ closingLines options.indent) := by
  have parts : wrap options inner =
      opening options ++ (inner ++ [.closeBlock, .closeBlock, .closeBlock]) := by
    simp [wrap, opening, Mark.enclose]
  have closed : Mark.lines options.indent 3 [.closeBlock, .closeBlock, .closeBlock] =
      closingLines options.indent := by
    simp [Mark.lines, Mark.lineOf, Mark.levelAfter, Text.replicate, closingLines]
  rw [parts, lines_append, lines_append, ← closed, laid.level]
  rfl

/-- The lines of a unit as its text shows them. -/
theorem split_layout_wrap {options : Options} (indent : 10 ∉ options.indent) {inner : List Mark}
    (laid : Laid inner) : List.splitOn 10 (Mark.layout options.indent 0 (wrap options inner)) =
      (Mark.lines options.indent 0 (opening options)).flatMap (List.splitOn 10) ++
        ((Mark.lines options.indent 3 inner).flatMap (List.splitOn 10) ++
          (closingLines options.indent ++ [[]])) := by
  have closed : (closingLines options.indent).flatMap (List.splitOn 10) =
      closingLines options.indent := by
    have brace : (10 : UInt8) ∉ ("\x7d" : Text) := by decide
    unfold closingLines
    simp only [List.flatMap_cons, List.flatMap_nil, List.splitOn_eq_singleton brace,
      List.splitOn_eq_singleton (not_mem_append indent brace),
      List.splitOn_eq_singleton (not_mem_append (not_mem_append indent indent) brace)]
    rfl
  rw [layout_eq, lines_wrap options laid, split_flatMap, List.flatMap_append, List.flatMap_append,
    closed, List.append_assoc, List.append_assoc]

/-! ### The main result -/

/-- **What follows a finished source does not change what was made of it.** Behind an accepted
source that is finished, and a line feed, another source is refused just when it is refused alone,
and its statements follow those of the first, further down. If both together are accepted, their
code is that of the first, with lines added before the last three. -/
theorem compile_append_line {options : Options} {a code : Text}
    (accepted : (compile options a).outcome = .ok code)
    (finished : Finished (body (Token.tokenize a))) (b : Text) :
    (∃ p, Program.ofSource a = .ok p ∧ ∀ r, Program.ofSource (a ++ 10 :: b) = .ok r ↔
      ∃ q, Program.ofSource b = .ok q ∧ r = p ++ q.down (a.chars.count '\n' + 1)) ∧
    (10 ∉ options.indent → ∀ both, (compile options (a ++ 10 :: b)).outcome = .ok both →
      ∃ before more, List.splitOn 10 code =
          before ++ (closingLines options.withDefaults.indent ++ [[]]) ∧
        List.splitOn 10 both =
          before ++ (more ++ (closingLines options.withDefaults.indent ++ [[]]))) := by
  obtain ⟨p, inner, read, resolved, written, laid, rfl⟩ := exists_marks accepted
  refine ⟨⟨p, read, fun r => ofSource_line_iff read finished⟩, fun plain both success => ?_⟩
  obtain ⟨r, whole, readBoth, -, writtenBoth, laidBoth, rfl⟩ := exists_marks success
  obtain ⟨q, -, rfl⟩ := (ofSource_line_iff read finished).mp readBoth
  have trees : (p ++ q.down (a.chars.count '\n' + 1)).resolve.tree = p.resolve.tree ++ _ :=
    congrArg Resolved.tree (resolveStmts_append resolved _)
  rw [trees] at writtenBoth
  obtain ⟨rest, -, rfl⟩ := exists_stmtMarks_append written writtenBoth
  have indent : 10 ∉ options.withDefaults.indent := by
    show 10 ∉ if options.indent.isEmpty then Options.standard.indent else options.indent
    split
    · decide
    · exact plain
  refine ⟨(Mark.lines options.withDefaults.indent 0 (opening options.withDefaults)).flatMap
      (List.splitOn 10) ++
        (Mark.lines options.withDefaults.indent 3 inner).flatMap (List.splitOn 10),
    (Mark.lines options.withDefaults.indent 3 rest).flatMap (List.splitOn 10), ?_, ?_⟩
  · rw [split_layout_wrap indent laid, List.append_assoc]
  · rw [split_layout_wrap indent laidBoth, lines_append, laid.level, List.flatMap_append]
    simp only [List.append_assoc]

/-- The first source has a line feed in a string and ends with a comment, which the second source is
no part of. -/
theorem compile_append_line_comment :
    let a : Text := "吾有一言曰「甲」其值「\n」也//云"
    let b : Text := "云甲"
    ∃ code both p q, (compile .blank a).outcome = .ok code ∧ Finished (body (Token.tokenize a)) ∧
      Program.ofSource a = .ok p ∧ Program.ofSource b = .ok q ∧
      Program.ofSource (a ++ 10 :: b) = .ok (p ++ q.down 2) ∧
      (compile .blank (a ++ 10 :: b)).outcome = .ok both ∧
      ∃ before more, List.splitOn 10 code = before ++ (closingLines "    " ++ [[]]) ∧
        List.splitOn 10 both = before ++ (more ++ (closingLines "    " ++ [[]])) := by
  intro a b
  have scanned : Token.tokenize a =
      [⟨.declare, "吾有", 1, 1⟩, ⟨.stringType, "一言", 1, 3⟩, ⟨.named, "曰", 1, 5⟩,
       ⟨.string, "甲", 1, 6⟩, ⟨.value, "其值", 1, 9⟩, ⟨.string, "\n", 1, 11⟩, ⟨.close, "也", 2, 2⟩,
       ⟨.eof, [], 2, 6⟩] := by
    decide +kernel
  have scannedBehind : Token.tokenize b =
      [⟨.print, "云", 1, 1⟩, ⟨.identifier, "甲", 1, 2⟩, ⟨.eof, [], 1, 3⟩] := by
    decide +kernel
  have lines : a.chars.count '\n' = 1 := by decide +kernel
  let p : Program := [.declare ⟨.declare, "吾有", 1, 1⟩ ⟨.stringType, "一言", 1, 3⟩
    ⟨.string, "甲", 1, 6⟩ (some (.literal ⟨.string, "\n", 1, 11⟩ .string "\n"))]
  let q : Program := [.print ⟨.print, "云", 1, 1⟩ (.use ⟨.identifier, "甲", 1, 2⟩ none)]
  have read : Program.ofSource a = .ok p := by
    rw [Program.ofSource, scanned]
    with_unfolding_all rfl
  have readBehind : Program.ofSource b = .ok q := by
    rw [Program.ofSource, scannedBehind]
    with_unfolding_all rfl
  have finished : Finished (body (Token.tokenize a)) := by
    rw [scanned]
    intro t last
    cases last
    rfl
  obtain ⟨code, accepted⟩ := exists_compile .blank read (by decide)
  obtain ⟨⟨p', read', follows⟩, keeps⟩ := compile_append_line accepted finished b
  cases read.symm.trans read'
  have readBoth : Program.ofSource (a ++ 10 :: b) = .ok (p ++ q.down 2) := by
    rw [follows, lines]
    exact ⟨q, readBehind, rfl⟩
  obtain ⟨both, acceptedBoth⟩ := exists_compile .blank readBoth (by decide)
  exact ⟨code, both, p, q, accepted, finished, read, readBehind, readBoth, acceptedBoth,
    keeps (by decide) both acceptedBoth⟩

end Guwen
