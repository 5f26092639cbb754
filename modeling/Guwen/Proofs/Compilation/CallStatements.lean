/-
**Call statements: which of them the code can run.**

A call that stands for its effect gives one line, its code and a semicolon. C# takes such a line
only if the code is an invocation. It is one unless the call is of 長度, or of 轉換 without an
argument, and the name stands for the builtin.

* `stmtPerformed` — the expressions of a program that stand for their effect.
* `Emits` — their lines stand among the marks of the program, in order.
* `isCall_of_ofSource` — in a source each of them is a call.
* **`compile_invokes_iff`** — the call statements of an accepted source whose lines are invocations.
* `compile_emits_member` — and one whose line is not.
-/
import Guwen.Proofs.Code.Invocation
import Guwen.Proofs.Compilation.Nesting

namespace Guwen

open Code Grammar

/-! ### Expressions that stand for their effect -/

mutual

/-- The expressions of a statement that stand for their effect. -/
def Stmt.performed : Stmt → List Expr
  | .perform _ value => [value]
  | .function _ _ _ body | .loop _ body => stmtPerformed body
  | .conditional _ _ yes no => stmtPerformed yes ++ stmtPerformed no
  | _ => []

/-- **The expressions of statements that stand for their effect,** in order. -/
def stmtPerformed : List Stmt → List Expr
  | [] => []
  | s :: ss => s.performed ++ stmtPerformed ss

end

mutual

theorem Stmt.performed_bare : ∀ s : Stmt, s.bare.performed = s.performed.map Expr.bare
  | .function _ _ _ body | .loop _ body => stmtPerformed_bare body
  | .conditional _ _ yes no => by
    rw [Stmt.bare, Stmt.performed, stmtPerformed_bare yes, stmtPerformed_bare no, Stmt.performed,
      List.map_append]
  | .perform .. | .declare .. | .returns .. | .print .. | .assign .. | .param _ | .breaks _
  | .missing => rfl

theorem stmtPerformed_bare : ∀ ss : List Stmt,
    stmtPerformed (bareStmts ss) = (stmtPerformed ss).map Expr.bare
  | [] => rfl
  | s :: ss => by
    rw [bareStmts, stmtPerformed, s.performed_bare, stmtPerformed_bare ss, stmtPerformed,
      List.map_append]

end

theorem Expr.isCall_bare (e : Expr) : e.bare.isCall = e.isCall := by
  cases e with
  | binary | literal | use | call | list | missing => rfl

/-- The expressions of a clause that stand for their effect. -/
def Grammar.Clause.performed : Clause → List Expr
  | statement s => s.performed
  | statements ss => stmtPerformed ss

/-- What starts with 施 is a call. -/
theorem isCall_of_spells {e : Expr} {k : Token} {ts after : List Token} (keyword : k.kind = .apply)
    (spelt : Spells (.operand e) (k :: ts) after) : e.isCall = true := by
  cases spelt with
  | arabic number | glyphs number => cases keyword.symm.trans number
  | string string => cases keyword.symm.trans string
  | name name => cases keyword.symm.trans name
  | bareCall | call => rfl

theorem isCall_of_forms {clause : Clause} {place : Place} {ts after : List Token}
    (formed : Forms clause place ts after) : ∀ e ∈ clause.performed, e.isCall = true := by
  induction formed with
  | declare | print | assign | returnValue | returnNothing | breaks | none =>
    exact fun _ member => absurd member List.not_mem_nil
  | perform keyword call _ =>
    intro e member
    cases List.mem_singleton.mp member
    exact isCall_of_spells keyword call
  | loop _ _ _ inner | function _ _ _ _ _ _ _ inner => exact inner
  | conditional _ _ _ _ _ _ _ yes no =>
    exact fun e member => (List.mem_append.mp member).elim (yes e) (no e)
  | more _ _ first rest =>
    exact fun e member => (List.mem_append.mp member).elim (first e) (rest e)

/-- **In a source only calls stand for their effect,** and resolution leaves them calls. -/
theorem isCall_of_ofSource {source : Text} {p : Program} (read : Program.ofSource source = .ok p) :
    ∀ e ∈ stmtPerformed p.resolve.tree, e.isCall = true := by
  intro e member
  have same : bareStmts p.resolve.tree = bareStmts p := bare_resolveStmts .initial p
  have bare : e.bare ∈ (stmtPerformed p).map Expr.bare := by
    rw [← stmtPerformed_bare, ← same, stmtPerformed_bare]
    exact List.mem_map_of_mem member
  obtain ⟨original, given, equal⟩ := List.mem_map.mp bare
  rw [← e.isCall_bare, ← equal, original.isCall_bare]
  exact isCall_of_forms (ofTokens_eq_ok_iff.mp read) original given

/-! ### Their lines -/

/-- **The lines of some expressions stand among the marks,** in order. -/
def Emits (es : List Expr) (marks : List Mark) : Prop :=
  ∃ texts : List Text, List.Forall₂ (fun e text => e.Legible ∧ e.code = .ok text) es texts ∧
    (texts.map fun text => Mark.line (text ++ ";")).Sublist marks

theorem emits_nil (marks : List Mark) : Emits [] marks := ⟨[], .nil, List.nil_sublist _⟩

namespace Emits

variable {es fs : List Expr} {marks more : List Mark}

theorem append (first : Emits es marks) (second : Emits fs more) :
    Emits (es ++ fs) (marks ++ more) := by
  obtain ⟨texts, codes, inside⟩ := first
  obtain ⟨others, codes', inside'⟩ := second
  refine ⟨texts ++ others, List.rel_append codes codes', ?_⟩
  rw [List.map_append]
  exact inside.append inside'

theorem within (emits : Emits es marks) (larger : marks.Sublist more) : Emits es more := by
  obtain ⟨texts, codes, inside⟩ := emits
  exact ⟨texts, codes, inside.trans larger⟩

theorem enclose (emits : Emits es marks) (head : Mark) : Emits es (head :: Mark.enclose marks) := by
  refine emits.within (List.Sublist.cons head ?_)
  exact (List.sublist_append_left marks [.closeBlock]).cons .openBlock

end Emits

mutual

theorem Stmt.emits_marks : ∀ s : Stmt, s.Legible → ∀ marks, s.marks = .ok marks →
    Emits s.performed marks
  | .perform _ value, legible, marks, written => by
    rw [Stmt.marks] at written
    obtain ⟨code, codeWritten, written⟩ := bind_eq_ok.mp written
    cases written
    exact ⟨[code], .cons ⟨legible, codeWritten⟩ .nil, List.Sublist.refl _⟩
  | .function _ _ _ body, legible, marks, written => by
    rw [Stmt.marks] at written
    obtain ⟨inner, innerWritten, written⟩ := bind_eq_ok.mp written
    cases written
    have emits := emits_stmtMarks body legible inner innerWritten
    exact (emits.within (List.sublist_append_left inner _)).enclose _
  | .conditional _ _ yes no, legible, marks, written => by
    obtain ⟨-, first, second⟩ := legible
    rw [Stmt.marks] at written
    obtain ⟨code, -, written⟩ := bind_eq_ok.mp written
    obtain ⟨yesMarks, yesWritten, written⟩ := bind_eq_ok.mp written
    have yesEmits := emits_stmtMarks yes first yesMarks yesWritten
    rw [Stmt.performed]
    by_cases empty : no.isEmpty = true
    · rw [if_pos empty] at written
      cases written
      cases List.isEmpty_iff.mp empty
      rw [stmtPerformed, List.append_nil]
      exact yesEmits.enclose _
    · rw [if_neg empty] at written
      obtain ⟨noMarks, noWritten, written⟩ := bind_eq_ok.mp written
      cases written
      exact (yesEmits.enclose _).append ((emits_stmtMarks no second noMarks noWritten).enclose _)
  | .loop _ body, legible, marks, written => by
    rw [Stmt.marks] at written
    obtain ⟨inner, innerWritten, written⟩ := bind_eq_ok.mp written
    cases written
    exact (emits_stmtMarks body legible inner innerWritten).enclose _
  | .declare .., _, marks, _ | .returns .., _, marks, _ | .print .., _, marks, _
  | .assign .., _, marks, _ | .param _, _, marks, _ | .breaks _, _, marks, _
  | .missing, _, marks, _ => emits_nil marks

theorem emits_stmtMarks : ∀ ss : List Stmt, stmtsLegible ss → ∀ marks, stmtMarks ss = .ok marks →
    Emits (stmtPerformed ss) marks
  | [], _, marks, _ => emits_nil marks
  | s :: ss, legible, marks, written => by
    rw [stmtMarks] at written
    obtain ⟨first, firstWritten, written⟩ := bind_eq_ok.mp written
    obtain ⟨rest, restWritten, written⟩ := bind_eq_ok.mp written
    cases written
    exact (s.emits_marks legible.1 first firstWritten).append
      (emits_stmtMarks ss legible.2 rest restWritten)

end

/-! ### The main result -/

/-- **Every call statement has a line, and the line is an invocation unless the call is of 長度, or of
轉換 without an argument.** For every accepted source, whatever the options are, the expressions that
stand for their effect are calls, and the code has their lines in order, each the code of its call
and a semicolon. The code is an invocation, a name with dots or not and arguments in parentheses
that end it, just when the call is none of those. A name that the program declares is never one of
these builtins. -/
theorem compile_invokes_iff {options : Options} {source code : Text}
    (accepted : (compile options source).outcome = .ok code) :
    ∃ p inner texts, Program.ofSource source = .ok p ∧ stmtMarks p.resolve.tree = .ok inner ∧
      code = Mark.layout options.withDefaults.indent 0 (wrap options.withDefaults inner) ∧
      (texts.map fun text => Mark.line (text ++ ";")).Sublist inner ∧
      List.Forall₂ (fun e text => e.isCall = true ∧ e.code = .ok text ∧
        (IsInvocation text ↔ e.isHiddenCall = false)) (stmtPerformed p.resolve.tree) texts := by
  obtain ⟨p, inner, read, -, written, -, rfl⟩ := exists_marks accepted
  have legible : stmtsLegible p.resolve.tree := by
    rw [legible_resolve]
    exact legible_of_ofSource read
  obtain ⟨texts, codes, inside⟩ := emits_stmtMarks _ legible inner written
  refine ⟨p, inner, texts, read, written, rfl, inside, ?_⟩
  have calls := isCall_of_ofSource read
  rw [List.forall₂_iff_zip] at codes ⊢
  refine ⟨codes.1, fun {e text} member => ?_⟩
  obtain ⟨sound, coded⟩ := codes.2 member
  have call := calls e (List.of_mem_zip member).1
  exact ⟨call, coded, Expr.isInvocation_code_iff call sound coded⟩

/-- A builtin that is shadowed, parentheses in string literals, and a call without its argument. -/
theorem compile_invokes_iff_shadowed :
    let source : Text :=
      "若真者有術曰「長度」必先得一數曰「x」之術也施「長度」以「)」也云云施「輸出」以「(」、一也施「轉換」"
    let own : Text := identifier "長度" ++ "(\")\")"
    let print : Text := "Console.WriteLine(\"(\", 1)"
    ∃ code inner, (compile .blank source).outcome = .ok code ∧
      code = Mark.layout "    " 0 (wrap .standard inner) ∧
      [Mark.line (own ++ ";"), Mark.line (print ++ ";"), Mark.line "0.0;"].Sublist inner ∧
      IsInvocation own ∧ IsInvocation print ∧ ¬ IsInvocation "0.0" := by
  intro source own print
  have scanned : Token.tokenize source =
      [⟨.whether, "若", 1, 1⟩, ⟨.identifier, "真", 1, 2⟩, ⟨.thereupon, "者", 1, 3⟩,
       ⟨.function, "有術", 1, 4⟩, ⟨.named, "曰", 1, 6⟩, ⟨.string, "長度", 1, 7⟩,
       ⟨.params, "必先得", 1, 11⟩, ⟨.numberType, "一數", 1, 14⟩, ⟨.named, "曰", 1, 16⟩,
       ⟨.string, "x", 1, 17⟩, ⟨.functionEnd, "之術也", 1, 20⟩, ⟨.apply, "施", 1, 23⟩,
       ⟨.string, "長度", 1, 24⟩, ⟨.taking, "以", 1, 28⟩, ⟨.string, ")", 1, 29⟩,
       ⟨.close, "也", 1, 32⟩, ⟨.blockEnd, "云云", 1, 33⟩, ⟨.apply, "施", 1, 35⟩,
       ⟨.string, "輸出", 1, 36⟩, ⟨.taking, "以", 1, 40⟩, ⟨.string, "(", 1, 41⟩,
       ⟨.comma, "、", 1, 44⟩, ⟨.number, "一", 1, 45⟩, ⟨.close, "也", 1, 46⟩,
       ⟨.apply, "施", 1, 47⟩, ⟨.string, "轉換", 1, 48⟩, ⟨.eof, [], 1, 52⟩] := by
    decide +kernel
  obtain ⟨p, read, resolved, e, f, g, performed, first, second, third⟩ :
      ∃ p, Program.ofSource source = .ok p ∧ p.resolve.fault = none ∧
        ∃ e f g, stmtPerformed p.resolve.tree = [e, f, g] ∧
          (e.code = .ok own ∧ e.isHiddenCall = false) ∧
          (f.code = .ok print ∧ f.isHiddenCall = false) ∧
          g.code = .ok "0.0" ∧ g.isHiddenCall = true := by
    refine ⟨[
      .conditional ⟨.whether, "若", 1, 1⟩ (.use ⟨.identifier, "真", 1, 2⟩ none)
        [.function ⟨.function, "有術", 1, 4⟩ ⟨.string, "長度", 1, 7⟩
          [⟨⟨.numberType, "一數", 1, 14⟩, ⟨.string, "x", 1, 17⟩⟩] [],
         .perform ⟨.apply, "施", 1, 23⟩ (.call ⟨.apply, "施", 1, 23⟩ ⟨.string, "長度", 1, 24⟩
          [.literal ⟨.string, ")", 1, 29⟩ .string ")"] none)] [],
      .perform ⟨.apply, "施", 1, 35⟩ (.call ⟨.apply, "施", 1, 35⟩ ⟨.string, "輸出", 1, 36⟩
        [.literal ⟨.string, "(", 1, 41⟩ .string "(", .literal ⟨.number, "一", 1, 45⟩ .number "1"]
        none),
      .perform ⟨.apply, "施", 1, 47⟩
        (.call ⟨.apply, "施", 1, 47⟩ ⟨.string, "轉換", 1, 48⟩ [] none)],
      ?_, ?_, _, _, _, rfl, ⟨?_, ?_⟩, ⟨?_, ?_⟩, ?_, ?_⟩
    · rw [Program.ofSource, scanned]
      with_unfolding_all rfl
    · decide
    all_goals rfl
  obtain ⟨code, accepted⟩ := exists_compile .blank read resolved
  obtain ⟨p', inner, texts, read', -, laid, lines, calls⟩ := compile_invokes_iff accepted
  obtain rfl : p = p' := Except.ok.inj (read.symm.trans read')
  rw [performed] at calls
  obtain ⟨t, _, ⟨-, own_code, own_iff⟩, more, rfl⟩ := List.forall₂_cons_left_iff.mp calls
  obtain ⟨u, _, ⟨-, print_code, print_iff⟩, last, rfl⟩ := List.forall₂_cons_left_iff.mp more
  obtain ⟨v, _, ⟨-, zero_code, zero_iff⟩, none, rfl⟩ := List.forall₂_cons_left_iff.mp last
  cases none
  obtain rfl : t = own := Except.ok.inj (own_code.symm.trans first.1)
  obtain rfl : u = print := Except.ok.inj (print_code.symm.trans second.1)
  obtain rfl : v = "0.0" := Except.ok.inj (zero_code.symm.trans third.1)
  refine ⟨code, inner, accepted, laid, lines, own_iff.mpr first.2, print_iff.mpr second.2, ?_⟩
  intro invocation
  cases third.2.symm.trans (zero_iff.mp invocation)

/-- **A call statement of an accepted source whose line is no invocation:** the code of 長度 ends in a
member. -/
theorem compile_emits_member :
    ¬ ∀ (source code : Text) (p : Program), (compile .blank source).outcome = .ok code →
      Program.ofSource source = .ok p → ∀ e ∈ stmtPerformed p.resolve.tree, ∀ text,
        e.code = .ok text → IsInvocation text := by
  intro always
  have scanned : Token.tokenize "施「長度」以一" =
      [⟨.apply, "施", 1, 1⟩, ⟨.string, "長度", 1, 2⟩, ⟨.taking, "以", 1, 6⟩, ⟨.number, "一", 1, 7⟩,
       ⟨.eof, [], 1, 8⟩] := by
    decide +kernel
  obtain ⟨p, read, resolved, e, performed, written⟩ :
      ∃ p, Program.ofSource "施「長度」以一" = .ok p ∧ p.resolve.fault = none ∧
        ∃ e, stmtPerformed p.resolve.tree = [e] ∧ e.code = .ok "Convert.ToString(1).Length" := by
    refine ⟨[.perform ⟨.apply, "施", 1, 1⟩ (.call ⟨.apply, "施", 1, 1⟩ ⟨.string, "長度", 1, 2⟩
      [.literal ⟨.number, "一", 1, 7⟩ .number "1"] none)], ?_, ?_, _, rfl, ?_⟩
    · rw [Program.ofSource, scanned]
      with_unfolding_all rfl
    · decide
    · rfl
  obtain ⟨code, accepted⟩ := exists_compile .blank read resolved
  have invocation := always _ code p accepted read e (by simp [performed]) _ written
  cases invocation.getLast?_eq

end Guwen
