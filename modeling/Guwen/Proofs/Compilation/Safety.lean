/-
**Compilation never breaks down.**

For every source and all options, compilation gives code or refuses the source; no stage meets a
place that is not there, a node that is missing or a numeral that cannot be read.

* `complete_of_derives` — a tree that was read has no node missing.
* `Program.exists_code` — a tree without a missing node has code, and the code is not empty.
* `numeral_of_spelt` — the numbers of a source can be read.
* `refusal_of_ofSource` — a source that cannot be read is refused for its syntax.
* **`compile_safe`** — the whole of it.
-/
import Guwen.Compilation
import Guwen.Proofs.Grammar.Places
import Guwen.Proofs.Numeral.Positional
import Guwen.Proofs.Resolution.Discipline
import Guwen.Proofs.Token.Spelling

namespace Guwen

/-! ### Trees that were read -/

namespace Grammar

/-- No part of the phrase is missing. -/
def Phrase.complete : Phrase → Bool
  | operand e | term e | sum e | expression e => e.complete
  | arguments es => exprsComplete es

/-- No part of the clause is missing. -/
def Clause.complete : Clause → Bool
  | statement s => s.complete
  | statements ss => stmtsComplete ss

theorem complete_of_spells {phrase : Phrase} {ts after : List Token}
    (spelt : Spells phrase ts after) : phrase.complete = true := by
  induction spelt with
  | arabic | glyphs | string | name | bareCall => rfl
  | call _ _ _ _ values => exact values
  | lastArgument _ _ value => exact Bool.and_eq_true_iff.mpr ⟨value, rfl⟩
  | argument _ _ _ value more => exact Bool.and_eq_true_iff.mpr ⟨value, more⟩
  | operandTerm _ inner | termSum _ inner | sumExpression _ inner => exact inner
  | product _ _ _ _ left right | sum _ _ _ _ left right | comparison _ _ _ _ left right =>
    exact Bool.and_eq_true_iff.mpr ⟨left, right⟩

theorem complete_of_spellsElements {es : List Expr} {ts after : List Token}
    (spelt : SpellsElements es ts after) : exprsComplete es = true := by
  induction spelt with
  | last value => exact Bool.and_eq_true_iff.mpr ⟨complete_of_spells value, rfl⟩
  | more value _ _ rest => exact Bool.and_eq_true_iff.mpr ⟨complete_of_spells value, rest⟩

theorem complete_of_spellsInitial {isList : Bool} {value : Option Expr} {ts after : List Token}
    (spelt : SpellsInitial isList value ts after) : optionComplete value = true := by
  cases spelt with
  | absent => rfl
  | present _ value =>
    cases value with
    | single value => exact complete_of_spells value
    | reference value _ => exact complete_of_spells value
    | list values _ => exact complete_of_spellsElements values

theorem complete_of_forms {clause : Clause} {place : Place} {ts after : List Token}
    (formed : Forms clause place ts after) : clause.complete = true := by
  induction formed with
  | declare _ _ _ initial _ => exact complete_of_spellsInitial initial
  | print _ value _ => exact complete_of_spells value
  | conditional _ condition _ _ _ _ _ yes no =>
    exact Bool.and_eq_true_iff.mpr
      ⟨Bool.and_eq_true_iff.mpr ⟨complete_of_spells condition, yes⟩, no⟩
  | loop _ _ _ inner => exact inner
  | function _ _ _ _ _ _ _ inner => exact inner
  | returnValue _ _ value _ => exact complete_of_spells value
  | returnNothing | breaks | none => rfl
  | perform _ call _ => exact complete_of_spells call
  | assign _ _ value _ => exact complete_of_spells value
  | more _ _ first rest => exact Bool.and_eq_true_iff.mpr ⟨first, rest⟩

/-- **A tree that was read has no node missing.** -/
theorem complete_of_derives {ts : List Token} {p : Program} (derived : Derives ts p) :
    stmtsComplete p = true :=
  complete_of_forms derived

end Grammar

/-! ### Trees that have code -/

mutual

theorem Expr.exists_code : ∀ e : Expr, e.complete = true → ∃ code, e.code = .ok code
  | .binary _ op left right, complete => by
    obtain ⟨first, second⟩ := Bool.and_eq_true_iff.mp complete
    obtain ⟨leftCode, leftRead⟩ := left.exists_code first
    obtain ⟨rightCode, rightRead⟩ := right.exists_code second
    exact ⟨_, by rw [Expr.code, leftRead, rightRead]; rfl⟩
  | .literal .., _ => ⟨_, rfl⟩
  | .use name symbol, _ => by
    rw [Expr.code]
    cases Builtin.standsFor? name.lexeme symbol .value with
    | none => exact ⟨_, rfl⟩
    | some b => exact ⟨_, rfl⟩
  | .call _ callee arguments symbol, complete => by
    obtain ⟨values, read⟩ := exists_exprCodes arguments complete
    rw [Expr.code, read]
    cases Builtin.standsFor? callee.lexeme symbol .function with
    | none => exact ⟨_, rfl⟩
    | some b => exact ⟨_, rfl⟩
  | .list _ elements, complete => by
    obtain ⟨values, read⟩ := exists_exprCodes elements complete
    exact ⟨_, by rw [Expr.code, read]; rfl⟩

theorem exists_exprCodes : ∀ es : List Expr, exprsComplete es = true →
    ∃ codes, exprCodes es = .ok codes
  | [], _ => ⟨[], rfl⟩
  | e :: es, complete => by
    obtain ⟨first, more⟩ := Bool.and_eq_true_iff.mp complete
    obtain ⟨code, read⟩ := e.exists_code first
    obtain ⟨codes, reads⟩ := exists_exprCodes es more
    exact ⟨code :: codes, by rw [exprCodes, read, reads]; rfl⟩

end

theorem exists_optionCode (absent : Text) (value : Option Expr) (complete : optionComplete value) :
    ∃ code, optionCode absent value = .ok code := by
  cases value with
  | none => exact ⟨absent, rfl⟩
  | some e => exact e.exists_code complete

mutual

theorem Stmt.exists_marks : ∀ s : Stmt, s.complete = true → ∃ marks, s.marks = .ok marks
  | .declare _ type name value, complete => by
    obtain ⟨code, read⟩ :=
      exists_optionCode (Code.defaultOf (Code.typeOf type.lexeme)) value complete
    exact ⟨_, by rw [Stmt.marks, read]; rfl⟩
  | .param _, _ => ⟨[], rfl⟩
  | .function _ name params body, complete => by
    obtain ⟨inner, read⟩ := exists_stmtMarks body complete
    exact ⟨_, by rw [Stmt.marks, read]; rfl⟩
  | .conditional _ condition yes no, complete => by
    obtain ⟨both, third⟩ := Bool.and_eq_true_iff.mp complete
    obtain ⟨first, second⟩ := Bool.and_eq_true_iff.mp both
    obtain ⟨code, read⟩ := condition.exists_code first
    obtain ⟨marks, yesRead⟩ := exists_stmtMarks yes second
    obtain ⟨marks', noRead⟩ := exists_stmtMarks no third
    rw [Stmt.marks, read, yesRead, noRead]
    by_cases empty : no.isEmpty = true
    · exact ⟨_, if_pos empty⟩
    · exact ⟨_, if_neg empty⟩
  | .loop _ body, complete => by
    obtain ⟨inner, read⟩ := exists_stmtMarks body complete
    exact ⟨_, by rw [Stmt.marks, read]; rfl⟩
  | .print _ value, complete => by
    obtain ⟨code, read⟩ := value.exists_code complete
    exact ⟨_, by rw [Stmt.marks, read]; rfl⟩
  | .returns _ value, complete => by
    obtain ⟨code, read⟩ := exists_optionCode "null" value complete
    exact ⟨_, by rw [Stmt.marks, read]; rfl⟩
  | .assign name value, complete => by
    obtain ⟨code, read⟩ := value.exists_code complete
    exact ⟨_, by rw [Stmt.marks, read]; rfl⟩
  | .breaks _, _ => ⟨_, rfl⟩
  | .perform _ value, complete => by
    obtain ⟨code, read⟩ := value.exists_code complete
    exact ⟨_, by rw [Stmt.marks, read]; rfl⟩

theorem exists_stmtMarks : ∀ ss : List Stmt, stmtsComplete ss = true →
    ∃ marks, stmtMarks ss = .ok marks
  | [], _ => ⟨[], rfl⟩
  | s :: ss, complete => by
    obtain ⟨first, more⟩ := Bool.and_eq_true_iff.mp complete
    obtain ⟨marks, read⟩ := s.exists_marks first
    obtain ⟨rest, reads⟩ := exists_stmtMarks ss more
    exact ⟨marks ++ rest, by rw [stmtMarks, read, reads]; rfl⟩

end

theorem lineAt_ne_nil (indent : Text) (level : Nat) (code : Text) :
    Code.lineAt indent level code ≠ [] := by
  unfold Code.lineAt
  split
  · decide
  · exact List.append_ne_nil_of_right_ne_nil _ (by decide)

/-- **A tree without a missing node has code,** and the code is not empty. -/
theorem Program.exists_code (options : Options) (p : Program) (complete : stmtsComplete p = true) :
    ∃ code, p.code options = .ok code ∧ code ≠ [] := by
  obtain ⟨marks, read⟩ := exists_stmtMarks p complete
  -- The first line is there in any case.
  exact ⟨_, by rw [Program.code, read]; rfl,
    List.append_ne_nil_of_left_ne_nil (lineAt_ne_nil _ _ _) _⟩

/-! ### Numbers of a source -/

namespace Grammar

/-- A number of a source is written in digits, or is one numeral glyph. -/
theorem glyph_of_spelt {t : Token} (spelt : t.Spelt) (number : t.kind = .number)
    (glyph : isArabic t = false) :
    ∃ c, Numeral.isNumeral [c] = true ∧ t.lexeme = Text.ofChars [c] := by
  obtain ⟨cs, spelling, written⟩ := spelt
  rw [number] at spelling
  cases spelling with
  | keyword found =>
    obtain ⟨word, entry, -⟩ := mem_entries_of_kind? found
    have others : ∀ entry ∈ Lexicon.entries, entry.2 ≠ .number := by decide
    exact absurd rfl (others _ entry)
  | digits digits =>
    rw [isArabic, written, Text.chars_ofChars, List.head?_cons, Option.any_some,
      digits _ List.mem_cons_self] at glyph
    cases glyph
  | decimal digits _ =>
    rw [isArabic, written, Text.chars_ofChars, List.cons_append, List.head?_cons, Option.any_some,
      digits _ List.mem_cons_self] at glyph
    cases glyph
  | numeral numeral => exact ⟨_, numeral, written⟩

/-- The glyph tokens of a source, joined, are as many numeral glyphs. -/
theorem exists_glyphs {run : List Token} (spelt : ∀ t ∈ run, t.Spelt)
    (glyphs : ∀ t ∈ run, t.kind = .number ∧ isArabic t = false) :
    ∃ cs, run.flatMap Token.lexeme = Text.ofChars cs ∧ cs.length = run.length ∧
      ∀ c ∈ cs, Numeral.isNumeral [c] = true := by
  induction run with
  | nil => exact ⟨[], rfl, rfl, fun _ member => absurd member List.not_mem_nil⟩
  | cons t run ih =>
    obtain ⟨number, glyph⟩ := glyphs t List.mem_cons_self
    obtain ⟨c, numeral, written⟩ := glyph_of_spelt (spelt t List.mem_cons_self) number glyph
    obtain ⟨cs, joined, length, numerals⟩ := ih
      (fun t member => spelt t (List.mem_cons_of_mem _ member))
      fun t member => glyphs t (List.mem_cons_of_mem _ member)
    refine ⟨c :: cs, ?_, congrArg (· + 1) length, ?_⟩
    · rw [List.flatMap_cons, written, joined]
      simp [Text.ofChars]
    · intro d member
      rcases List.mem_cons.mp member with rfl | later
      · exact numeral
      · exact numerals d later

theorem mem_glyphRun {t : Token} {ts : List Token} (last : Token)
    (member : t ∈ (glyphRun last ts).1) : t ∈ ts ∧ t.kind = .number ∧ isArabic t = false := by
  induction ts generalizing last with
  | nil => cases member
  | cons first ts ih =>
    unfold glyphRun at member
    split at member
    · rename_i goes
      simp only [Bool.and_eq_true, decide_eq_true_eq, Bool.not_eq_true'] at goes
      rcases List.mem_cons.mp member with rfl | later
      · exact ⟨List.mem_cons_self, goes.1⟩
      · obtain ⟨inside, glyph⟩ := ih first later
        exact ⟨List.mem_cons_of_mem _ inside, glyph⟩
    · cases member

/-- **The numbers of a source can be read.** -/
theorem numeral_of_spelt (site : Site) {start : Token} {ts : List Token}
    (spelt : ∀ t ∈ start :: ts, t.Spelt) (number : start.kind = .number) :
    ∃ e rest, Leaves (numeral site start ts) e rest := by
  by_cases arabic : isArabic start = true
  · exact ⟨_, _, leaves_numeral.mpr (.inl ⟨arabic, rfl, rfl⟩)⟩
  have glyph : isArabic start = false := (Bool.not_eq_true _).mp arabic
  have members : ∀ t ∈ start :: (glyphRun start ts).1,
      t.Spelt ∧ t.kind = .number ∧ isArabic t = false := by
    intro t member
    rcases List.mem_cons.mp member with rfl | later
    · exact ⟨spelt t List.mem_cons_self, number, glyph⟩
    · obtain ⟨inside, glyph'⟩ := mem_glyphRun start later
      exact ⟨spelt t (List.mem_cons_of_mem _ inside), glyph'⟩
  obtain ⟨cs, joined, length, numerals⟩ := exists_glyphs (fun t member => (members t member).1)
    fun t member => (members t member).2
  cases cs with
  | nil => cases length
  | cons c cs =>
    have glyphs : ∀ d ∈ c :: cs, Numeral.IsGlyph d := fun d member =>
      (Numeral.isNumeral_singleton_iff d).mp (numerals d member)
    obtain ⟨value, reads⟩ :=
      (Numeral.value?_isSome_iff (c :: cs)).mpr ⟨List.cons_ne_nil c cs, glyphs⟩
    refine ⟨_, _, leaves_numeral.mpr (.inr ⟨glyph, value, ?_, rfl, rfl⟩)⟩
    rw [joined, Text.chars_ofChars, reads]

end Grammar

/-- Resolution of such a tree stops only for a name. -/
theorem kind_of_resolve {p : Program} {fault : Fault} (complete : stmtsComplete p = true)
    (stopped : p.resolve.fault = some fault) :
    ∃ d, fault = .refused d ∧ d.kind = .semantic := by
  have ends : walk .initial (stmtActs p) = p.resolve.outcome :=
    (runs_stmtActs .initial p complete).ends
  unfold Resolved.outcome at ends
  rw [stopped] at ends
  obtain ⟨before, act, after, name, cause, -, -, -, said⟩ :=
    breaks_of_walk (balanced_stmtActs p).inside ends
  exact ⟨_, said, rfl⟩

/-! ### Reading a source -/

section Source

variable {source : Text}

/-- The tokens before the end of a source are spelt as their kinds ask. -/
theorem body_tokenize (source : Text) :
    (∀ t ∈ Grammar.body (Token.tokenize source), t.Spelt) ∧
      Token.tokenize source = Grammar.body (Token.tokenize source) ++
        [Grammar.ending (Token.tokenize source)] := by
  obtain ⟨words, last, -, -, -, spelt, all⟩ := Cursor.scans_tokenize source
  have others : ∀ t ∈ words, t.kind ≠ .eof := by
    intro t member
    obtain ⟨cs, spelling, -⟩ := spelt t member
    exact spelling.ne_eof
  obtain ⟨before, after⟩ :=
    Grammar.body_of_first (t := ⟨.eof, [], last.position⟩) others rfl []
  rw [← all] at before after
  rw [before, after]
  exact ⟨spelt, all⟩

theorem seen_tokenize (source : Text) :
    Grammar.seen (Token.tokenize source) = Token.tokenize source :=
  (body_tokenize source).2.symm

theorem dropLast_tokenize (source : Text) :
    (Token.tokenize source).dropLast = Grammar.body (Token.tokenize source) := by
  have whole := (body_tokenize source).2
  generalize Grammar.body (Token.tokenize source) = words at whole ⊢
  rw [whole, List.dropLast_concat]

/-- **The place of what is left to read is a place of the source,** and its token is the next
one. -/
theorem getElem?_place {ts : List Token} (within : ts <:+ Grammar.body (Token.tokenize source)) :
    (Token.tokenize source)[(Grammar.body (Token.tokenize source)).length - ts.length]? =
      some ((Grammar.top (Token.tokenize source)).peek ts) := by
  have place := Grammar.getElem?_seen within
  rwa [seen_tokenize] at place

/-- **A source that cannot be read is refused for its syntax,** at one of its tokens. -/
theorem refusal_of_ofSource {d : Diagnostic} (failed : Program.ofSource source = .error d) :
    ∃ t ∈ Token.tokenize source, d = .atToken .syntactic d.cause d.context t := by
  have blames := Grammar.statements_blames failed
  cases blames with
  | @token t cause context whom =>
    refine ⟨t, ?_, rfl⟩
    rw [(body_tokenize source).2, List.mem_append, List.mem_singleton]
    exact whom
  | numeral inside number unread =>
    obtain ⟨e, rest, within, read⟩ := Grammar.numeral_of_spelt _
      (fun t member => (body_tokenize source).1 t (inside.subset member)) number
    rw [read] at unread
    cases unread

end Source

/-- The outcome of a compilation, stage by stage. -/
theorem outcome_eq (options : Options) (source : Text) :
    (compile options source).outcome =
      match Program.ofSource source with
      | .error d => .error (.refused d)
      | .ok p =>
        match p.resolve.fault with
        | some fault => .error fault
        | none => Program.code options p.resolve.tree := by
  show (compileTokens options (Token.tokenize source)).outcome = _
  unfold compileTokens Program.ofSource
  cases Program.ofTokens (Token.tokenize source) with
  | error d => rfl
  | ok p =>
    show (compileProgram options p).outcome = _
    unfold compileProgram
    dsimp only
    cases p.resolve.fault with
    | some fault => rfl
    | none =>
      show (compileResolved options p.resolve.tree).outcome = _
      unfold compileResolved
      cases Program.code options p.resolve.tree <;> rfl

/-- **How a compilation ends:** with code, or with a source refused for its syntax or its names. -/
theorem outcome_compile (options : Options) (source : Text) :
    (∃ code, (compile options source).outcome = .ok code ∧ code ≠ []) ∨
      ∃ d, (compile options source).outcome = .error (.refused d) ∧
        (d.kind = .syntactic ∨ d.kind = .semantic) := by
  rw [outcome_eq]
  cases read : Program.ofSource source with
  | error d =>
    obtain ⟨t, -, said⟩ := refusal_of_ofSource read
    exact .inr ⟨d, rfl, .inl (by rw [said]; rfl)⟩
  | ok p =>
    have complete := Grammar.complete_of_derives (Grammar.ofTokens_eq_ok_iff.mp read)
    dsimp only
    cases stopped : p.resolve.fault with
    | none =>
      have resolved : stmtsComplete p.resolve.tree = true := (complete_resolve p).trans complete
      obtain ⟨code, written, some_code⟩ := Program.exists_code options _ resolved
      exact .inl ⟨code, written, some_code⟩
    | some fault =>
      obtain ⟨d, rfl, semantic⟩ := kind_of_resolve complete stopped
      exact .inr ⟨d, rfl, .inr semantic⟩

/-- **Compilation never breaks down.** Whatever the source and the options, it gives code, which is
not empty, or refuses the source for its syntax or its names. The scan passes each piece of the
source by characters that are there and reaches the end. Every reading of a statement leaves an end
of the tokens it started from, and every such end has its place, with the next token, among the
tokens; what is refused is one of them. Each number can be read, and no tree has a missing node. -/
theorem compile_safe (options : Options) (source : Text) :
    ((∃ code, (compile options source).outcome = .ok code ∧ code ≠ []) ∨
      ∃ d, (compile options source).outcome = .error (.refused d) ∧
        (d.kind = .syntactic ∨ d.kind = .semantic)) ∧
    (∃ words last, Cursor.Scans (.ofText source) words last ∧ last.rest = [] ∧
      last.offset = source.chars.length ∧
      Token.tokenize source = words ++ [⟨.eof, [], last.position⟩]) ∧
    (∀ site ts s rest, ts <:+ Grammar.body (Token.tokenize source) →
      Grammar.Leaves (Grammar.statement site ts) s rest →
      rest <:+ ts ∧ rest.length < ts.length) ∧
    (∀ rest, rest <:+ Grammar.body (Token.tokenize source) →
      (Token.tokenize source)[(Grammar.body (Token.tokenize source)).length - rest.length]? =
        some ((Grammar.top (Token.tokenize source)).peek rest)) ∧
    (∀ d, Program.ofSource source = .error d →
      ∃ t ∈ Token.tokenize source, d = .atToken .syntactic d.cause d.context t) ∧
    (∀ site start ts, start :: ts <:+ Grammar.body (Token.tokenize source) →
      start.kind = .number → ∃ e rest, Grammar.Leaves (Grammar.numeral site start ts) e rest) ∧
    ∀ p, Program.ofSource source = .ok p →
      stmtsComplete p = true ∧ stmtsComplete p.resolve.tree = true := by
  refine ⟨outcome_compile options source, ?_, ?_, fun _ => getElem?_place,
    fun _ => refusal_of_ofSource, ?_, ?_⟩
  · obtain ⟨words, last, scans, ended, offset, -, all⟩ := Cursor.scans_tokenize source
    exact ⟨words, last, scans, ended, offset, all⟩
  · rintro site ts s rest - ⟨shorter, read⟩
    exact ⟨(Grammar.statement_stays site ts).keeps _ read, shorter⟩
  · intro site start ts within number
    exact Grammar.numeral_of_spelt site
      (fun t member => (body_tokenize source).1 t (within.subset member)) number
  · intro p read
    have complete := Grammar.complete_of_derives (Grammar.ofTokens_eq_ok_iff.mp read)
    exact ⟨complete, (complete_resolve p).trans complete⟩

end Guwen
