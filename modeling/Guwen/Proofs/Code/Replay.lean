/-
**The code of a resolved tree replays its acts.**

Reading the lines that are written for statements does to the names what the acts of the statements
say: a block is opened or closed, a name is declared, a name that is no builtin's is used, assigned
to or called.

* `Act.replay` — what an act does to the names.
* `fold_layout` — a text laid out is read mark by mark, whatever blanks stand before the lines.
* `readLine_declaration`, `readLine_head` — the two lines that declare.
* **`replays_stmtMarks`** — the lines of statements replay their acts.
-/
import Guwen.Proofs.Code.Expression

namespace Guwen

/-- **What an act does to the names** when its code is read. -/
def Act.replay (names : Code.Names) : Act → Code.Names
  | enter => names.enter
  | leave => names.leave
  | declare name _ _ => names.declare (Code.identifier name.lexeme)
  | act => act.shown?.toList.foldl Code.Names.refer names

namespace Code

/-! ### Lines of a text -/

/-- What a mark does to the names when its line is read. -/
def readMark (names : Names) : Mark → Names
  | .line code => readLine names code
  | .openBlock => names.enter
  | .closeBlock => names.leave

theorem lex_blank {indent : Text} (blank : ∀ b ∈ indent, isBlankByte b = true) (code : Text) :
    lex (indent ++ code) = lex code := by
  induction indent with
  | nil => rfl
  | cons b indent ih =>
    have here := blank b List.mem_cons_self
    have gap : opening b = ([], .between) := by
      simp only [isBlankByte, Bool.or_eq_true, beq_iff_eq] at here
      rcases here with rfl | rfl <;> rfl
    rw [lex, List.cons_append, lexFrom, gap]
    exact ih fun c member => blank c (List.mem_cons_of_mem b member)

/-- A line stands behind some blanks. -/
theorem lineAt_eq {indent : Text} (blank : ∀ b ∈ indent, isBlankByte b = true) (level : Nat)
    (code : Text) : ∃ before : Text, (∀ b ∈ before, isBlankByte b = true) ∧
      lineAt indent level code = before ++ (code ++ [10]) := by
  unfold lineAt
  by_cases empty : code.isEmpty = true
  · rw [if_pos empty, List.isEmpty_iff.mp empty]
    exact ⟨[], fun _ member => absurd member List.not_mem_nil, rfl⟩
  · refine ⟨Text.replicate level indent, fun b member => ?_, by
      rw [if_neg empty, List.append_assoc]; rfl⟩
    obtain ⟨copy, inside, here⟩ := List.mem_flatten.mp member
    exact blank b (List.eq_of_mem_replicate inside ▸ here)

theorem fold_lineAt {indent : Text} (blank : ∀ b ∈ indent, isBlankByte b = true) (level : Nat)
    {code : Text} (one : 10 ∉ code) (rest : Text) (names : Names) :
    (List.splitOn 10 (lineAt indent level code ++ rest)).foldl readLine names =
      (List.splitOn 10 rest).foldl readLine (readLine names code) := by
  obtain ⟨before, blanks, shape⟩ := lineAt_eq blank level code
  have whole : 10 ∉ before ++ code := by
    refine not_mem_append (fun member => ?_) one
    exact absurd (blanks 10 member) (by decide)
  have line : lineAt indent level code ++ rest = (before ++ code) ++ 10 :: rest := by
    rw [shape]
    simp only [List.append_assoc, List.singleton_append]
  have read : readLine names (before ++ code) = readLine names code := by
    unfold readLine
    rw [lex_blank blanks]
  rw [line, List.splitOn_append_cons_self, List.splitOn_eq_singleton whole,
    List.singleton_append, List.foldl_cons, read]

/-- **A text laid out is read mark by mark.** -/
theorem fold_layout {indent : Text} (blank : ∀ b ∈ indent, isBlankByte b = true)
    {marks : List Mark} (one : ∀ code, .line code ∈ marks → 10 ∉ code) (level : Nat)
    (names : Names) :
    (List.splitOn 10 (Mark.layout indent level marks)).foldl readLine names =
      marks.foldl readMark names := by
  induction marks generalizing level names with
  | nil => rfl
  | cons mark marks ih =>
    have later : ∀ code, .line code ∈ marks → 10 ∉ code :=
      fun code member => one code (List.mem_cons_of_mem _ member)
    rw [Mark.layout, List.foldl_cons]
    cases mark with
    | line code =>
      rw [Mark.text, fold_lineAt blank level (one code List.mem_cons_self), ih later, readMark]
    | openBlock =>
      rw [Mark.text, fold_lineAt blank level (by decide), ih later]
      rfl
    | closeBlock =>
      rw [Mark.text, fold_lineAt blank (level - 1) (by decide), ih later]
      rfl

/-! ### Lines that declare nothing -/

theorem scan_reads {code : Text} {xs : List Text} (reads : Reads code xs) {names : Names}
    (free : names.pending = []) : scan none (lex code) names = xs.foldl Names.refer names := by
  obtain ⟨⟨ps, cut, scans, -⟩, -⟩ := reads
  obtain ⟨last, -, done⟩ := scans none [] names ⟨by simp, by simp⟩ (by simp) free
  rw [cut.lex_eq, ← List.append_nil ps, done]
  rfl

/-- A line that is no declaration. -/
def IsStatement (code : Text) : Prop := classify (lex code) = .statement (lex code)

theorem readLine_statement {code : Text} {xs : List Text} (reads : Reads code xs)
    (statement : IsStatement code) {names : Names} (free : names.pending = []) :
    readLine names code = xs.foldl Names.refer names := by
  unfold readLine
  rw [statement]
  exact scan_reads reads free

theorem isReserved_of_isFrameWord {t : Text} (frame : isFrameWord t = true) :
    isReserved t = true := by
  simp only [isFrameWord, Bool.or_eq_true, beq_iff_eq] at frame
  rcases frame with (rfl | rfl) | rfl <;> exact isReserved_of_mem (by decide)

theorem isReserved_of_isTypeWord {t : Text} (type : isTypeWord t = true) :
    isReserved t = true := by
  simp only [isTypeWord, Bool.or_eq_true, beq_iff_eq] at type
  rcases type with (rfl | rfl) | rfl <;> exact isReserved_of_mem (by decide)

/-- A line that starts with a word and a mark declares nothing, unless the word is reserved or the
mark opens the type of a list's elements. -/
theorem classify_word {t : Text} (free : isReserved t = false) {b : UInt8} (other : b ≠ 60)
    (rest : List Piece) :
    classify (.word t :: .mark b :: rest) = .statement (.word t :: .mark b :: rest) := by
  have no_frame : ¬ isFrameWord t = true := by
    intro frame
    rw [isReserved_of_isFrameWord frame] at free
    cases free
  have no_type : ¬ isTypeWord t = true := by
    intro type
    rw [isReserved_of_isTypeWord type] at free
    cases free
  unfold classify
  dsimp only
  rw [if_neg no_frame]
  by_cases head : t = ("dynamic" : Text)
  · rw [if_pos head]
  rw [if_neg head, if_neg no_type]
  by_cases list : t = ("List" : Text)
  · rw [if_pos list]
    split
    · rename_i same
      exact absurd (Piece.mark.inj (List.head_eq_of_cons_eq same)) other
    · rfl
  · rw [if_neg list]

/-- A number at the head of a line. -/
theorem classify_number {t : Text} (digits : IsDigits t) (rest : List Piece) :
    classify (.word t :: rest) = .statement (.word t :: rest) := by
  obtain ⟨some_digit, all⟩ := digits
  cases t with
  | nil => exact absurd rfl some_digit
  | cons b t =>
    have digit := all b List.mem_cons_self
    have apart : ∀ word : Text, isDigitByte (word.headD 48) = false → b :: t ≠ word := by
      intro word letter same
      rw [← same] at letter
      exact Bool.noConfusion (digit.symm.trans letter)
    simp [classify, isFrameWord, isTypeWord, apart "using" rfl, apart "namespace" rfl,
      apart "public" rfl, apart "dynamic" rfl, apart "double" rfl, apart "string" rfl,
      apart "object" rfl, apart "List" rfl]

end Code

section

open Code

theorem isStatement_number {t : Text} (number : IsNumber t) (rest : Text) (start : Apart rest) :
    IsStatement (t ++ rest) := by
  unfold IsStatement
  rcases number with digits | ⟨whole, part, before, -, rfl⟩
  · rw [digits.lexes rest start]
    exact classify_number digits _
  · rw [List.append_assoc, List.cons_append, before.lexes _ (apart_cons rfl)]
    exact classify_number before _

theorem isStatement_identifier (name : Text) {after : Text} {b : UInt8} {rest : List Piece}
    (start : Apart after) (cut : lex after = .mark b :: rest) (other : b ≠ 60) :
    IsStatement (identifier name ++ after) := by
  unfold IsStatement
  rw [lexes_identifier name after start, cut]
  exact classify_word (isReserved_identifier name) other rest

/-- A builtin at the head of a line. -/
theorem isStatement_render {b : Builtin} (known : b ∈ Builtin.all) (values : List Text) :
    IsStatement (b.render values ++ ";") := by
  simp only [Builtin.all, List.mem_cons, List.not_mem_nil, or_false] at known
  rcases known with rfl | rfl | rfl | rfl | rfl | rfl | rfl
  · simp only [Builtin.render, Builtin.Form.fill, List.append_assoc]
    rfl
  · rfl
  · cases values with
    | nil => rfl
    | cons value values =>
      simp only [Builtin.render, Builtin.Form.fill, List.append_assoc]
      rfl
  · cases values with
    | nil => rfl
    | cons value values =>
      simp only [Builtin.render, Builtin.Form.fill, List.append_assoc]
      rfl
  · rfl
  · rfl
  · rfl

/-- An expression that stands for its effect is no declaration. -/
theorem Expr.isStatement_code {e : Expr} (legible : e.Legible) {code : Text}
    (written : e.code = .ok code) : IsStatement (code ++ ";") := by
  cases e with
  | binary _ op left right =>
    rw [Expr.code] at written
    obtain ⟨leftCode, -, written⟩ := bind_eq_ok.mp written
    obtain ⟨rightCode, -, written⟩ := bind_eq_ok.mp written
    cases written
    simp only [List.append_assoc]
    rfl
  | literal _ kind text =>
    rw [Expr.code] at written
    cases written
    by_cases string : kind = .string
    · rw [if_pos string]
      unfold IsStatement
      rw [sealed_quote]
      rfl
    · rw [if_neg string]
      exact isStatement_number (legible.resolve_left string) _ (apart_cons rfl)
  | use name mark =>
    rw [Expr.code] at written
    cases found : Builtin.standsFor? name.lexeme mark .value with
    | some b =>
      rw [found] at written
      cases written
      exact isStatement_render (Builtin.eq_of_standsFor? found).1 []
    | none =>
      rw [found] at written
      cases written
      exact isStatement_identifier _ (apart_cons rfl) rfl (by decide)
  | call _ callee arguments mark =>
    rw [Expr.code] at written
    obtain ⟨values, -, written⟩ := bind_eq_ok.mp written
    cases found : Builtin.standsFor? callee.lexeme mark .function with
    | some b =>
      rw [found] at written
      cases written
      exact isStatement_render (Builtin.eq_of_standsFor? found).1 values
    | none =>
      rw [found] at written
      cases written
      simp only [List.append_assoc]
      exact isStatement_identifier _ (apart_cons rfl) rfl (by decide)
  | list _ elements =>
    rw [Expr.code] at written
    obtain ⟨values, -, written⟩ := bind_eq_ok.mp written
    cases written
    simp only [List.append_assoc]
    rfl
  | missing => cases written

/-! ### Lines that declare -/

/-- The pieces of a type. -/
def typePieces (type : Text) : List Piece :=
  if type = ("List<object>" : Text) then [.word "List", .mark 60, .word "object", .mark 62]
  else [.word type]

theorem typeOf_cases (word : Text) : typeOf word = "double" ∨ typeOf word = "string" ∨
    typeOf word = "List<object>" ∨ typeOf word = "object" := by
  unfold typeOf
  by_cases number : word = ("一數" : Text)
  · exact .inl (if_pos number)
  rw [if_neg number]
  by_cases string : word = ("一言" : Text)
  · exact .inr (.inl (if_pos string))
  rw [if_neg string]
  by_cases list : word = ("一列" : Text)
  · exact .inr (.inr (.inl (if_pos list)))
  · exact .inr (.inr (.inr (if_neg list)))

theorem not_mem_typeOf (word : Text) : 10 ∉ typeOf word := by
  rcases typeOf_cases word with same | same | same | same
  all_goals
    rw [same]
    decide

/-- A type ends at the blank behind it. -/
theorem sealed_type (word : Text) : Sealed (typeOf word ++ " ") (typePieces (typeOf word)) := by
  intro rest
  rcases typeOf_cases word with same | same | same | same
  all_goals
    rw [same]
    rfl

theorem classify_declaration (word x : Text) (value : List Piece) :
    classify (typePieces (typeOf word) ++ .word x :: .mark 61 :: value) = .declaration x value := by
  rcases typeOf_cases word with same | same | same | same
  all_goals
    rw [same]
    rfl

theorem parameterNames_type (word x : Text) {b : UInt8} (ends : b = 44 ∨ b = 41)
    (rest : List Piece) :
    parameterNames (typePieces (typeOf word) ++ .word x :: .mark b :: rest) =
      x :: parameterNames rest := by
  rcases typeOf_cases word with same | same | same | same
  all_goals
    rw [same]
    rcases ends with rfl | rfl <;> rfl

theorem lex_declaration (word name value : Text) :
    lex (typeOf word ++ " " ++ identifier name ++ " = " ++ value ++ ";") =
      typePieces (typeOf word) ++ .word (identifier name) :: .mark 61 :: lex (value ++ ";") := by
  have sign : Sealed " = " [.mark 61] := fun _ => rfl
  rw [List.append_assoc, List.append_assoc, List.append_assoc, sealed_type, lexes_identifier, sign]
  · rfl
  · exact apart_cons rfl

/-- **The line that declares a variable:** its value is read before its name is there. -/
theorem readLine_declaration (word name : Text) {value : Text} {xs : List Text}
    (reads : Reads value xs) {names : Names} (free : names.pending = []) :
    readLine names (typeOf word ++ " " ++ identifier name ++ " = " ++ value ++ ";") =
      (xs.foldl Names.refer names).declare (identifier name) := by
  have closed : Reads (value ++ ";") xs := reads.close (opens_mark rfl (by decide)) (apart_cons rfl)
  unfold readLine
  rw [lex_declaration, classify_declaration]
  show (scan none (lex (value ++ ";")) names).declare (identifier name) = _
  rw [scan_reads closed free]

theorem parameterNames_params (params : List Param) :
    parameterNames (lex (Text.join ", " (params.map Param.code) ++ ")")) =
      params.map fun p => identifier p.name.lexeme := by
  have cut : ∀ (p : Param) (rest : Text), Apart rest → lex (p.code ++ rest) =
      typePieces (typeOf p.type.lexeme) ++ .word (identifier p.name.lexeme) :: lex rest := by
    intro p rest apart
    rw [Param.code, List.append_assoc, sealed_type, lexes_identifier _ rest apart]
    rfl
  induction params with
  | nil => rfl
  | cons p params ih =>
    cases params with
    | nil =>
      have shape : Text.join ", " ([p].map Param.code) ++ ")" = p.code ++ ")" := by
        simp [Text.join, List.intercalate]
      have closing : lex ")" = [.mark 41] := rfl
      rw [shape, cut p ")" (apart_cons rfl), closing, parameterNames_type _ _ (.inr rfl)]
      rfl
    | cons q params =>
      have shape : Text.join ", " ((p :: q :: params).map Param.code) ++ ")" =
          p.code ++ (", " ++ (Text.join ", " ((q :: params).map Param.code) ++ ")")) := by
        rw [List.map_cons, List.map_cons, Text.join_cons_cons, List.append_assoc, List.append_assoc]
      have comma : Sealed ", " [.mark 44] := fun _ => rfl
      rw [shape, cut p, comma, List.singleton_append, parameterNames_type _ _ (.inl rfl), ih]
      · rfl
      · exact apart_cons rfl

theorem classify_head (name : Text) (params : List Param) :
    classify (lex ("dynamic " ++ identifier name ++ "(" ++
        Text.join ", " (params.map Param.code) ++ ")")) =
      .head (identifier name) (params.map fun p => identifier p.name.lexeme) := by
  have start : Sealed "dynamic " [.word "dynamic"] := fun _ => rfl
  have opened : Sealed "(" [.mark 40] := fun _ => rfl
  have cut : lex ("dynamic " ++ identifier name ++ "(" ++
      Text.join ", " (params.map Param.code) ++ ")") = .word "dynamic" :: .word (identifier name) ::
        .mark 40 :: lex (Text.join ", " (params.map Param.code) ++ ")") := by
    rw [List.append_assoc, List.append_assoc, List.append_assoc, start, lexes_identifier, opened]
    · rfl
    · exact apart_cons rfl
  rw [cut, ← parameterNames_params]
  rfl

/-- **The head of a function:** its name is there at once, its parameters wait for its block. -/
theorem readLine_head (name : Text) (params : List Param) (names : Names) :
    readLine names ("dynamic " ++ identifier name ++ "(" ++
        Text.join ", " (params.map Param.code) ++ ")") =
      (params.map fun p => identifier p.name.lexeme).foldl Names.await
        (names.declare (identifier name)) := by
  unfold readLine
  rw [classify_head]

/-- Parameters that wait are declared when their block opens. -/
theorem enter_await (xs : List Text) (names : Names) :
    (xs.foldl Names.await names).enter = xs.foldl Names.declare names.enter := by
  induction xs generalizing names with
  | nil => rfl
  | cons x xs ih => exact ih (names.await x)

/-! ### Statements -/

theorem replay_pending {names : Names} (free : names.pending = []) (act : Act) :
    (act.replay names).pending = [] := by
  cases act with
  | enter => rfl
  | leave => exact free
  | declare => exact free
  | use | target | call => exact (refer_pending names _).trans free

theorem replay_reference {act : Act} {name : Token} (refers : act.reference? = some name)
    (names : Names) : act.replay names = act.shown?.toList.foldl Names.refer names := by
  cases act with
  | enter | leave | declare => cases refers
  | use | target | call => rfl

/-- Acts that only refer to names show them in order. -/
theorem fold_replay_references {acts : List Act}
    (refer : ∀ act ∈ acts, ∃ name, act.reference? = some name) (names : Names) :
    acts.foldl Act.replay names = (shownNames acts).foldl Names.refer names := by
  induction acts generalizing names with
  | nil => rfl
  | cons act acts ih =>
    obtain ⟨name, refers⟩ := refer act List.mem_cons_self
    have split : shownNames (act :: acts) = act.shown?.toList ++ shownNames acts := by
      cases shown : act.shown? with
      | none => rw [shownNames_cons_none shown, Option.toList_none, List.nil_append]
      | some x => rw [shownNames_cons_some shown, Option.toList_some, List.singleton_append]
    rw [List.foldl_cons, replay_reference refers,
      ih fun act member => refer act (List.mem_cons_of_mem _ member), split, List.foldl_append]

/-- **Reading the marks does what the acts say.** -/
structure Replays (marks : List Mark) (acts : List Act) : Prop where
  oneLine : ∀ code, .line code ∈ marks → 10 ∉ code
  reads : ∀ names : Names, names.pending = [] →
    marks.foldl readMark names = acts.foldl Act.replay names

theorem fold_replay_pending (acts : List Act) {names : Names} (free : names.pending = []) :
    (acts.foldl Act.replay names).pending = [] := by
  induction acts generalizing names with
  | nil => exact free
  | cons act acts ih => exact ih (replay_pending free act)

namespace Replays

variable {marks more : List Mark} {acts rest : List Act}

theorem nil : Replays [] [] := ⟨fun _ member => absurd member List.not_mem_nil, fun _ _ => rfl⟩

theorem append (first : Replays marks acts) (second : Replays more rest) :
    Replays (marks ++ more) (acts ++ rest) := by
  refine ⟨fun code member => ?_, fun names free => ?_⟩
  · exact (List.mem_append.mp member).elim (first.oneLine code) (second.oneLine code)
  · rw [List.foldl_append, List.foldl_append, first.reads names free,
      second.reads _ (fold_replay_pending acts free)]

/-- A block replays its acts inside. -/
theorem block (inner : Replays marks acts) : Replays (Mark.enclose marks) (blockActs acts) := by
  refine ⟨fun code member => ?_, fun names free => ?_⟩
  · have inside : .line code ∈ marks := by simpa [Mark.enclose] using member
    exact inner.oneLine code inside
  · show (marks ++ [Mark.closeBlock]).foldl readMark names.enter =
      (acts ++ [Act.leave]).foldl Act.replay names.enter
    rw [List.foldl_append, List.foldl_append, inner.reads _ rfl]
    rfl

/-- An empty block can be left out. -/
theorem emptyBlock : Replays [] (blockActs []) :=
  ⟨fun _ member => absurd member List.not_mem_nil, fun _ free => (leave_enter free).symm⟩

/-- **A line that declares nothing** replays the acts whose names it shows. -/
theorem line {code : Text} (reads : Reads code (shownNames acts)) (statement : IsStatement code)
    (refer : ∀ act ∈ acts, ∃ name, act.reference? = some name) : Replays [.line code] acts := by
  refine ⟨fun code' member => ?_, fun names free => ?_⟩
  · cases List.mem_singleton.mp member
    exact reads.oneLine
  · rw [fold_replay_references refer]
    exact readLine_statement reads statement free

/-- A line without names. -/
theorem fixed {code : Text} (reads : Reads code []) (statement : IsStatement code) :
    Replays [.line code] [] :=
  .line reads statement fun _ member => absurd member List.not_mem_nil

end Replays

/-! #### Values that may be left out -/

theorem reads_optionCode {absent : Text} (default : Reads absent []) {value : Option Expr}
    (legible : optionLegible value) (fit : ∀ act ∈ optionActs value, act.Fits) {code : Text}
    (written : optionCode absent value = .ok code) :
    Reads code (shownNames (optionActs value)) := by
  cases value with
  | none =>
    cases written
    exact default
  | some e => exact e.reads_code legible fit code written

theorem reads_null : Reads "null" [] := reads_reserved (by decide) (by decide)

theorem reads_defaultOf (word : Text) : Reads (defaultOf (typeOf word)) [] := by
  rcases typeOf_cases word with same | same | same | same
  all_goals rw [same]
  · exact reads_zero
  · exact reads_quote []
  · have tail : Scans [.mark 40, .mark 41] [] :=
      (Scans.mark (b := 40) (by decide) (by decide) (by decide)).append
        (Scans.mark (by decide) (by decide) (by decide)) (by simp)
    exact ⟨⟨_, fun _ _ => rfl, Scans.newList.append tail (by simp), by simp⟩, by decide⟩
  · exact reads_null

/-! #### The fixed parts of statements -/

theorem opens_semicolon : Opens ";" := opens_mark rfl (by decide)

theorem opens_return : Opens "return " :=
  (show Reads "return" [] from reads_reserved (by decide) (by decide)).opens

theorem replays_closingReturn (body : List Stmt) : Replays (closingReturn body) [] := by
  unfold closingReturn
  split
  · exact .nil
  · have reads : Reads "return null;" [] :=
      opens_return.append (reads_null.close opens_semicolon (apart_cons rfl))
    exact .fixed reads rfl

theorem replays_while : Replays [.line "while (true)"] [] := by
  have start : Reads "while" [] := reads_reserved (by decide) (by decide)
  have word : Reads "true" [] := reads_reserved (by decide) (by decide)
  have reads : Reads "while (true)" [] :=
    start.opens.append (opens_parenthesis.append (word.close opens_closing (apart_cons rfl)))
  exact .fixed reads rfl

theorem replays_else : Replays [.line "else"] [] := by
  have reads : Reads "else" [] := reads_reserved (by decide) (by decide)
  exact .fixed reads rfl

theorem replays_break : Replays [.line "break;"] [] := by
  have word : Reads "break" [] := reads_reserved (by decide) (by decide)
  have reads : Reads "break;" [] := word.close opens_semicolon (apart_cons rfl)
  exact .fixed reads rfl

/-! #### All statements -/

theorem replays_declare (type name : Token) {value : Option Expr} {code : Text}
    (reads : Reads code (shownNames (optionActs value))) :
    Replays [.line (typeOf type.lexeme ++ " " ++ identifier name.lexeme ++ " = " ++ code ++ ";")]
      (optionActs value ++ [.declare name type.lexeme .value]) := by
  refine ⟨fun code' member => ?_, fun names free => ?_⟩
  · cases List.mem_singleton.mp member
    have left : 10 ∉ typeOf type.lexeme ++ " " ++ identifier name.lexeme :=
      not_mem_append (not_mem_append (not_mem_typeOf _) (by decide)) (not_mem_identifier _)
    exact not_mem_append (not_mem_append (not_mem_append left (by decide)) reads.oneLine) (by decide)
  · rw [List.foldl_append, fold_replay_references (optionActs_refer value)]
    exact readLine_declaration _ _ reads free

theorem not_mem_head (name : Text) (params : List Param) :
    10 ∉ ("dynamic " ++ identifier name ++ "(" ++ Text.join ", " (params.map Param.code) ++ ")" :
      Text) := by
  have list : 10 ∉ Text.join ", " (params.map Param.code) := by
    induction params with
    | nil => exact List.not_mem_nil
    | cons p params ih =>
      have first : 10 ∉ p.code :=
        not_mem_append (not_mem_append (not_mem_typeOf _) (by decide)) (not_mem_identifier _)
      cases params with
      | nil => simpa [Text.join, List.intercalate] using first
      | cons q params =>
        rw [List.map_cons, List.map_cons, Text.join_cons_cons]
        exact not_mem_append first (not_mem_append (by decide) ih)
  exact not_mem_append (not_mem_append (not_mem_append (not_mem_append (by decide)
    (not_mem_identifier name)) (by decide)) list) (by decide)

theorem replays_function (name : Token) (params : List Param) {marks : List Mark} {acts : List Act}
    (inner : Replays marks acts) :
    Replays (.line ("dynamic " ++ identifier name.lexeme ++ "(" ++
        Text.join ", " (params.map Param.code) ++ ")") :: Mark.enclose marks)
      (.declare name Builtin.functionType .function ::
        blockActs (params.map Param.act ++ acts)) := by
  refine ⟨fun code member => ?_, fun names free => ?_⟩
  · rcases List.mem_cons.mp member with same | inside
    · cases same
      exact not_mem_head name.lexeme params
    · exact inner.block.oneLine code inside
  · have declared : ∀ names : Names, (params.map Param.act).foldl Act.replay names =
        (params.map fun p => identifier p.name.lexeme).foldl Names.declare names := by
      intro names
      rw [List.foldl_map, List.foldl_map]
      rfl
    show (marks ++ [Mark.closeBlock]).foldl readMark (readLine names _).enter =
      (params.map Param.act ++ acts ++ [Act.leave]).foldl Act.replay
        (names.declare (identifier name.lexeme)).enter
    rw [readLine_head, enter_await, ← declared, List.foldl_append, List.foldl_append,
      List.foldl_append, inner.reads _ (fold_replay_pending _ rfl)]
    rfl

section

variable {code : Text} {acts : List Act} (reads : Reads code (shownNames acts))
  (refer : ∀ act ∈ acts, ∃ name, act.reference? = some name)

include reads refer

theorem replays_if : Replays [.line ("if (" ++ code ++ ")")] acts := by
  have start : Reads "if" [] := reads_reserved (by decide) (by decide)
  have line : Reads ("if (" ++ (code ++ ")")) (shownNames acts) :=
    start.opens.append (opens_parenthesis.append (reads.close opens_closing (apart_cons rfl)))
  rw [List.append_assoc]
  exact .line line rfl refer

theorem replays_print : Replays [.line ("Console.WriteLine(" ++ code ++ ");")] acts := by
  have line : Reads ("Console.WriteLine(" ++ (code ++ ")" ++ ";")) (shownNames acts) :=
    opens_writeLine.append
      ((reads.close opens_closing (apart_cons rfl)).close opens_semicolon (apart_cons rfl))
  rw [List.append_assoc] at line ⊢
  exact .line line rfl refer

theorem replays_return : Replays [.line ("return " ++ code ++ ";")] acts := by
  have line := opens_return.append (reads.close opens_semicolon (apart_cons rfl))
  rw [List.append_assoc]
  exact .line line rfl refer

theorem replays_assign (name : Token) :
    Replays [.line (identifier name.lexeme ++ " = " ++ code ++ ";")] (.target name :: acts) := by
  have sign : Opens " = " :=
    ⟨⟨[.mark 61], fun _ => rfl, .mark (by decide) (by decide) (by decide), by simp⟩, by decide⟩
  have line := (reads_identifier name.lexeme).append
    (sign.append (reads.close opens_semicolon (apart_cons rfl))) (apart_cons rfl)
  have shown : (Act.target name).shown? = some (identifier name.lexeme) := rfl
  rw [List.singleton_append, ← shownNames_cons_some shown] at line
  rw [List.append_assoc, List.append_assoc]
  refine .line line (isStatement_identifier _ (apart_cons rfl) rfl (by decide)) fun act member => ?_
  rcases List.mem_cons.mp member with rfl | later
  · exact ⟨name, rfl⟩
  · exact refer act later

end

mutual

/-- **The lines of a statement replay its acts.** -/
theorem Stmt.replays_marks : ∀ s : Stmt, s.Legible → (∀ act ∈ s.acts, act.Fits) →
    ∀ marks, s.marks = .ok marks → Replays marks s.acts
  | .declare _ type name value, legible, fit, marks, written => by
    rw [Stmt.marks] at written
    obtain ⟨code, codeWritten, written⟩ := bind_eq_ok.mp written
    cases written
    have reads := reads_optionCode (reads_defaultOf type.lexeme) legible
      (fun act member => fit act (List.mem_append_left _ member)) codeWritten
    exact replays_declare type name reads
  | .function _ name params body, legible, fit, marks, written => by
    rw [Stmt.marks] at written
    obtain ⟨inner, innerWritten, written⟩ := bind_eq_ok.mp written
    cases written
    have inside := replays_stmtMarks body legible
      (fun act member => fit act (by simp [Stmt.acts, blockActs, member])) inner innerWritten
    have whole := replays_function name params (inside.append (replays_closingReturn body))
    rwa [List.append_nil] at whole
  | .conditional _ condition yes no, legible, fit, marks, written => by
    obtain ⟨test, first, second⟩ := legible
    rw [Stmt.marks] at written
    obtain ⟨code, codeWritten, written⟩ := bind_eq_ok.mp written
    obtain ⟨yesMarks, yesWritten, written⟩ := bind_eq_ok.mp written
    have reads := condition.reads_code test
      (fun act member => fit act (List.mem_append_left _ member)) code codeWritten
    have head := replays_if reads condition.acts_refer
    have yesInside := replays_stmtMarks yes first
      (fun act member => fit act (by simp [Stmt.acts, blockActs, member])) yesMarks yesWritten
    by_cases empty : no.isEmpty = true
    · rw [if_pos empty] at written
      cases written
      cases List.isEmpty_iff.mp empty
      have whole := head.append (yesInside.block.append Replays.emptyBlock)
      rwa [List.append_nil] at whole
    · rw [if_neg empty] at written
      obtain ⟨noMarks, noWritten, written⟩ := bind_eq_ok.mp written
      cases written
      have noInside := replays_stmtMarks no second
        (fun act member => fit act (by simp [Stmt.acts, blockActs, member])) noMarks noWritten
      exact head.append (yesInside.block.append (replays_else.append noInside.block))
  | .loop _ body, legible, fit, marks, written => by
    rw [Stmt.marks] at written
    obtain ⟨inner, innerWritten, written⟩ := bind_eq_ok.mp written
    cases written
    have inside := replays_stmtMarks body legible
      (fun act member => fit act (by simp [Stmt.acts, blockActs, member])) inner innerWritten
    exact replays_while.append inside.block
  | .print _ value, legible, fit, marks, written => by
    rw [Stmt.marks] at written
    obtain ⟨code, codeWritten, written⟩ := bind_eq_ok.mp written
    cases written
    have reads := value.reads_code legible fit code codeWritten
    exact replays_print reads value.acts_refer
  | .returns _ value, legible, fit, marks, written => by
    rw [Stmt.marks] at written
    obtain ⟨code, codeWritten, written⟩ := bind_eq_ok.mp written
    cases written
    have reads := reads_optionCode reads_null legible fit codeWritten
    exact replays_return reads (optionActs_refer value)
  | .assign name value, legible, fit, marks, written => by
    rw [Stmt.marks] at written
    obtain ⟨code, codeWritten, written⟩ := bind_eq_ok.mp written
    cases written
    have reads := value.reads_code legible
      (fun act member => fit act (List.mem_cons_of_mem _ member)) code codeWritten
    exact replays_assign reads value.acts_refer name
  | .breaks _, _, _, marks, written => by
    cases written
    exact replays_break
  | .perform _ value, legible, fit, marks, written => by
    rw [Stmt.marks] at written
    obtain ⟨code, codeWritten, written⟩ := bind_eq_ok.mp written
    cases written
    have reads := value.reads_code legible fit code codeWritten
    exact .line (reads.close opens_semicolon (apart_cons rfl))
      (Expr.isStatement_code legible codeWritten) value.acts_refer
  | .param _, legible, _, _, _ => legible.elim
  | .missing, legible, _, _, _ => legible.elim

/-- **The lines of statements replay their acts.** -/
theorem replays_stmtMarks : ∀ ss : List Stmt, stmtsLegible ss → (∀ act ∈ stmtActs ss, act.Fits) →
    ∀ marks, stmtMarks ss = .ok marks → Replays marks (stmtActs ss)
  | [], _, _, marks, written => by
    cases written
    exact .nil
  | s :: ss, legible, fit, marks, written => by
    rw [stmtMarks] at written
    obtain ⟨first, firstWritten, written⟩ := bind_eq_ok.mp written
    obtain ⟨rest, restWritten, written⟩ := bind_eq_ok.mp written
    cases written
    exact (s.replays_marks legible.1 (fun act member => fit act (List.mem_append_left _ member))
      first firstWritten).append (replays_stmtMarks ss legible.2
        (fun act member => fit act (List.mem_append_right _ member)) rest restWritten)

end

end

end Guwen
