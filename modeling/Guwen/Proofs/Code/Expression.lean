/-
**The code of an expression shows the names of its acts.**

A name that is resolved to a builtin is written as the builtin, any other one as its identifier; the
rest of the code holds no name. No scope takes part in this: it is a matter of how each form is
written.

* `Act.shown?` — the identifier that the code has for an act.
* `Expr.Legible`, `Stmt.Legible` — the tree has no missing node, no operator but the seven, and its
  numbers are written in digits.
* `reads_render` — a builtin reads as its arguments do, when there are no more than it takes.
* **`Expr.good_code`** — the code of an expression has what holds of each form when it holds of the
  parts (`Composes`).
* **`Expr.reads_code`** — the code of an expression reads as the names its acts show.
-/
import Guwen.Code.Generation
import Guwen.Proofs.Code.Pieces
import Guwen.Proofs.Resolution.Discipline

namespace Guwen

theorem length_exprCodes {es : List Expr} {codes : List Text} (written : exprCodes es = .ok codes) :
    codes.length = es.length := by
  induction es generalizing codes with
  | nil =>
    cases written
    rfl
  | cons e es ih =>
    rw [exprCodes] at written
    obtain ⟨code, -, written⟩ := bind_eq_ok.mp written
    obtain ⟨rest, restWritten, written⟩ := bind_eq_ok.mp written
    cases written
    rw [List.length_cons, List.length_cons, ih restWritten]

/-! ### Acts and names -/

namespace Act

/-- The builtin that the code has in place of a name. -/
def builtin? : Act → Option Builtin
  | use name mark => Builtin.standsFor? name.lexeme mark .value
  | call callee _ mark => Builtin.standsFor? callee.lexeme mark .function
  | _ => none

/-- The identifier that the code has for a name that is used, assigned to or called. -/
def shown? (act : Act) : Option Text :=
  if act.builtin?.isSome then none
  else act.reference?.map fun name => Code.identifier name.lexeme

/-- A builtin gets no more arguments than it takes. -/
def Fits (act : Act) : Prop :=
  ∀ callee count mark, act = .call callee count mark →
    ∀ b, act.builtin? = some b → ∀ limit ∈ b.arity, count ≤ limit

end Act

/-- The identifiers that the code has for some acts. -/
def shownNames (acts : List Act) : List Text := acts.filterMap Act.shown?

theorem shownNames_append (first rest : List Act) :
    shownNames (first ++ rest) = shownNames first ++ shownNames rest :=
  List.filterMap_append

/-! #### Expressions only refer to names -/

mutual

theorem Expr.acts_refer : ∀ e : Expr, ∀ act ∈ e.acts, ∃ name, act.reference? = some name
  | .binary _ _ left right, act, member =>
    (List.mem_append.mp member).elim (left.acts_refer act) (right.acts_refer act)
  | .literal .., _, member => absurd member List.not_mem_nil
  | .use name _, _, member => ⟨name, by rw [List.mem_singleton.mp member]; rfl⟩
  | .call _ callee arguments _, act, member => by
    rcases List.mem_cons.mp member with rfl | inside
    · exact ⟨callee, rfl⟩
    · exact exprActs_refer arguments act inside
  | .list _ elements, act, member => exprActs_refer elements act member
  | .missing, _, member => absurd member List.not_mem_nil

theorem exprActs_refer : ∀ es : List Expr, ∀ act ∈ exprActs es, ∃ name, act.reference? = some name
  | [], _, member => absurd member List.not_mem_nil
  | e :: es, act, member =>
    (List.mem_append.mp member).elim (e.acts_refer act) (exprActs_refer es act)

end

theorem optionActs_refer (value : Option Expr) :
    ∀ act ∈ optionActs value, ∃ name, act.reference? = some name := by
  cases value with
  | none => exact fun _ member => absurd member List.not_mem_nil
  | some e => exact e.acts_refer

/-! ### Legible trees -/

mutual

/-- **An expression as a source can hold it.** -/
def Expr.Legible : Expr → Prop
  | .binary _ op left right => op ∈ Operator.all ∧ left.Legible ∧ right.Legible
  | .literal _ kind text => kind = .string ∨ Code.IsNumber text
  | .use .. => True
  | .call _ _ arguments _ => exprsLegible arguments
  | .list _ elements => exprsLegible elements
  | .missing => False

/-- Expressions as a source can hold them. -/
def exprsLegible : List Expr → Prop
  | [] => True
  | e :: es => e.Legible ∧ exprsLegible es

end

/-- The expression, if there is one, is legible. -/
def optionLegible : Option Expr → Prop
  | none => True
  | some e => e.Legible

mutual

/-- **A statement as a source can hold it.** -/
def Stmt.Legible : Stmt → Prop
  | .declare _ _ _ value => optionLegible value
  | .param _ => False
  | .function _ _ _ body => stmtsLegible body
  | .conditional _ condition yes no => condition.Legible ∧ stmtsLegible yes ∧ stmtsLegible no
  | .loop _ body => stmtsLegible body
  | .print _ value => value.Legible
  | .returns _ value => optionLegible value
  | .assign _ value => value.Legible
  | .breaks _ => True
  | .perform _ value => value.Legible
  | .missing => False

/-- Statements as a source can hold them. -/
def stmtsLegible : List Stmt → Prop
  | [] => True
  | s :: ss => s.Legible ∧ stmtsLegible ss

end

/-! #### Marks do not matter -/

mutual

theorem Expr.legible_bare : ∀ e : Expr, e.bare.Legible = e.Legible
  | .binary _ _ left right => by
    rw [Expr.bare, Expr.Legible, left.legible_bare, right.legible_bare, Expr.Legible]
  | .literal .. => rfl
  | .use .. => rfl
  | .call _ _ arguments _ => exprsLegible_bare arguments
  | .list _ elements => exprsLegible_bare elements
  | .missing => rfl

theorem exprsLegible_bare : ∀ es : List Expr, exprsLegible (bareExprs es) = exprsLegible es
  | [] => rfl
  | e :: es => by
    rw [bareExprs, exprsLegible, e.legible_bare, exprsLegible_bare es, exprsLegible]

end

theorem optionLegible_bare (value : Option Expr) :
    optionLegible (value.map Expr.bare) = optionLegible value := by
  cases value with
  | none => rfl
  | some e => exact e.legible_bare

mutual

theorem Stmt.legible_bare : ∀ s : Stmt, s.bare.Legible = s.Legible
  | .declare _ _ _ value => optionLegible_bare value
  | .param _ => rfl
  | .function _ _ _ body => stmtsLegible_bare body
  | .conditional _ condition yes no => by
    rw [Stmt.bare, Stmt.Legible, condition.legible_bare, stmtsLegible_bare yes,
      stmtsLegible_bare no, Stmt.Legible]
  | .loop _ body => stmtsLegible_bare body
  | .print _ value => value.legible_bare
  | .returns _ value => optionLegible_bare value
  | .assign _ value => value.legible_bare
  | .breaks _ => rfl
  | .perform _ value => value.legible_bare
  | .missing => rfl

theorem stmtsLegible_bare : ∀ ss : List Stmt, stmtsLegible (bareStmts ss) = stmtsLegible ss
  | [] => rfl
  | s :: ss => by
    rw [bareStmts, stmtsLegible, s.legible_bare, stmtsLegible_bare ss, stmtsLegible]

end

/-- Resolution keeps a legible tree so. -/
theorem legible_resolve (p : Program) : stmtsLegible p.resolve.tree = stmtsLegible p := by
  have same : bareStmts p.resolve.tree = bareStmts p := bare_resolveStmts .initial p
  rw [← stmtsLegible_bare, same, stmtsLegible_bare]

namespace Code

/-! ### The fixed parts of expressions -/

theorem isReserved_of_mem {word : String} (known : word ∈ reservedWords) :
    isReserved (word : Text) = true :=
  List.any_eq_true.mpr ⟨word, known, beq_self_eq_true _⟩

/-- One mark of its own. -/
theorem opens_mark {b : UInt8} (mark : isWordByte b = false)
    (other : b ∉ ([9, 10, 32, 34, 46, 123, 125] : Text)) : Opens [b] := by
  simp only [List.mem_cons, List.not_mem_nil, or_false, not_or] at other
  obtain ⟨no_tab, no_line, no_space, no_quote, no_dot, no_open, no_close⟩ := other
  have alone : opening b = ([.mark b], .between) := by
    simp [opening, mark, no_quote, isBlankByte, no_space, no_tab]
  refine ⟨⟨[.mark b], fun rest => ?_, .mark no_dot no_open no_close, by simpa using no_dot⟩,
    by simpa using Ne.symm no_line⟩
  rw [lex, List.singleton_append, lexFrom, alone]
  rfl

theorem opens_parenthesis : Opens "(" := opens_mark rfl (by decide)

theorem opens_closing : Opens ")" := opens_mark rfl (by decide)

theorem opens_sign {op : Operator} (known : op ∈ Operator.all) : Opens op.sign := by
  have double : Opens "==" :=
    ⟨⟨[.mark 61, .mark 61], fun _ => rfl,
      (Scans.mark (b := 61) (by decide) (by decide) (by decide)).append
        (Scans.mark (by decide) (by decide) (by decide)) (by simp), by simp⟩, by decide⟩
  simp only [Operator.all, List.mem_cons, List.not_mem_nil, or_false] at known
  rcases known with rfl | rfl | rfl | rfl | rfl | rfl | rfl
  case inr.inr.inr.inr.inr.inr => exact double
  all_goals exact opens_mark rfl (by decide)

/-- The function of a class, with the parenthesis behind it. -/
theorem opens_method {owner method : Text} {code : Text}
    (cut : Sealed code [.word owner, .mark 46, .word method, .mark 40])
    (no_new : method ≠ ("new" : Text)) (line : 10 ∉ code) : Opens code :=
  ⟨⟨_, cut, (Scans.dotted owner no_new).append
    (Scans.mark (b := 40) (by decide) (by decide) (by decide)) (by simp), by simp⟩, line⟩

theorem opens_writeLine : Opens "Console.WriteLine(" :=
  opens_method (fun _ => rfl) (by decide) (by decide)

/-- `new List<object>` holds no name of the program. -/
theorem Scans.newList :
    Scans [.word "new", .word "List", .mark 60, .word "object", .mark 62] [] := by
  intro previous after names _ _ _
  have no_new : isReserved "new" = true := isReserved_of_mem (by decide)
  have no_object : isReserved "object" = true := isReserved_of_mem (by decide)
  refine ⟨some (.mark 62), neutral_mark (by decide), ?_⟩
  simp [scan, isName, no_new, no_object]

/-- A reserved word, other than `new`, holds no name. -/
theorem reads_reserved {name : String} (known : name ∈ reservedWords) (other : name ≠ "new") :
    Reads name [] := by
  have words : ∀ name ∈ reservedWords, (name : Text) ≠ [] ∧
      (name : Text).all isWordByte = true ∧ (name ≠ "new" → (name : Text) ≠ ("new" : Text)) := by
    decide
  obtain ⟨given, all, no_new⟩ := words name known
  have word := List.all_eq_true.mp all
  exact ⟨⟨_, lexes_word given word, .reserved (isReserved_of_mem known) (no_new other), by simp⟩,
    not_mem_of_word word⟩

/-- **A list reads as its elements do.** -/
theorem reads_list {values : List Text} {xss : List (List Text)}
    (elements : List.Forall₂ Reads values xss) :
    Reads ("new List<object> \x7b " ++ (Text.join ", " values ++ " \x7d")) xss.flatten := by
  obtain ⟨⟨ps, cut, scans, -⟩, line⟩ := Reads.join elements
  have opened : Sealed "new List<object> \x7b "
      [.word "new", .word "List", .mark 60, .word "object", .mark 62, .mark 123] := fun _ => rfl
  have closed : Lexes " \x7d" [.mark 125] := fun _ _ => rfl
  have pieces := Scans.newList.append scans.braces (by simp)
  refine ⟨⟨_, opened.append (cut.append closed (apart_cons rfl)), ?_, by simp⟩,
    not_mem_append (by decide) (not_mem_append line (by decide))⟩
  exact pieces

/-! ### Builtins -/

section

variable {values : List Text} {xss : List (List Text)}

/-- Code without names, in place of no arguments. -/
theorem reads_none {code : Text} (reads : Reads code []) (members : List.Forall₂ Reads values xss)
    (fits : values.length ≤ 0) : Reads code xss.flatten := by
  cases members with
  | nil => exact reads
  | cons _ _ => exact absurd fits (Nat.not_succ_le_zero _)

/-- One argument inside `before` and `after`, or `absent` when there is none. -/
theorem reads_first {before after absent : Text} (opens : Opens before) (closes : Reads after [])
    (start : Apart after) (reads : Reads absent []) (members : List.Forall₂ Reads values xss)
    (fits : values.length ≤ 1) :
    Reads ((Builtin.Form.first before after absent).fill values) xss.flatten := by
  cases members with
  | nil => exact reads
  | @cons value xs _ _ first rest =>
    cases rest with
    | cons _ _ => exact absurd (Nat.le_of_succ_le_succ fits) (Nat.not_succ_le_zero _)
    | nil =>
      have both := opens.append (first.append closes start)
      rw [List.flatten_singleton]
      rwa [List.append_nil, ← List.append_assoc] at both

/-- **A builtin reads as its arguments do,** when there are no more than it takes. -/
theorem reads_render {b : Builtin} (known : b ∈ Builtin.all)
    (members : List.Forall₂ Reads values xss)
    (fits : ∀ limit ∈ b.arity, values.length ≤ limit) : Reads (b.render values) xss.flatten := by
  simp only [Builtin.all, List.mem_cons, List.not_mem_nil, or_false] at known
  rcases known with rfl | rfl | rfl | rfl | rfl | rfl | rfl
  · have both := opens_writeLine.append ((Reads.join members).close opens_closing (apart_cons rfl))
    rwa [← List.append_assoc] at both
  · have opens : Opens "Console.ReadLine(" := opens_method (fun _ => rfl) (by decide) (by decide)
    exact reads_none (opens.append opens_closing.reads) members (fits 0 rfl)
  · have opens : Opens "Convert.ToString(" := opens_method (fun _ => rfl) (by decide) (by decide)
    have closes : Reads ").Length" [] :=
      ⟨⟨[.mark 41, .mark 46, .word "Length"],
        (show Sealed ")." [.mark 41, .mark 46] from fun _ => rfl).append
          (lexes_word (by decide) (List.all_eq_true.mp (by decide))),
        .member (by decide), by simp⟩, by decide⟩
    exact reads_first opens closes (apart_cons rfl) (reads_number (.inl isDigits_zero)) members
      (fits 1 rfl)
  · have opens : Opens "Convert.ToDouble(" := opens_method (fun _ => rfl) (by decide) (by decide)
    exact reads_first opens opens_closing.reads (apart_cons rfl) reads_zero members (fits 1 rfl)
  · exact reads_none (reads_reserved (by decide) (by decide)) members (fits 0 rfl)
  · exact reads_none (reads_reserved (by decide) (by decide)) members (fits 0 rfl)
  · exact reads_none (reads_reserved (by decide) (by decide)) members (fits 0 rfl)

end

end Code

/-- What stands for a name is one of the builtins, of that name and the kind asked for. -/
theorem Builtin.eq_of_standsFor? {name : Text} {mark : Option Symbol} {kind : SymbolKind}
    {b : Builtin} (found : standsFor? name mark kind = some b) :
    b ∈ all ∧ b.name = name ∧ b.kind = kind := by
  unfold standsFor? at found
  split at found
  · cases found
  · obtain ⟨hit, same⟩ := Option.filter_eq_some_iff.mp found
    exact ⟨List.mem_of_find?_eq_some hit, by simpa using List.find?_some hit, by simpa using same⟩

theorem Act.mem_of_builtin? {act : Act} {b : Builtin} (found : act.builtin? = some b) :
    b ∈ Builtin.all := by
  cases act with
  | enter | leave | declare | target => cases found
  | use | call => exact (Builtin.eq_of_standsFor? found).1

/-! ### What holds of all code -/

section

open Code

/-- **A property that code has when its parts have it,** for each form of an expression. -/
structure Composes (Good : Text → Prop) : Prop where
  group : ∀ {op : Operator} {left right : Text}, op ∈ Operator.all → Good left → Good right →
    Good ("(" ++ left ++ " " ++ op.sign ++ " " ++ right ++ ")")
  literal : ∀ t : Text, Good (quote t)
  number : ∀ {t : Text}, IsNumber t → Good t
  name : ∀ name : Text, Good (identifier name)
  builtin : ∀ {b : Builtin} {values : List Text}, b ∈ Builtin.all →
    (∀ value ∈ values, Good value) → Good (b.render values)
  call : ∀ (name : Text) {values : List Text}, (∀ value ∈ values, Good value) →
    Good (identifier name ++ "(" ++ Text.join ", " values ++ ")")
  list : ∀ {values : List Text}, (∀ value ∈ values, Good value) →
    Good ("new List<object> \x7b " ++ Text.join ", " values ++ " \x7d")

mutual

/-- **The code of an expression has every property that composes.** -/
theorem Expr.good_code {Good : Text → Prop} (composes : Composes Good) :
    ∀ e : Expr, e.Legible → ∀ code, e.code = .ok code → Good code
  | .binary _ op left right, legible, code, written => by
    obtain ⟨known, first, second⟩ := legible
    rw [Expr.code] at written
    obtain ⟨leftCode, leftWritten, written⟩ := bind_eq_ok.mp written
    obtain ⟨rightCode, rightWritten, written⟩ := bind_eq_ok.mp written
    cases written
    exact composes.group known (left.good_code composes first leftCode leftWritten)
      (right.good_code composes second rightCode rightWritten)
  | .literal _ kind text, legible, code, written => by
    rw [Expr.code] at written
    cases written
    by_cases string : kind = .string
    · rw [if_pos string]
      exact composes.literal text
    · rw [if_neg string]
      exact composes.number (legible.resolve_left string)
  | .use name mark, _, code, written => by
    rw [Expr.code] at written
    cases found : Builtin.standsFor? name.lexeme mark .value with
    | some b =>
      rw [found] at written
      cases written
      exact composes.builtin (Builtin.eq_of_standsFor? found).1 (List.forall_mem_nil _)
    | none =>
      rw [found] at written
      cases written
      exact composes.name name.lexeme
  | .call _ callee arguments mark, legible, code, written => by
    rw [Expr.code] at written
    obtain ⟨values, valuesWritten, written⟩ := bind_eq_ok.mp written
    have members := good_exprCodes composes arguments legible values valuesWritten
    cases found : Builtin.standsFor? callee.lexeme mark .function with
    | some b =>
      rw [found] at written
      cases written
      exact composes.builtin (Builtin.eq_of_standsFor? found).1 members
    | none =>
      rw [found] at written
      cases written
      exact composes.call callee.lexeme members
  | .list _ elements, legible, code, written => by
    rw [Expr.code] at written
    obtain ⟨values, valuesWritten, written⟩ := bind_eq_ok.mp written
    cases written
    exact composes.list (good_exprCodes composes elements legible values valuesWritten)
  | .missing, legible, _, _ => legible.elim

theorem good_exprCodes {Good : Text → Prop} (composes : Composes Good) :
    ∀ es : List Expr, exprsLegible es → ∀ codes, exprCodes es = .ok codes →
      ∀ code ∈ codes, Good code
  | [], _, codes, written => by
    cases written
    exact List.forall_mem_nil _
  | e :: es, legible, codes, written => by
    rw [exprCodes] at written
    obtain ⟨code, codeWritten, written⟩ := bind_eq_ok.mp written
    obtain ⟨rest, restWritten, written⟩ := bind_eq_ok.mp written
    cases written
    exact List.forall_mem_cons.mpr ⟨e.good_code composes legible.1 code codeWritten,
      good_exprCodes composes es legible.2 rest restWritten⟩

end

end

/-! ### Expressions -/

section

open Code

theorem shownNames_cons_none {act : Act} (hidden : act.shown? = none) (acts : List Act) :
    shownNames (act :: acts) = shownNames acts :=
  List.filterMap_cons_none hidden

theorem shownNames_cons_some {act : Act} {x : Text} (shown : act.shown? = some x)
    (acts : List Act) : shownNames (act :: acts) = x :: shownNames acts :=
  List.filterMap_cons_some shown

theorem shown?_of_builtin {act : Act} {b : Builtin} (found : act.builtin? = some b) :
    act.shown? = none := by
  rw [Act.shown?, found]
  rfl

theorem shown?_of_plain {act : Act} {name : Token} (plain : act.builtin? = none)
    (refers : act.reference? = some name) : act.shown? = some (identifier name.lexeme) := by
  rw [Act.shown?, plain, refers]
  rfl

mutual

/-- **The code of an expression reads as the names its acts show.** -/
theorem Expr.reads_code : ∀ e : Expr, e.Legible → (∀ act ∈ e.acts, act.Fits) →
    ∀ code, e.code = .ok code → Reads code (shownNames e.acts)
  | .binary _ op left right, legible, fit, code, written => by
    obtain ⟨known, first, second⟩ := legible
    rw [Expr.code] at written
    obtain ⟨leftCode, leftWritten, written⟩ := bind_eq_ok.mp written
    obtain ⟨rightCode, rightWritten, written⟩ := bind_eq_ok.mp written
    cases written
    have leftReads := left.reads_code first
      (fun act member => fit act (List.mem_append_left _ member)) leftCode leftWritten
    have rightReads := right.reads_code second
      (fun act member => fit act (List.mem_append_right _ member)) rightCode rightWritten
    have tail := opens_blank.append ((opens_sign known).append
      (opens_blank.append (rightReads.close opens_closing (apart_cons rfl))))
    have whole := opens_parenthesis.append (leftReads.append tail (apart_cons rfl))
    rw [Expr.acts, shownNames_append]
    simpa only [List.append_assoc] using whole
  | .literal _ kind text, legible, _, code, written => by
    rw [Expr.code] at written
    cases written
    by_cases string : kind = .string
    · rw [if_pos string]
      exact reads_quote text
    · rw [if_neg string]
      exact reads_number (legible.resolve_left string)
  | .use name mark, _, _, code, written => by
    rw [Expr.code] at written
    show Reads code (shownNames [.use name mark])
    cases found : Builtin.standsFor? name.lexeme mark .value with
    | some b =>
      have hidden : (Act.use name mark).shown? = none := shown?_of_builtin found
      rw [found] at written
      cases written
      rw [shownNames_cons_none hidden]
      exact reads_render (Builtin.eq_of_standsFor? found).1 .nil fun _ _ => Nat.zero_le _
    | none =>
      have shown : (Act.use name mark).shown? = some _ := shown?_of_plain found rfl
      rw [found] at written
      cases written
      rw [shownNames_cons_some shown]
      exact reads_identifier name.lexeme
  | .call _ callee arguments mark, legible, fit, code, written => by
    rw [Expr.code] at written
    obtain ⟨values, valuesWritten, written⟩ := bind_eq_ok.mp written
    obtain ⟨xss, members, same⟩ := reads_exprCodes arguments legible
      (fun act member => fit act (List.mem_cons_of_mem _ member)) values valuesWritten
    rw [Expr.acts]
    cases found : Builtin.standsFor? callee.lexeme mark .function with
    | some b =>
      have hidden : (Act.call callee arguments.length mark).shown? = none := shown?_of_builtin found
      rw [found] at written
      cases written
      rw [shownNames_cons_none hidden, ← same]
      refine reads_render (Builtin.eq_of_standsFor? found).1 members fun limit bound => ?_
      rw [length_exprCodes valuesWritten]
      exact fit _ List.mem_cons_self callee arguments.length mark rfl b found limit bound
    | none =>
      have shown : (Act.call callee arguments.length mark).shown? = some _ :=
        shown?_of_plain found rfl
      rw [found] at written
      cases written
      rw [shownNames_cons_some shown, ← same]
      have tail := opens_parenthesis.append
        ((Reads.join members).close opens_closing (apart_cons rfl))
      have whole := (reads_identifier callee.lexeme).append tail (apart_cons rfl)
      simpa only [List.append_assoc, List.singleton_append] using whole
  | .list _ elements, legible, fit, code, written => by
    rw [Expr.code] at written
    obtain ⟨values, valuesWritten, written⟩ := bind_eq_ok.mp written
    obtain ⟨xss, members, same⟩ := reads_exprCodes elements legible fit values valuesWritten
    cases written
    rw [Expr.acts, ← same]
    simpa only [List.append_assoc] using reads_list members

/-- The codes of expressions read as their names. -/
theorem reads_exprCodes : ∀ es : List Expr, exprsLegible es → (∀ act ∈ exprActs es, act.Fits) →
    ∀ codes, exprCodes es = .ok codes →
      ∃ xss, List.Forall₂ Reads codes xss ∧ xss.flatten = shownNames (exprActs es)
  | [], _, _, codes, written => by
    cases written
    exact ⟨[], .nil, rfl⟩
  | e :: es, legible, fit, codes, written => by
    rw [exprCodes] at written
    obtain ⟨code, codeWritten, written⟩ := bind_eq_ok.mp written
    obtain ⟨rest, restWritten, written⟩ := bind_eq_ok.mp written
    cases written
    have first := e.reads_code legible.1 (fun act member => fit act (List.mem_append_left _ member))
      code codeWritten
    obtain ⟨xss, members, same⟩ := reads_exprCodes es legible.2
      (fun act member => fit act (List.mem_append_right _ member)) rest restWritten
    exact ⟨_ :: xss, .cons first members, by
      rw [List.flatten_cons, same, exprActs, shownNames_append]⟩

end

end

end Guwen
