/-
**Acceptance: the readers accept exactly the grammar.**

What the grammar forms, the readers take. The rules name no reader and hardly look ahead, so the
proof has to know what can follow a statement: nothing, another statement, or the end of a block
(`AtBoundary`). None of these goes on with what was read, and so every reader stops where its rule
stops. Behind 也, 云云 and 之術也 anything may follow (`Finished`).

* `forms_accepted` — every statement and every list of statements that ends there is taken whole.
* `ofTokens_iff_derives` — the tokens before the end are accepted with a program exactly when they
  spell it, and they spell at most one.
-/
import Guwen.Proofs.Grammar.Soundness

namespace Guwen

namespace Grammar

/-! ### Where a statement ends -/

/-- A token that a statement can start with. -/
def startsStatement : TokenKind → Bool
  | .declare | .print | .whether | .loop | .function | .returns | .breaks | .apply | .identifier =>
    true
  | _ => false

/-- A token that closes a block. -/
def closesSome (kind : TokenKind) : Bool := closesBranch kind || closesBody kind

/-- Nothing is next, or a statement, or the end of a block. -/
def AtBoundary (after : List Token) : Prop :=
  ∀ t ∈ after.head?, startsStatement t.kind = true ∨ closesSome t.kind = true

/-- At a boundary none of the tokens is next that could go on with a statement. -/
theorem AtBoundary.notNext {after : List Token} (boundary : AtBoundary after)
    {kinds : TokenKind → Bool}
    (apart : ∀ kind, kinds kind = true → startsStatement kind = false ∧ closesSome kind = false) :
    NotNext kinds after := by
  intro t head
  refine Bool.eq_false_iff.mpr fun picked => ?_
  obtain ⟨notStart, notClose⟩ := apart t.kind picked
  rcases boundary t head with starts | closes
  · rw [notStart] at starts
    cases starts
  · rw [notClose] at closes
    cases closes

theorem AtBoundary.notNumber {after : List Token} (boundary : AtBoundary after) :
    NotNext isNumber after :=
  boundary.notNext fun kind is => by cases kind <;> first | exact ⟨rfl, rfl⟩ | cases is

theorem AtBoundary.notOperator {after : List Token} (boundary : AtBoundary after) :
    NotNext isOperator after :=
  boundary.notNext fun kind is => by cases kind <;> first | exact ⟨rfl, rfl⟩ | cases is

theorem AtBoundary.notKind {after : List Token} (boundary : AtBoundary after) {kind : TokenKind}
    (apart : startsStatement kind = false ∧ closesSome kind = false) :
    NotNext (· == kind) after :=
  boundary.notNext fun other is => by
    rw [eq_of_beq is]
    exact apart

/-- A statement starts with a token that a statement can start with. -/
theorem forms_head {s : Stmt} {place : Place} {ts after : List Token}
    (formed : Forms (.statement s) place ts after) :
    ∃ t us, ts = t :: us ∧ startsStatement t.kind = true := by
  cases formed with
  | declare keyword => exact ⟨_, _, rfl, by rw [keyword]; rfl⟩
  | print keyword => exact ⟨_, _, rfl, by rw [keyword]; rfl⟩
  | conditional keyword => exact ⟨_, _, rfl, by rw [keyword]; rfl⟩
  | loop keyword => exact ⟨_, _, rfl, by rw [keyword]; rfl⟩
  | function keyword => exact ⟨_, _, rfl, by rw [keyword]; rfl⟩
  | returnValue keyword => exact ⟨_, _, rfl, by rw [keyword]; rfl⟩
  | returnNothing keyword => exact ⟨_, _, rfl, by rw [keyword]; rfl⟩
  | breaks keyword => exact ⟨_, _, rfl, by rw [keyword]; rfl⟩
  | perform keyword => exact ⟨_, _, rfl, by rw [keyword]; rfl⟩
  | assign named => exact ⟨_, _, rfl, by rw [named]; rfl⟩

/-- Statements before a boundary start at one. -/
theorem forms_boundary {ss : List Stmt} {place : Place} {ts after : List Token}
    (formed : Forms (.statements ss) place ts after) (boundary : AtBoundary after) :
    AtBoundary (ts ++ after) := by
  cases formed with
  | none => exact boundary
  | more first rest =>
    obtain ⟨t, us, rfl, starts⟩ := forms_head first
    intro head same
    cases same
    exact .inl starts

/-- A token that nothing behind it goes on with: 也, 云云 or 之術也. -/
def finishes : TokenKind → Bool
  | .close | .blockEnd | .functionEnd => true
  | _ => false

/-- There are no tokens, or the last one finishes a statement. -/
def Finished (ts : List Token) : Prop := ∀ t ∈ ts.getLast?, finishes t.kind = true

/-- The tokens are over where `after` starts. -/
def OverBefore (ts after : List Token) : Prop := Finished ts ∨ AtBoundary after

theorem number_of_goesOn {t : Token} {run : List Token} (number : t.kind = .number)
    (together : List.IsChain GoesOn (t :: run)) : ∀ u ∈ t :: run, u.kind = .number := by
  induction run generalizing t with
  | nil => simpa using number
  | cons next run ih =>
    obtain ⟨goesOn, rest⟩ := List.isChain_cons_cons.mp together
    exact List.forall_mem_cons.mpr ⟨number, ih goesOn.1 rest⟩

/-- A token that can stand in an expression: one that starts an operand or goes on behind one. -/
def inExpression (kind : TokenKind) : Bool := startsExpression kind || extendsArguments kind

/-- Every token of a phrase is one that can stand in an expression. -/
theorem spells_kinds {phrase : Phrase} {ts after : List Token} (spelt : Spells phrase ts after) :
    ∀ t ∈ ts, inExpression t.kind = true := by
  have called (callee : Token) (is : callee.kind = .identifier ∨ callee.kind = .string) :
      inExpression callee.kind = true := by
    rcases is with is | is <;> rw [is] <;> rfl
  have operates (t : Token) (op : Operator) (operator : Operator.ofKind? t.kind = some op) :
      inExpression t.kind = true := by
    rw [inExpression, extendsArguments, isOperator, operator, Option.isSome_some, Bool.or_true,
      Bool.or_true]
  induction spelt with
  | arabic number => simp [number, inExpression, startsExpression]
  | glyphs number _ together =>
    intro t held
    rw [number_of_goesOn number together t held]
    rfl
  | string string => simp [string, inExpression, startsExpression]
  | name name => simp [name, inExpression, startsExpression]
  | bareCall keyword is =>
    exact List.forall_mem_cons.mpr
      ⟨by rw [keyword]; rfl, List.forall_mem_singleton.mpr (called _ is)⟩
  | @call k callee mark es ts after keyword is opens values ih =>
    have mark_open : inExpression mark.kind = true := by
      rcases opensArguments_iff.mp opens with is | is <;> rw [is] <;> rfl
    exact List.forall_mem_cons.mpr ⟨by rw [keyword]; rfl, List.forall_mem_cons.mpr
      ⟨called _ is, List.forall_mem_cons.mpr ⟨mark_open, ih⟩⟩⟩
  | lastArgument _ _ ih => exact ih
  | @argument e es mark ts us after value separates more ihValue ihMore =>
    have mark_open : inExpression mark.kind = true := by
      rw [inExpression, extendsArguments, separates, Bool.true_or, Bool.or_true]
    exact List.forall_mem_append.mpr ⟨ihValue, List.forall_mem_cons.mpr ⟨mark_open, ihMore⟩⟩
  | operandTerm _ ih => exact ih
  | product _ operator _ _ ihLeft ihRight =>
    exact List.forall_mem_append.mpr
      ⟨ihLeft, List.forall_mem_cons.mpr ⟨operates _ _ operator, ihRight⟩⟩
  | termSum _ ih => exact ih
  | sum _ operator _ _ ihLeft ihRight =>
    exact List.forall_mem_append.mpr
      ⟨ihLeft, List.forall_mem_cons.mpr ⟨operates _ _ operator, ihRight⟩⟩
  | sumExpression _ ih => exact ih
  | comparison _ operator _ _ ihLeft ihRight =>
    exact List.forall_mem_append.mpr
      ⟨ihLeft, List.forall_mem_cons.mpr ⟨operates _ _ operator, ihRight⟩⟩

/-- No token of an expression finishes a statement. -/
theorem spells_not_finishes {phrase : Phrase} {ts after : List Token}
    (spelt : Spells phrase ts after) : ∀ t ∈ ts, finishes t.kind = false := by
  intro t member
  have kind := spells_kinds spelt t member
  cases is : t.kind <;> first | rfl | (rw [is] at kind; cases kind)

/-- Tokens that do not finish a statement are not all of the tokens of a finished one. -/
theorem ne_nil_of_finished {us closing : List Token}
    (unfinished : ∀ t ∈ us, finishes t.kind = false) (some : us ≠ [])
    (finished : Finished (us ++ closing)) : closing ≠ [] := by
  rintro rfl
  rw [List.append_nil] at finished
  have yes := finished _ (List.getLast?_eq_some_getLast some)
  have no := unfinished _ (List.getLast_mem some)
  rw [yes] at no
  cases no

/-- A statement that ends without 也 ends at a boundary. -/
theorem boundary_of_overBefore {us closing after : List Token}
    (unfinished : ∀ t ∈ us, finishes t.kind = false) (some : us ≠ [])
    (isOver : OverBefore (us ++ closing) after) (bare : closing = []) : AtBoundary after :=
  isOver.resolve_left fun finished => ne_nil_of_finished unfinished some finished bare

/-- The keyword of a statement and an expression behind it. -/
theorem unfinished_cons {k : Token} {phrase : Phrase} {ts after : List Token}
    (keyword : finishes k.kind = false) (value : Spells phrase ts after) :
    ∀ t ∈ k :: ts, finishes t.kind = false :=
  List.forall_mem_cons.mpr ⟨keyword, spells_not_finishes value⟩

/-- Where a statement and further statements end, each of both ends. -/
theorem OverBefore.split {s : Stmt} {ss : List Stmt} {place : Place} {ts us after : List Token}
    (first : Forms (.statement s) place ts (us ++ after))
    (rest : Forms (.statements ss) place us after) (isOver : OverBefore (ts ++ us) after) :
    OverBefore ts (us ++ after) ∧ OverBefore us after := by
  cases rest with
  | none =>
    refine ⟨?_, .inl fun t last => by cases last⟩
    rwa [List.append_nil] at isOver
  | more second more =>
    obtain ⟨t, vs, rfl, starts⟩ := forms_head second
    refine ⟨.inr fun head same => ?_, isOver.imp_left fun finished last is => finished last ?_⟩
    · cases same
      exact .inl starts
    · rw [List.getLast?_append, is]
      rfl

/-! ### Optional tokens -/

theorem skip_append {kind : TokenKind} {lead after : List Token} (optional : Optional kind lead)
    (clear : NotNext (· == kind) after) : (skip kind (lead ++ after)).1 = after := by
  rcases optional with rfl | ⟨t, is, rfl⟩
  · cases after with
    | nil => rfl
    | cons t ts =>
      have other : t.kind ≠ kind := by simpa [notNext_cons] using clear
      simp only [List.nil_append, skip, if_neg other]
  · simp only [List.cons_append, List.nil_append, skip, if_pos is]

theorem Optional.notNext {kind : TokenKind} {kinds : TokenKind → Bool} {lead after : List Token}
    (optional : Optional kind lead) (other : kinds kind = false) (clear : NotNext kinds after) :
    NotNext kinds (lead ++ after) := by
  rcases optional with rfl | ⟨t, is, rfl⟩
  · exact clear
  · rw [List.cons_append, notNext_cons, is]
    exact other

theorem skip_closing {closing after : List Token} (closes : Optional .close closing)
    (boundary : closing = [] → AtBoundary after) : (skip .close (closing ++ after)).1 = after := by
  rcases closes with rfl | ⟨t, is, rfl⟩
  · exact skip_append (.inl rfl) ((boundary rfl).notKind ⟨rfl, rfl⟩)
  · simp only [List.cons_append, List.nil_append, skip, if_pos is]

theorem notNext_closing {kinds : TokenKind → Bool} {closing after : List Token}
    (closes : Optional .close closing) (other : kinds .close = false)
    (clear : closing = [] → NotNext kinds after) : NotNext kinds (closing ++ after) := by
  rcases closes with rfl | ⟨t, is, rfl⟩
  · exact clear rfl
  · rw [List.cons_append, notNext_cons, is]
    exact other

/-! ### What the grammar forms is taken by the readers -/

theorem declaredName_complete {site : Site} {name : Token} {ts after : List Token}
    (spelt : SpellsName name ts) : Leaves (declaredName site (ts ++ after)) name after := by
  obtain ⟨lead, mark, optional, named, string, shown, rfl⟩ := spelt
  refine leaves_declaredName.mpr ⟨mark, named, string, shown, ?_⟩
  rw [List.append_assoc]
  apply skip_append optional
  rw [List.cons_append, notNext_cons, named]
  rfl

/-- What may not follow an initial value. -/
def extendsValue (kind : TokenKind) : Bool := isNumber kind || isOperator kind || kind == .comma

theorem notNext_extendsValue {after : List Token} (clear : NotNext extendsValue after) :
    NotNext isNumber after ∧ NotNext isOperator after ∧ NotNext (· == .comma) after := by
  refine ⟨fun t head => ?_, fun t head => ?_, fun t head => ?_⟩
  all_goals
    have none := clear t head
    simp only [extendsValue, Bool.or_eq_false_iff] at none
  · exact none.1.1
  · exact none.1.2
  · exact none.2

theorem elements_complete {es : List Expr} {ts after : List Token}
    (spelt : SpellsElements es ts after) (clear : NotNext extendsValue after) (site : Site) :
    ∃ e more mid, es = e :: more ∧ Leaves (expression site (ts ++ after)) e mid ∧
      Leaves (elements site true mid) more after := by
  induction spelt with
  | @last e ts after value =>
    obtain ⟨number, operator, comma⟩ := notNext_extendsValue clear
    exact ⟨e, [], after, rfl, expression_complete value number operator site,
      leaves_elements.mpr (.inl ⟨comma, rfl, rfl⟩)⟩
  | @more e es comma ts us after value is rest ih =>
    obtain ⟨e', more, mid, rfl, first, next⟩ := ih clear
    refine ⟨e, e' :: more, comma :: (us ++ after), rfl, ?_, ?_⟩
    · rw [List.append_assoc, List.cons_append]
      refine expression_complete value ?_ ?_ site
      · rw [notNext_cons, is]
        rfl
      · rw [notNext_cons, is]
        rfl
    · exact leaves_elements.mpr (.inr ⟨comma, us ++ after, e', more, mid, rfl, is, rfl, first, next,
        rfl⟩)

theorem initialValue_complete {isList : Bool} {e : Expr} {ts after : List Token}
    (spelt : SpellsValue isList e ts after) (clear : NotNext extendsValue after) (site : Site) :
    Leaves (initialValue site isList (ts ++ after)) e after := by
  obtain ⟨number, operator, comma⟩ := notNext_extendsValue clear
  cases spelt with
  | single value =>
    exact leaves_initialValue.mpr ⟨e, after, [], expression_complete value number operator site,
      leaves_elements.mpr (.inl ⟨comma, rfl, rfl⟩), rfl⟩
  | reference value reference =>
    refine leaves_initialValue.mpr ⟨e, after, [], expression_complete value number operator site,
      leaves_elements.mpr (.inl ⟨comma, rfl, rfl⟩), ?_⟩
    rw [if_pos rfl]
    exact listValue_of_isReference reference
  | @list es start ts _ values proper =>
    obtain ⟨first, more, mid, rfl, head, next⟩ := elements_complete values clear site
    refine leaves_initialValue.mpr ⟨first, mid, more, head, next, ?_⟩
    have peek : site.peek (start :: ts ++ after) = start := rfl
    rw [if_pos rfl, peek]
    cases more with
    | nil => exact listValue_of_not_isReference (proper first rfl)
    | cons e' more => exact listValue_cons

theorem initializer_complete {isList : Bool} {value : Option Expr} {ts after : List Token}
    {closing : Token} (spelt : SpellsInitial isList value ts (closing :: after))
    (closes : closing.kind = .close) (site : Site) :
    Leaves (initializer site isList (ts ++ closing :: after)) value (closing :: after) := by
  cases spelt with
  | absent =>
    refine leaves_initializer.mpr (.inl ⟨?_, rfl, rfl⟩)
    rw [List.nil_append, notNext_cons, closes]
    rfl
  | @present k e ts _ keyword value =>
    refine leaves_initializer.mpr (.inr ⟨k, ts ++ closing :: after, e, rfl, keyword, ?_, rfl⟩)
    refine initialValue_complete value ?_ site
    rw [notNext_cons, closes]
    rfl

theorem spellsParams_head {ps : List Param} {ts : List Token} (spelt : SpellsParams ps ts) :
    ∃ type us, ts = type :: us ∧ type.kind.isType = true := by
  cases spelt with
  | last isType _ _ => exact ⟨_, _, rfl, isType⟩
  | more isType _ _ _ => exact ⟨_, _, rfl, isType⟩

theorem not_comma_of_isType {kind : TokenKind} (isType : kind.isType = true) :
    (kind == .comma) = false := by
  cases kind <;> first | rfl | cases isType

/-- What may not follow parameters. -/
def extendsParams (kind : TokenKind) : Bool := kind == .comma || kind.isType

theorem parameters_complete {ps : List Param} {ts after : List Token} {site : Site}
    (ending : site.ending.kind = .eof) (spelt : SpellsParams ps ts)
    (clear : NotNext extendsParams after) : Leaves (parameters site (ts ++ after)) ps after := by
  have comma : NotNext (· == .comma) after := fun t head =>
    (Bool.or_eq_false_iff.mp (clear t head)).1
  induction spelt with
  | @last type name ts mark isType named optional =>
    refine leaves_parameters.mpr
      ⟨type, ts ++ mark ++ after, name, mark ++ after, isType, rfl, ?_, ?_⟩
    · rw [List.append_assoc]
      exact declaredName_complete named
    · rw [skip_append optional comma]
      refine .inr ⟨?_, rfl, rfl⟩
      cases after with
      | nil =>
        show site.ending.kind.isType = false
        rw [ending]
        rfl
      | cons t us => exact (Bool.or_eq_false_iff.mp (clear t rfl)).2
  | @more type name ps ts mark us isType named optional rest ih =>
    obtain ⟨next, vs, rfl, nextType⟩ := spellsParams_head rest
    have skipped : (skip .comma (mark ++ (next :: vs ++ after))).1 = next :: vs ++ after := by
      apply skip_append optional
      rw [List.cons_append, notNext_cons]
      exact not_comma_of_isType nextType
    refine leaves_parameters.mpr ⟨type, ts ++ mark ++ (next :: vs) ++ after, name,
      mark ++ (next :: vs ++ after), isType, rfl, ?_, ?_⟩
    · rw [List.append_assoc, List.append_assoc]
      exact declaredName_complete named
    · rw [skipped]
      exact .inl ⟨nextType, ps, ih, rfl⟩

theorem signature_complete {ps : List Param} {before sig behind after : List Token} {site : Site}
    (ending : site.ending.kind = .eof) (first : Optional .invoke before)
    (spelt : SpellsSignature ps sig) (second : Optional .invoke behind)
    (boundary : AtBoundary after) :
    Leaves (signature site (before ++ (sig ++ (behind ++ after)))) ps after := by
  have invoke : NotNext (· == .invoke) after := boundary.notKind ⟨rfl, rfl⟩
  have params : NotNext (· == .params) after := boundary.notKind ⟨rfl, rfl⟩
  cases spelt with
  | absent =>
    rw [List.nil_append]
    refine leaves_signature.mpr (.inl ?_)
    -- two optional tokens of one kind: the first skip takes whichever is there
    rcases first with rfl | ⟨t, is, rfl⟩
    · rw [List.nil_append, skip_append second invoke]
      exact ⟨params, rfl, skip_append (.inl rfl) invoke⟩
    · have once : (skip .invoke ([t] ++ (behind ++ after))).1 = behind ++ after := by
        simp only [List.cons_append, List.nil_append, skip, if_pos is]
      rw [once, skip_append second invoke]
      exact ⟨second.notNext rfl params, rfl, rfl⟩
  | @present k ps ts keyword spelt =>
    refine leaves_signature.mpr (.inr ⟨k, ts ++ (behind ++ after), behind ++ after, ?_, keyword, ?_,
      skip_append second invoke⟩)
    · apply skip_append first
      rw [List.cons_append, notNext_cons, keyword]
      rfl
    · refine parameters_complete ending spelt (second.notNext rfl ?_)
      exact boundary.notNext fun kind is => by cases kind <;> first | exact ⟨rfl, rfl⟩ | cases is

/-- An expression before 也 or a boundary is read whole. -/
theorem expression_complete_closing {e : Expr} {ts closing after : List Token}
    (spelt : Spells (.expression e) ts (closing ++ after)) (closes : Optional .close closing)
    (boundary : closing = [] → AtBoundary after) (site : Site) :
    Leaves (expression site (ts ++ (closing ++ after))) e (closing ++ after) :=
  expression_complete spelt (notNext_closing closes rfl fun bare => (boundary bare).notNumber)
    (notNext_closing closes rfl fun bare => (boundary bare).notOperator) site

/-- The readers of statements take the clause and stop at `after`. -/
def Accepted (clause : Clause) (place : Place) (ts after : List Token) : Prop :=
  ∀ site : Site, site.ending.kind = .eof → site.place = place → OverBefore ts after →
    match clause with
    | .statement s => Leaves (statement site (ts ++ after)) s after
    | .statements ss =>
      (∀ cause closes, (∀ kind, startsStatement kind = true → closes kind = false) →
        (∃ t us, after = t :: us ∧ closes t.kind = true) →
          Leaves (block site cause closes (ts ++ after)) ss after) ∧
      (after = [] → statements site (ts ++ after) = .ok ss)

theorem closesBranch_apart (kind : TokenKind) (starts : startsStatement kind = true) :
    closesBranch kind = false := by
  cases kind <;> first | rfl | cases starts

theorem closesBlock_apart (kind : TokenKind) (starts : startsStatement kind = true) :
    closesBlock kind = false := by
  cases kind <;> first | rfl | cases starts

theorem closesBody_apart (kind : TokenKind) (starts : startsStatement kind = true) :
    closesBody kind = false := by
  cases kind <;> first | rfl | cases starts

theorem spellsEnd_head {name : Token} {closing : List Token} (spelt : SpellsEnd name closing) :
    ∃ t us, closing = t :: us ∧ closesBody t.kind = true := by
  cases spelt with
  | plain closing => exact ⟨_, _, rfl, by rw [closing]; rfl⟩
  | called keyword _ => exact ⟨_, _, rfl, by rw [keyword]; rfl⟩
  | named keyword _ _ _ => exact ⟨_, _, rfl, by rw [keyword]; rfl⟩

theorem atBoundary_closing {t : Token} {after : List Token} (closes : closesSome t.kind = true) :
    AtBoundary (t :: after) := by
  intro head same
  cases same
  exact .inr closes

theorem conditional_complete {place : Place} {k mark closing : Token} {e : Expr}
    {yes no : List Stmt} {ts us other vs after : List Token} (keyword : k.kind = .whether)
    (condition : Spells (.expression e) ts (mark :: (us ++ (other ++ (vs ++ closing :: after)))))
    (is : mark.kind = .thereupon)
    (first : Accepted (.statements yes) place us (other ++ (vs ++ closing :: after)))
    (otherwise : elseMark other no)
    (second : Accepted (.statements no) place vs (closing :: after))
    (empty : no = [] → vs = []) (closes : closing.kind = .blockEnd) :
    Accepted (.statement (.conditional k e yes no)) place
      (k :: (ts ++ mark :: (us ++ (other ++ (vs ++ [closing]))))) after := by
  intro site ending here isOver
  have closed : AtBoundary (closing :: after) := atBoundary_closing (by rw [closes]; rfl)
  have tokens : k :: (ts ++ mark :: (us ++ (other ++ (vs ++ [closing])))) ++ after =
      k :: (ts ++ mark :: (us ++ (other ++ (vs ++ closing :: after)))) := by
    simp only [List.cons_append, List.append_assoc, List.nil_append]
  have read : Leaves (expression (site.inside .conditional)
      (ts ++ mark :: (us ++ (other ++ (vs ++ closing :: after))))) e
      (mark :: (us ++ (other ++ (vs ++ closing :: after)))) := by
    refine expression_complete condition ?_ ?_ _
    · rw [notNext_cons, is]
      rfl
    · rw [notNext_cons, is]
      rfl
  show Leaves
    (statement site (k :: (ts ++ mark :: (us ++ (other ++ (vs ++ [closing])))) ++ after)) _ _
  rw [tokens]
  refine leaves_statement.mpr (.inr (.inr (.inl ⟨keyword, ?_⟩)))
  rcases otherwise with ⟨rfl, rfl⟩ | ⟨t, isElse, rfl⟩
  · cases empty rfl
    have yesRead := (first (site.inside .conditional) ending here (.inr closed)).1 .expectedBlockEnd
      closesBranch closesBranch_apart ⟨closing, after, rfl, by rw [closes]; rfl⟩
    exact leaves_conditional.mpr ⟨e, mark, _, yes, closing, after, read, is, yesRead,
      .inr ⟨closes, rfl, rfl⟩⟩
  · have yesRead := (first (site.inside .conditional) ending here
        (.inr (atBoundary_closing (by rw [isElse]; rfl)))).1 .expectedBlockEnd
      closesBranch closesBranch_apart ⟨t, _, rfl, by rw [isElse]; rfl⟩
    have noRead := (second (site.inside .conditional) ending here (.inr closed)).1 .expectedBlockEnd
      closesBlock closesBlock_apart ⟨closing, after, rfl, by rw [closes]; rfl⟩
    exact leaves_conditional.mpr ⟨e, mark, _, yes, t, _, read, is, yesRead,
      .inl ⟨isElse, no, closing, noRead, closes, rfl⟩⟩

theorem returnNothing_peek {site : Site} {ts : List Token} (ending : site.ending.kind = .eof)
    (nothing : NotNext startsExpression ts) : startsExpression (site.peek ts).kind = false := by
  cases ts with
  | nil =>
    show startsExpression site.ending.kind = false
    rw [ending]
    rfl
  | cons t us => exact nothing t rfl

/-- **What the grammar forms is accepted,** by the rules of the grammar. -/
theorem forms_accepted {clause : Clause} {place : Place} {ts after : List Token}
    (formed : Forms clause place ts after) : Accepted clause place ts after := by
  induction formed with
  | @declare place k type name closing value ts us after keyword isType named initial closes =>
    intro site ending here isOver
    have tokens : k :: type :: (ts ++ (us ++ [closing])) ++ after =
        k :: type :: (ts ++ (us ++ closing :: after)) := by
      simp only [List.cons_append, List.append_assoc, List.nil_append]
    show Leaves (statement site (k :: type :: (ts ++ (us ++ [closing])) ++ after)) _ _
    rw [tokens]
    exact leaves_statement.mpr (.inl ⟨keyword, leaves_declaration.mpr ⟨type, _, name, _, value,
      closing, isType, rfl, declaredName_complete named, initializer_complete initial closes _,
      closes, rfl⟩⟩)
  | @print place k e ts closing after keyword value closes =>
    intro site ending here isOver
    have boundary := boundary_of_overBefore (unfinished_cons (by rw [keyword]; rfl) value)
      (List.cons_ne_nil k ts) isOver
    show Leaves (statement site (k :: (ts ++ closing ++ after))) _ _
    rw [List.append_assoc]
    exact leaves_statement.mpr (.inr (.inl ⟨keyword, leaves_print.mpr ⟨e, _,
      expression_complete_closing value closes boundary _,
      skip_closing closes boundary, rfl⟩⟩))
  | @conditional place k mark closing e yes no ts us other vs after keyword condition is first
      otherwise second closes ihFirst ihSecond =>
    refine conditional_complete keyword condition is ihFirst otherwise ihSecond ?_ closes
    rintro rfl
    cases second
    rfl
  | @loop place k closing body ts after keyword inner closes ih =>
    intro site ending here isOver
    have tokens : k :: (ts ++ [closing]) ++ after = k :: (ts ++ closing :: after) := by
      simp only [List.cons_append, List.append_assoc, List.nil_append]
    show Leaves (statement site (k :: (ts ++ [closing]) ++ after)) _ _
    rw [tokens]
    have inside : site.insideLoop.place = place.insideLoop := by rw [← here]; rfl
    have bodyRead := (ih site.insideLoop ending inside
      (.inr (atBoundary_closing (by rw [closes]; rfl)))).1 .expectedBlockEnd closesBlock
        closesBlock_apart ⟨closing, after, rfl, by rw [closes]; rfl⟩
    exact leaves_statement.mpr (.inr (.inr (.inr (.inl ⟨keyword, leaves_loop.mpr
      ⟨body, closing, bodyRead, closes, rfl⟩⟩))))
  | @function place k name ps body ns before sig behind ts closing after keyword named first params
      second inner closes ih =>
    intro site ending here isOver
    have tokens : k :: (ns ++ (before ++ (sig ++ (behind ++ (ts ++ closing))))) ++ after =
        k :: (ns ++ (before ++ (sig ++ (behind ++ (ts ++ (closing ++ after)))))) := by
      simp only [List.cons_append, List.append_assoc]
    show Leaves (statement site
      (k :: (ns ++ (before ++ (sig ++ (behind ++ (ts ++ closing))))) ++ after)) _ _
    rw [tokens]
    obtain ⟨t, us, rfl, closesHead⟩ := spellsEnd_head closes
    have closed : AtBoundary (t :: us ++ after) :=
      atBoundary_closing (by rw [closesSome, closesHead, Bool.or_true])
    have bodyRead := (ih site.insideFunction ending rfl (.inr closed)).1 .expectedFunctionEnd
      closesBody closesBody_apart ⟨t, us ++ after, rfl, closesHead⟩
    exact leaves_statement.mpr (.inr (.inr (.inr (.inr (.inl ⟨keyword, leaves_function.mpr
      ⟨name, _, ps, _, body, t :: us, declaredName_complete named,
        signature_complete ending first params second (forms_boundary inner closed), bodyRead,
        closes, rfl⟩⟩)))))
  | @returnValue place k e ts closing after keyword inside value closes =>
    intro site ending here isOver
    have boundary := boundary_of_overBefore (unfinished_cons (by rw [keyword]; rfl) value)
      (List.cons_ne_nil k ts) isOver
    obtain ⟨t, us, rfl, starts⟩ := spells_head value
    show Leaves (statement site (k :: (t :: us ++ closing ++ after))) _ _
    rw [List.append_assoc]
    have inFunction : site.inFunction = true := by rw [← inside, ← here]; rfl
    exact leaves_statement.mpr (.inr (.inr (.inr (.inr (.inr (.inl ⟨keyword, leaves_returns.mpr
      ⟨inFunction, .inl ⟨starts, e, _, expression_complete_closing value closes boundary _,
        skip_closing closes boundary, rfl⟩⟩⟩))))))
  | @returnNothing place k closing after keyword inside nothing closes =>
    intro site ending here isOver
    have boundary := boundary_of_overBefore (List.forall_mem_singleton.mpr (by rw [keyword]; rfl))
      (List.cons_ne_nil k []) isOver
    have inFunction : site.inFunction = true := by rw [← inside, ← here]; rfl
    exact leaves_statement.mpr (.inr (.inr (.inr (.inr (.inr (.inl ⟨keyword, leaves_returns.mpr
      ⟨inFunction, .inr ⟨returnNothing_peek ending nothing,
        skip_closing closes boundary, rfl⟩⟩⟩))))))
  | @breaks place k closing after keyword inside closes =>
    intro site ending here isOver
    have boundary := boundary_of_overBefore (List.forall_mem_singleton.mpr (by rw [keyword]; rfl))
      (List.cons_ne_nil k []) isOver
    have inLoop : site.inLoop = true := by rw [← inside, ← here]; rfl
    exact leaves_statement.mpr (.inr (.inr (.inr (.inr (.inr (.inr (.inl ⟨keyword,
      leaves_breaks.mpr ⟨inLoop, skip_closing closes boundary, rfl⟩⟩)))))))
  | @perform place k e ts closing after keyword call closes =>
    intro site ending here isOver
    have boundary :=
      boundary_of_overBefore (spells_not_finishes call) (List.cons_ne_nil k ts) isOver
    show Leaves (statement site (k :: (ts ++ closing ++ after))) _ _
    rw [List.append_assoc]
    have operand := spells_taken call
      (notNext_closing closes rfl fun bare => (boundary bare).notNumber) (site.inside .call)
    rcases leaves_operand.mp operand with ⟨is, -⟩ | ⟨is, -⟩ | ⟨is, -⟩ | ⟨-, read⟩
    · rw [keyword] at is
      cases is
    · rw [keyword] at is
      cases is
    · rw [keyword] at is
      cases is
    · exact leaves_statement.mpr (.inr (.inr (.inr (.inr (.inr (.inr (.inr (.inl ⟨keyword,
        leaves_callStatement.mpr ⟨e, _, read, skip_closing closes boundary,
          rfl⟩⟩))))))))
  | @assign place name mark e ts closing after named is value closes =>
    intro site ending here isOver
    have unfinished := List.forall_mem_cons.mpr
      ⟨by rw [named]; rfl, unfinished_cons (by rw [is]; rfl) value⟩
    have boundary := boundary_of_overBefore unfinished (List.cons_ne_nil name _) isOver
    show Leaves (statement site (name :: mark :: (ts ++ closing ++ after))) _ _
    rw [List.append_assoc]
    exact leaves_statement.mpr (.inr (.inr (.inr (.inr (.inr (.inr (.inr (.inr ⟨named,
      leaves_assignment.mpr ⟨mark, _, e, _, is, rfl,
        expression_complete_closing value closes boundary _,
        skip_closing closes boundary, rfl⟩⟩))))))))
  | @none place after =>
    intro site ending here isOver
    refine ⟨fun cause closes apart closing => ?_, fun nothing => ?_⟩
    · obtain ⟨t, us, rfl, isClosing⟩ := closing
      exact leaves_block.mpr ⟨t, us, rfl, .inl ⟨isClosing, rfl, rfl⟩⟩
    · exact statements_eq_ok.mpr (.inl ⟨nothing, rfl⟩)
  | @more place s ss ts us after first rest ihFirst ihRest =>
    intro site ending here isOver
    obtain ⟨firstEnds, restEnds⟩ := OverBefore.split first rest isOver
    have head := ihFirst site ending here firstEnds
    obtain ⟨blockRest, programRest⟩ := ihRest site ending here restEnds
    obtain ⟨t, vs, rfl, starts⟩ := forms_head first
    rw [List.append_assoc]
    refine ⟨fun cause closes apart closing => ?_, fun nothing => ?_⟩
    · exact leaves_block.mpr ⟨t, _, rfl, .inr ⟨apart t.kind starts, s, _, ss, head,
        blockRest cause closes apart closing, rfl⟩⟩
    · exact statements_eq_ok.mpr (.inr ⟨t, _, s, _, ss, rfl, head, programRest nothing, rfl⟩)

/-! ### Programs -/

theorem statements_sound {site : Site} {ts : List Token} {ss : List Stmt}
    (read : statements site ts = .ok ss) : Forms (.statements ss) site.place ts [] := by
  rcases statements_eq_ok.mp read with ⟨rfl, rfl⟩ | ⟨t, us, s, mid, more, -, first, next, rfl⟩
  · exact .none
  · have shorter : mid.length < ts.length := first.within
    obtain ⟨used, rfl, formed⟩ := statement_sound first
    have rest := statements_sound next
    refine .more ?_ rest
    rw [List.append_nil]
    exact formed
termination_by ts.length
decreasing_by subst_vars; assumption

/-- The token at the end of a list is an end token. -/
theorem ending_kind (tokens : List Token) : (ending tokens).kind = .eof := by
  unfold ending
  cases found : tokens.find? (·.kind == .eof) with
  | none => rfl
  | some t =>
    have isEnd := List.find?_some found
    exact eq_of_beq isEnd

/-- What tokens spell is read from them. -/
theorem statements_of_derives (site : Site) (ending : site.ending.kind = .eof)
    (here : site.place = .top) {ts : List Token} {p : Program} (derived : Derives ts p) :
    statements site ts = .ok p := by
  have accepted :=
    (forms_accepted derived site ending here (.inr fun t head => by cases head)).2 rfl
  rwa [List.append_nil] at accepted

/-- A program is read from tokens exactly when the tokens before the end spell it. -/
theorem ofTokens_eq_ok_iff {tokens : List Token} {p : Program} :
    Program.ofTokens tokens = .ok p ↔ Derives (body tokens) p := by
  constructor
  · exact statements_sound
  · exact statements_of_derives (top tokens) (ending_kind tokens) rfl

/-- **The readers accept exactly the grammar, and what they return is the only derivation.** -/
theorem ofTokens_iff_derives (tokens : List Token) (p : Program) :
    (Program.ofTokens tokens = .ok p ↔ Derives (tokens.takeWhile (·.kind != .eof)) p) ∧
      (Derives (tokens.takeWhile (·.kind != .eof)) p →
        ∀ q, Derives (tokens.takeWhile (·.kind != .eof)) q → q = p) := by
  refine ⟨ofTokens_eq_ok_iff, fun first q second => ?_⟩
  have firstRead := ofTokens_eq_ok_iff.mpr first
  have secondRead := ofTokens_eq_ok_iff.mpr second
  rw [firstRead] at secondRead
  exact (Except.ok.inj secondRead).symm

/-- 云施甲以一加二、乙 prints a call, which takes both the operator and the separator; what stands
behind the end token is not looked at. -/
theorem ofTokens_iff_derives_call :
    let word (kind : TokenKind) (lexeme : String) (column : Int) : Token := ⟨kind, lexeme, 1, column⟩
    let tokens := [word .print "云" 1, word .apply "施" 2, word .identifier "甲" 3,
      word .taking "以" 4, word .number "一" 5, word .plus "加" 6, word .number "二" 7,
      word .comma "、" 8, word .identifier "乙" 9, word .eof "" 10, word .close "也" 11]
    let p : Program := [.print (word .print "云" 1)
      (.call (word .apply "施" 2) (word .identifier "甲" 3)
        [.binary (word .plus "加" 6) .add (.literal (word .number "一" 5) .number "1")
          (.literal (word .number "二" 7) .number "2"), .use (word .identifier "乙" 9) none] none)]
    Program.ofTokens tokens = .ok p ∧ Derives (tokens.takeWhile (·.kind != .eof)) p ∧
      ∀ q, Derives (tokens.takeWhile (·.kind != .eof)) q → q = p := by
  intro word tokens p
  have read : Program.ofTokens tokens = .ok p := by with_unfolding_all rfl
  have derived := (ofTokens_iff_derives tokens p).1.mp read
  exact ⟨read, derived, (ofTokens_iff_derives tokens p).2 derived⟩

end Grammar

end Guwen
