/-
**What can be gone on with.**

Tokens are a beginning if some tokens that start with them are spelt by the grammar wherever nothing
that belongs to an expression follows. A part that was spelt before some token is still spelt where
such a beginning is finished instead (`Spells.settled`, `Forms.settled`), so a beginning behind
finished parts is a beginning of the whole.

* `Begins` — the beginnings of whatever a relation spells.
* `begins_operand` to `begins_arguments` — beginnings of expressions.
* `begins_declareValue` to `begins_functionName` — beginnings of statements, by the part that is not
  finished.
-/
import Guwen.Proofs.Grammar.Printing
import Guwen.Proofs.Grammar.Succession

namespace Guwen

namespace Grammar

/-! ### Where nothing goes on -/

theorem NotNext.mono {kinds others : TokenKind → Bool} {after : List Token}
    (clear : NotNext others after) (among : ∀ kind, kinds kind = true → others kind = true) :
    NotNext kinds after := by
  intro t head
  refine Bool.eq_false_iff.mpr fun picked => ?_
  have := among t.kind picked
  rw [clear t head] at this
  cases this

/-- Nothing that can stand in an expression follows. -/
def Settled (after : List Token) : Prop := NotNext inExpression after

theorem Settled.nil : Settled [] := by
  intro t head
  cases head

theorem Settled.cons {t : Token} {kind : TokenKind} (is : t.kind = kind)
    (other : inExpression kind = false) (after : List Token) : Settled (t :: after) :=
  notNext_cons.mpr (is ▸ other)

section

variable {after : List Token}

theorem Settled.notExtends (settled : Settled after) : NotNext extendsArguments after :=
  NotNext.mono settled fun kind picked => by rw [inExpression, picked, Bool.or_true]

theorem Settled.notStarts (settled : Settled after) : NotNext startsExpression after :=
  NotNext.mono settled fun kind picked => by rw [inExpression, picked, Bool.true_or]

theorem Settled.notOpens (settled : Settled after) : NotNext opensArguments after :=
  NotNext.mono settled fun kind picked => by
    rcases opensArguments_iff.mp picked with rfl | rfl <;> rfl

end

/-- **What was spelt before some token is spelt where nothing goes on.** -/
theorem Spells.settled {phrase : Phrase} {ts after other : List Token}
    (spelt : Spells phrase ts after) (settled : Settled other) : Spells phrase ts other := by
  induction spelt with
  | arabic number arabic => exact .arabic number arabic
  | glyphs number glyph together reads => exact .glyphs number glyph together reads
  | string string => exact .string string
  | name name => exact .name name
  | bareCall keyword called _ => exact .bareCall keyword called settled.notOpens
  | call keyword called opens _ values => exact .call keyword called opens values
  | lastArgument _ _ value => exact .lastArgument value settled.notExtends
  | argument value separates _ _ more => exact .argument (value.ofHead rfl) separates more
  | operandTerm _ operand => exact .operandTerm operand
  | product factor operator level _ _ operand =>
    exact .product (factor.ofHead rfl) operator level operand
  | termSum _ term => exact .termSum term
  | sum summand operator level _ _ term => exact .sum (summand.ofHead rfl) operator level term
  | sumExpression _ sum => exact .sumExpression sum
  | comparison compared operator level _ _ sum =>
    exact .comparison (compared.ofHead rfl) operator level sum

theorem SpellsElements.settled {es : List Expr} {ts after other : List Token}
    (spelt : SpellsElements es ts after) (settled : Settled other) :
    SpellsElements es ts other := by
  induction spelt with
  | last value => exact .last (value.settled settled)
  | more value comma _ rest => exact .more (value.ofHead rfl) comma rest

theorem SpellsInitial.settled {isList : Bool} {value : Option Expr} {ts after other : List Token}
    (spelt : SpellsInitial isList value ts after) (settled : Settled other) :
    SpellsInitial isList value ts other := by
  cases spelt with
  | absent => exact .absent
  | present keyword value =>
    refine .present keyword ?_
    cases value with
    | single value => exact .single (value.settled settled)
    | reference value reference => exact .reference (value.settled settled) reference
    | list values proper => exact .list (values.settled settled) proper

/-- An optional 也, then nothing that goes on. -/
theorem Settled.closing {closing after : List Token} (closes : Optional .close closing)
    (settled : Settled after) : Settled (closing ++ after) :=
  closes.notNext rfl settled

theorem Forms.settled {s : Stmt} {place : Place} {ts after other : List Token}
    (formed : Forms (.statement s) place ts after) (settled : Settled other) :
    Forms (.statement s) place ts other := by
  cases formed with
  | declare keyword isType named initial closes =>
    exact .declare keyword isType named (initial.ofHead rfl) closes
  | print keyword value closes =>
    exact .print keyword (value.settled (settled.closing closes)) closes
  | @conditional _ _ _ closing _ _ _ _ us marks vs after keyword condition is first otherwise second
      closes =>
    have next : (marks ++ (vs ++ closing :: other)).head? =
        (marks ++ (vs ++ closing :: after)).head? :=
      head?_append_congr marks (head?_append_congr vs rfl)
    exact .conditional keyword (condition.ofHead rfl) is (first.ofHead next) otherwise
      (second.ofHead rfl) closes
  | loop keyword inner closes => exact .loop keyword (inner.ofHead rfl) closes
  | function keyword named first params second inner closes =>
    obtain ⟨t, us, rfl, -⟩ := spellsEnd_head closes
    exact .function keyword named first params second (inner.ofHead rfl) closes
  | returnValue keyword inside value closes =>
    exact .returnValue keyword inside (value.settled (settled.closing closes)) closes
  | returnNothing keyword inside _ closes =>
    exact .returnNothing keyword inside (settled.closing closes).notStarts closes
  | breaks keyword inside closes => exact .breaks keyword inside closes
  | perform keyword call closes =>
    exact .perform keyword (call.settled (settled.closing closes)) closes
  | assign named is value closes =>
    exact .assign named is (value.settled (settled.closing closes)) closes

/-! ### Beginnings -/

/-- **The tokens begin something that is spelt,** wherever nothing goes on behind it. -/
def Begins {α : Type} (spells : α → List Token → List Token → Prop) (front : List Token) : Prop :=
  ∃ a ts, front <+: ts ∧ ∀ after, Settled after → spells a ts after

/-- The tokens begin an expression. -/
abbrev BeginsExpression : List Token → Prop := Begins fun e => Spells (.expression e)

/-- The tokens begin a name in quotes, with 曰 before it. -/
abbrev BeginsName : List Token → Prop := Begins fun name ts _ => SpellsName name ts

/-- The tokens begin parameters. -/
abbrev BeginsParams : List Token → Prop := Begins fun ps ts _ => SpellsParams ps ts

/-- The tokens begin a statement. -/
abbrev BeginsStatement (place : Place) : List Token → Prop :=
  Begins fun s => Forms (.statement s) place

/-- The tokens begin statements. -/
abbrev BeginsStatements (place : Place) : List Token → Prop :=
  Begins fun ss => Forms (.statements ss) place

/-- A name, to go on with where an operand or a callee is missing. -/
def anyName : Token := ⟨.identifier, "甲", .nowhere⟩

section Expressions

variable {front : List Token}

theorem begins_operand : Begins (fun e => Spells (.operand e)) [] :=
  ⟨_, [anyName], List.nil_prefix, fun _ _ => .name rfl⟩

theorem begins_callee {k : Token} (keyword : k.kind = .apply) :
    Begins (fun e => Spells (.operand e)) [k] :=
  ⟨_, [k, anyName], ⟨[anyName], rfl⟩,
    fun _ settled => .bareCall keyword (.inl rfl) settled.notOpens⟩

theorem begins_call {k callee mark : Token} (keyword : k.kind = .apply)
    (called : callee.kind = .identifier ∨ callee.kind = .string)
    (opens : opensArguments mark.kind = true)
    (values : Begins (fun es => Spells (.arguments es)) front) :
    Begins (fun e => Spells (.operand e)) (k :: callee :: mark :: front) := by
  obtain ⟨es, ts, begun, spelt⟩ := values
  refine ⟨_, k :: callee :: mark :: ts, ?_, fun after settled =>
    .call keyword called opens (spelt after settled)⟩
  simpa [List.cons_prefix_cons] using begun

/-- The tokens string together a chain of operands. -/
def SpellsChain (c : Chain) : List Token → List Token → Prop :=
  Strung (fun e => Spells (.operand e)) (fun e => Spells (.operand e)) c.first c.links

theorem begins_chain (operand : Begins (fun e => Spells (.operand e)) front) :
    Begins SpellsChain front := by
  obtain ⟨e, ts, begun, spelt⟩ := operand
  exact ⟨⟨e, []⟩, ts, begun, spelt⟩

theorem begins_link {e : Expr} {t : Token} {op : Operator} {used rest : List Token}
    (first : Spells (.operand e) used (t :: rest)) (operator : Operator.ofKind? t.kind = some op)
    (more : Begins SpellsChain front) : Begins SpellsChain (used ++ t :: front) := by
  obtain ⟨c, ts, begun, strung⟩ := more
  refine ⟨⟨e, ⟨t, op, c.first⟩ :: c.links⟩, used ++ t :: ts, ?_, fun after settled =>
    ⟨used, ts, rfl, operator, first.ofHead rfl, strung after settled⟩⟩
  rw [List.prefix_append_right_inj, List.cons_prefix_cons]
  exact ⟨rfl, begun⟩

theorem begins_expression (chain : Begins SpellsChain front) :
    BeginsExpression front := by
  obtain ⟨c, ts, begun, strung⟩ := chain
  exact ⟨c.tree, ts, begun, fun after settled => spells_tree (strung after settled)⟩

theorem begins_lastArgument (value : Begins SpellsChain front) :
    Begins (fun es => Spells (.arguments es)) front := by
  obtain ⟨e, ts, begun, spelt⟩ := begins_expression value
  exact ⟨[e], ts, begun, fun after settled =>
    .lastArgument (spelt after settled) settled.notExtends⟩

theorem begins_argument {e : Expr} {mark : Token} {used rest : List Token}
    (first : Spells (.expression e) used (mark :: rest))
    (separates : separatesArguments mark.kind = true)
    (more : Begins (fun es => Spells (.arguments es)) front) :
    Begins (fun es => Spells (.arguments es)) (used ++ mark :: front) := by
  obtain ⟨es, ts, begun, spelt⟩ := more
  refine ⟨e :: es, used ++ mark :: ts, ?_, fun after settled =>
    .argument (first.ofHead rfl) separates (spelt after settled)⟩
  rw [List.prefix_append_right_inj, List.cons_prefix_cons]
  exact ⟨rfl, begun⟩

end Expressions

/-! ### Beginnings of names and values -/

/-- A name in quotes, to go on with where one is missing. -/
def anyString : Token := ⟨.string, "甲", .nowhere⟩

section Values

variable {front : List Token}

theorem Begins.shorten {α : Type} {spells : α → List Token → List Token → Prop}
    {shorter : List Token} (begins : Begins spells front) (within : shorter <+: front) :
    Begins spells shorter := by
  obtain ⟨a, ts, begun, spelt⟩ := begins
  exact ⟨a, ts, within.trans begun, spelt⟩

theorem begins_name {lead : List Token} {mark : Token} (optional : Optional .nameIt lead)
    (named : mark.kind = .named) :
    BeginsName (lead ++ [mark]) := by
  refine ⟨anyString, lead ++ [mark, anyString], ?_, fun _ _ =>
    ⟨lead, mark, optional, named, rfl, by decide, rfl⟩⟩
  rw [List.prefix_append_right_inj, List.cons_prefix_cons]
  exact ⟨rfl, List.nil_prefix⟩

theorem begins_lead {lead : List Token} (optional : Optional .nameIt lead) : BeginsName lead :=
  (begins_name optional (show (Token.keyword .named).kind = .named from rfl)).shorten
    (List.prefix_append lead _)

/-- An expression is the initial value of a variable, as it stands or as a list of one element. -/
theorem exists_spellsValue {e : Expr} {ts : List Token} (isList : Bool)
    (spelt : ∀ after, Settled after → Spells (.expression e) ts after) :
    ∃ e', ∀ after, Settled after → SpellsValue isList e' ts after := by
  cases isList with
  | false => exact ⟨e, fun after settled => .single (spelt after settled)⟩
  | true =>
    by_cases reference : isReference e = true
    · exact ⟨e, fun after settled => .reference (spelt after settled) reference⟩
    · obtain ⟨start, us, rfl, -⟩ := spells_head (spelt [] .nil)
      refine ⟨.list start [e], fun after settled => .list (.last (spelt after settled)) ?_⟩
      rintro e' ⟨⟩
      exact Bool.eq_false_iff.mpr reference

/-- Nothing, or further elements of a list behind 、. -/
def SpellsMore (isList : Bool) (es : List Expr) (ts after : List Token) : Prop :=
  (es = [] ∧ ts = []) ∨ (isList = true ∧ ∃ comma us, comma.kind = .comma ∧ ts = comma :: us ∧
    SpellsElements es us after)

theorem begins_element {comma : Token} (is : comma.kind = .comma)
    (value : BeginsExpression front) :
    Begins (SpellsMore true) (comma :: front) := by
  obtain ⟨e, ts, begun, spelt⟩ := value
  exact ⟨[e], comma :: ts, List.cons_prefix_cons.mpr ⟨rfl, begun⟩, fun after settled =>
    .inr ⟨rfl, comma, ts, is, rfl, .last (spelt after settled)⟩⟩

/-- What begins before the tokens that an expression left starts with the first of them. -/
theorem head_of_begun {t : Token} {us ts rest : List Token} (begun : t :: us <+: ts)
    (within : t :: us <+: rest) : ∃ vs ws, ts = t :: vs ∧ rest = t :: ws := by
  obtain ⟨vs, rfl⟩ := begun
  obtain ⟨ws, rfl⟩ := within
  exact ⟨us ++ vs, us ++ ws, rfl, rfl⟩

theorem begins_elements {comma : Token} {e : Expr} {used rest : List Token}
    (is : comma.kind = .comma) (first : Spells (.expression e) used rest)
    (more : Begins (SpellsMore true) front) (within : front <+: rest) :
    Begins (SpellsMore true) (comma :: (used ++ front)) := by
  cases front with
  | nil =>
    rw [List.append_nil]
    exact begins_element is
      ⟨e, used, List.prefix_refl used, fun after settled => first.settled settled⟩
  | cons t front =>
    obtain ⟨es, ts, begun, spelt⟩ := more
    obtain ⟨vs, ws, rfl, rfl⟩ := head_of_begun begun within
    refine ⟨e :: es, comma :: (used ++ t :: vs), ?_, fun after settled => ?_⟩
    · rw [List.cons_prefix_cons, List.prefix_append_right_inj]
      exact ⟨rfl, begun⟩
    · rcases spelt after settled with ⟨-, absurd⟩ | ⟨-, comma', us, is', same, elements⟩
      · cases absurd
      · cases same
        exact .inr ⟨rfl, comma, _, is, rfl, .more (first.ofHead rfl) is' elements⟩

theorem begins_value (isList : Bool) (value : BeginsExpression front) :
    Begins (SpellsValue isList) front := by
  obtain ⟨e, ts, begun, spelt⟩ := value
  obtain ⟨e', valued⟩ := exists_spellsValue isList spelt
  exact ⟨e', ts, begun, valued⟩

theorem begins_list {isList : Bool} {e : Expr} {used rest : List Token}
    (first : Spells (.expression e) used rest) (more : Begins (SpellsMore isList) front)
    (within : front <+: rest) : Begins (SpellsValue isList) (used ++ front) := by
  cases front with
  | nil =>
    rw [List.append_nil]
    exact begins_value isList
      ⟨e, used, List.prefix_refl used, fun after settled => first.settled settled⟩
  | cons t front =>
    obtain ⟨es, ts, begun, spelt⟩ := more
    obtain ⟨vs, ws, rfl, rfl⟩ := head_of_begun begun within
    obtain ⟨start, us, rfl, -⟩ := spells_head first
    refine ⟨.list start (e :: es), start :: us ++ t :: vs,
      (List.prefix_append_right_inj (start :: us)).mpr begun, fun after settled => ?_⟩
    rcases spelt after settled with ⟨-, absurd⟩ | ⟨rfl, comma, us', is, same, elements⟩
    · cases absurd
    · cases same
      refine .list (.more (first.ofHead rfl) is elements) ?_
      rintro e' ⟨⟩
      cases elements

theorem begins_initial {isList : Bool} {k : Token} (keyword : k.kind = .value)
    (value : Begins (SpellsValue isList) front) : Begins (SpellsInitial isList) (k :: front) := by
  obtain ⟨e, ts, begun, spelt⟩ := value
  exact ⟨some e, k :: ts, List.cons_prefix_cons.mpr ⟨rfl, begun⟩, fun after settled =>
    .present keyword (spelt after settled)⟩

end Values

/-! ### Beginnings of parameters -/

/-- The parameters of a function, with 欲行是術 before and behind them or not. -/
def SpellsHeading (ps : List Param) (ts : List Token) : Prop :=
  ∃ before sig behind, ts = before ++ (sig ++ behind) ∧ Optional .invoke before ∧
    SpellsSignature ps sig ∧ Optional .invoke behind

section Parameters

variable {front : List Token}

theorem begins_param {type : Token} (isType : type.kind.isType = true)
    (named : BeginsName front) :
    BeginsParams (type :: front) := by
  obtain ⟨name, ts, begun, spelt⟩ := named
  refine ⟨[⟨type, name⟩], type :: (ts ++ []), ?_, fun after settled =>
    .last isType (spelt after settled) (.inl rfl)⟩
  rw [List.append_nil, List.cons_prefix_cons]
  exact ⟨rfl, begun⟩

theorem begins_params {type name : Token} {ns comma : List Token}
    (isType : type.kind.isType = true) (named : SpellsName name ns)
    (optional : Optional .comma comma) (more : BeginsParams front) :
    BeginsParams (type :: (ns ++ comma ++ front)) := by
  obtain ⟨ps, ts, begun, spelt⟩ := more
  refine ⟨⟨type, name⟩ :: ps, type :: (ns ++ comma ++ ts), ?_, fun after settled =>
    .more isType named optional (spelt after settled)⟩
  rw [List.cons_prefix_cons, List.prefix_append_right_inj]
  exact ⟨rfl, begun⟩

theorem begins_heading {before : List Token} {k : Token} (optional : Optional .invoke before)
    (keyword : k.kind = .params) (params : BeginsParams front) :
    Begins (fun ps ts _ => SpellsHeading ps ts) (before ++ k :: front) := by
  obtain ⟨ps, ts, begun, spelt⟩ := params
  refine ⟨ps, before ++ k :: ts, ?_, fun after settled =>
    ⟨before, k :: ts, [], ?_, optional, .present keyword (spelt after settled), .inl rfl⟩⟩
  · rw [List.prefix_append_right_inj, List.cons_prefix_cons]
    exact ⟨rfl, begun⟩
  · rw [List.append_nil]

end Parameters

/-! ### Beginnings of statements -/

section Statements

variable {place : Place} {k : Token} {front : List Token}

theorem begins_of_forms {s : Stmt} {used rest : List Token}
    (formed : Forms (.statement s) place used rest) : BeginsStatement place used :=
  ⟨s, used, List.prefix_refl used, fun _ settled => formed.settled settled⟩

theorem begins_of_spells {e : Expr} {used rest : List Token}
    (spelt : Spells (.expression e) used rest) : BeginsExpression used :=
  ⟨e, used, List.prefix_refl used, fun _ settled => spelt.settled settled⟩

theorem begins_declareValue {type name : Token} {ns : List Token} (keyword : k.kind = .declare)
    (isType : type.kind.isType = true) (named : SpellsName name ns)
    (initial : Begins (SpellsInitial (type.kind == .listType)) front) :
    BeginsStatement place (k :: type :: (ns ++ front)) := by
  obtain ⟨value, us, begun, spelt⟩ := initial
  have closed (after : List Token) : Settled (.keyword .close :: after) := .cons rfl rfl after
  refine ⟨.declare k type name value, k :: type :: (ns ++ (us ++ [.keyword .close])), ?_,
    fun after _ => .declare keyword isType named (spelt _ (closed after)) rfl⟩
  rw [List.cons_prefix_cons, List.cons_prefix_cons, List.prefix_append_right_inj]
  exact ⟨rfl, rfl, begun.trans (List.prefix_append us _)⟩

theorem begins_declareName {type : Token} (keyword : k.kind = .declare)
    (isType : type.kind.isType = true) (named : BeginsName front) :
    BeginsStatement place (k :: type :: front) := by
  obtain ⟨name, ns, begun, spelt⟩ := named
  have whole : BeginsStatement place _ := begins_declareValue keyword isType (spelt [] .nil)
    ⟨none, [], List.nil_prefix, fun after _ => .absent⟩
  refine whole.shorten ?_
  rw [List.append_nil, List.cons_prefix_cons, List.cons_prefix_cons]
  exact ⟨rfl, rfl, begun⟩

theorem begins_print (keyword : k.kind = .print) (value : BeginsExpression front) :
    BeginsStatement place (k :: front) := by
  obtain ⟨e, ts, begun, spelt⟩ := value
  refine ⟨.print k e, k :: (ts ++ []), ?_, fun after settled =>
    .print keyword (spelt after settled) (.inl rfl)⟩
  rw [List.append_nil, List.cons_prefix_cons]
  exact ⟨rfl, begun⟩

theorem begins_returnValue (keyword : k.kind = .returns) (inside : place.inFunction = true)
    (value : BeginsExpression front) : BeginsStatement place (k :: front) := by
  obtain ⟨e, ts, begun, spelt⟩ := value
  refine ⟨.returns k (some e), k :: (ts ++ []), ?_, fun after settled =>
    .returnValue keyword inside (spelt after settled) (.inl rfl)⟩
  rw [List.append_nil, List.cons_prefix_cons]
  exact ⟨rfl, begun⟩

theorem begins_perform (keyword : k.kind = .apply)
    (call : Begins (fun e => Spells (.operand e)) (k :: front)) :
    BeginsStatement place (k :: front) := by
  obtain ⟨e, ts, ⟨us, rfl⟩, spelt⟩ := call
  refine ⟨.perform k e, k :: (front ++ us ++ []), ?_, fun after settled =>
    .perform keyword (spelt after settled) (.inl rfl)⟩
  rw [List.append_nil, List.cons_prefix_cons]
  exact ⟨rfl, List.prefix_append front us⟩

theorem begins_assign {name mark : Token} (named : name.kind = .identifier)
    (is : mark.kind = .value) (value : BeginsExpression front) :
    BeginsStatement place (name :: mark :: front) := by
  obtain ⟨e, ts, begun, spelt⟩ := value
  refine ⟨.assign name e, name :: mark :: (ts ++ []), ?_, fun after settled =>
    .assign named is (spelt after settled) (.inl rfl)⟩
  rw [List.append_nil, List.cons_prefix_cons, List.cons_prefix_cons]
  exact ⟨rfl, rfl, begun⟩

/-! ### Beginnings of blocks and of statements that hold them -/

theorem Forms.settledAll {ss : List Stmt} {ts after other : List Token}
    (formed : Forms (.statements ss) place ts after) (settled : Settled other) :
    Forms (.statements ss) place ts other := by
  induction ss generalizing ts with
  | nil =>
    cases formed
    exact .none
  | cons s ss ih =>
    cases formed with
    | @more _ _ _ _ us _ first rest =>
      refine .more ?_ (ih rest)
      cases us with
      | nil => exact first.settled settled
      | cons t us => exact first.ofHead rfl

theorem begins_statement (first : BeginsStatement place front) : BeginsStatements place front := by
  obtain ⟨s, ts, begun, formed⟩ := first
  refine ⟨[s], ts ++ [], ?_, fun after settled => .more (formed after settled) .none⟩
  rwa [List.append_nil]

theorem begins_statements {s : Stmt} {used rest : List Token}
    (first : Forms (.statement s) place used rest) (more : BeginsStatements place front)
    (within : front <+: rest) : BeginsStatements place (used ++ front) := by
  cases front with
  | nil =>
    rw [List.append_nil]
    exact begins_statement (begins_of_forms first)
  | cons t front =>
    obtain ⟨ss, ts, begun, formed⟩ := more
    obtain ⟨vs, ws, rfl, rfl⟩ := head_of_begun begun within
    exact ⟨s :: ss, used ++ t :: vs, (List.prefix_append_right_inj used).mpr begun,
      fun after settled => .more (first.ofHead rfl) (formed after settled)⟩

theorem begins_no {mark other : Token} {e : Expr} {yes : List Stmt} {ts us rest rest' : List Token}
    (keyword : k.kind = .whether) (condition : Spells (.expression e) ts rest)
    (is : mark.kind = .thereupon) (first : Forms (.statements yes) place us rest')
    (otherwise : other.kind = .otherwise) (second : BeginsStatements place front) :
    BeginsStatement place (k :: (ts ++ mark :: (us ++ other :: front))) := by
  obtain ⟨no, vs, begun, formed⟩ := second
  have settledMark (after : List Token) : Settled (mark :: after) := .cons is rfl after
  have settledElse (after : List Token) : Settled ([other] ++ after) := .cons otherwise rfl after
  have settledEnd (after : List Token) : Settled (.keyword .blockEnd :: after) :=
    .cons rfl rfl after
  refine ⟨.conditional k e yes no,
    k :: (ts ++ mark :: (us ++ ([other] ++ (vs ++ [.keyword .blockEnd])))), ?_, fun after _ =>
    .conditional keyword (condition.settled (settledMark _)) is (first.settledAll (settledElse _))
      (.inr ⟨other, otherwise, rfl⟩) (formed _ (settledEnd after)) rfl⟩
  rw [List.cons_prefix_cons, List.prefix_append_right_inj, List.cons_prefix_cons,
    List.prefix_append_right_inj, List.singleton_append, List.cons_prefix_cons]
  exact ⟨rfl, rfl, rfl, begun.trans (List.prefix_append vs _)⟩

theorem begins_yes {mark : Token} {e : Expr} {ts rest : List Token} (keyword : k.kind = .whether)
    (condition : Spells (.expression e) ts rest) (is : mark.kind = .thereupon)
    (first : BeginsStatements place front) :
    BeginsStatement place (k :: (ts ++ mark :: front)) := by
  obtain ⟨yes, us, begun, formed⟩ := first
  have whole : BeginsStatement place (k :: (ts ++ mark :: (us ++ [.keyword .otherwise]))) :=
    begins_no keyword condition is (formed [] .nil) rfl
      ⟨[], [], List.nil_prefix, fun after _ => .none⟩
  refine whole.shorten ?_
  rw [List.cons_prefix_cons, List.prefix_append_right_inj, List.cons_prefix_cons]
  exact ⟨rfl, rfl, begun.trans (List.prefix_append us _)⟩

theorem begins_condition (keyword : k.kind = .whether) (condition : BeginsExpression front) :
    BeginsStatement place (k :: front) := by
  obtain ⟨e, ts, begun, spelt⟩ := condition
  have whole : BeginsStatement place (k :: (ts ++ [.keyword .thereupon])) :=
    begins_yes keyword (spelt [] .nil) rfl ⟨[], [], List.nil_prefix, fun after _ => .none⟩
  refine whole.shorten ?_
  rw [List.cons_prefix_cons]
  exact ⟨rfl, begun.trans (List.prefix_append ts _)⟩

theorem begins_loop (keyword : k.kind = .loop) (body : BeginsStatements place.insideLoop front) :
    BeginsStatement place (k :: front) := by
  obtain ⟨ss, ts, begun, formed⟩ := body
  have settledEnd (after : List Token) : Settled (.keyword .blockEnd :: after) :=
    .cons rfl rfl after
  refine ⟨.loop k ss, k :: (ts ++ [.keyword .blockEnd]), ?_, fun after _ =>
    .loop keyword (formed _ (settledEnd after)) rfl⟩
  rw [List.cons_prefix_cons]
  exact ⟨rfl, begun.trans (List.prefix_append ts _)⟩

theorem settled_of_spellsEnd {name : Token} {closing : List Token} (spelt : SpellsEnd name closing)
    (after : List Token) : Settled (closing ++ after) := by
  cases spelt with
  | plain closing => exact .cons closing rfl _
  | called keyword _ => exact .cons keyword rfl _
  | named keyword _ _ _ => exact .cons keyword rfl _

theorem begins_functionEnd {name : Token} {ps : List Param} {body : List Stmt}
    {ns hs ts rest : List Token} (keyword : k.kind = .function) (named : SpellsName name ns)
    (heading : SpellsHeading ps hs) (inner : Forms (.statements body) .insideFunction ts rest)
    (closes : Begins (fun (_ : Unit) us _ => SpellsEnd name us) front) :
    BeginsStatement place (k :: (ns ++ (hs ++ (ts ++ front)))) := by
  obtain ⟨_, closing, begun, spelt⟩ := closes
  have closed := spelt [] .nil
  obtain ⟨before, sig, behind, rfl, first, params, second⟩ := heading
  refine ⟨.function k name ps body,
    k :: (ns ++ (before ++ (sig ++ (behind ++ (ts ++ closing))))), ?_, fun after _ =>
    .function keyword named first params second
      (inner.settledAll (settled_of_spellsEnd closed after)) closed⟩
  simp only [List.append_assoc, List.cons_prefix_cons, List.prefix_append_right_inj, true_and]
  exact begun

theorem begins_body {name : Token} {ps : List Param} {ns hs : List Token}
    (keyword : k.kind = .function) (named : SpellsName name ns) (heading : SpellsHeading ps hs)
    (body : BeginsStatements .insideFunction front) :
    BeginsStatement place (k :: (ns ++ (hs ++ front))) := by
  obtain ⟨ss, ts, begun, formed⟩ := body
  have whole : BeginsStatement place _ := begins_functionEnd keyword named heading (formed [] .nil)
    ⟨(), [.keyword .functionEnd], List.nil_prefix, fun _ _ => .plain rfl⟩
  refine whole.shorten ?_
  simp only [List.cons_prefix_cons, List.prefix_append_right_inj, List.append_nil, true_and]
  exact begun

theorem begins_signature {name : Token} {ns : List Token} (keyword : k.kind = .function)
    (named : SpellsName name ns) (heading : Begins (fun ps ts _ => SpellsHeading ps ts) front) :
    BeginsStatement place (k :: (ns ++ front)) := by
  obtain ⟨ps, hs, begun, spelt⟩ := heading
  have whole : BeginsStatement place _ := begins_body keyword named (spelt [] .nil)
    ⟨[], [], List.nil_prefix, fun after _ => .none⟩
  refine whole.shorten ?_
  simp only [List.cons_prefix_cons, List.prefix_append_right_inj, List.append_nil, true_and]
  exact begun

theorem begins_functionName (keyword : k.kind = .function) (named : BeginsName front) :
    BeginsStatement place (k :: front) := by
  obtain ⟨name, ns, begun, spelt⟩ := named
  have whole : BeginsStatement place _ := begins_signature keyword (spelt [] .nil)
    ⟨[], [], List.nil_prefix, fun _ _ => ⟨[], [], [], rfl, .inl rfl, .absent, .inl rfl⟩⟩
  refine whole.shorten ?_
  rw [List.append_nil, List.cons_prefix_cons]
  exact ⟨rfl, begun⟩

end Statements

end Grammar

end Guwen
