/-
**The same tree over other tokens.**

`mapTokens f start` changes the tokens of a tree: those that start a literal or a list by `start`,
all others by `f`. The grammar looks at the kind and the lexeme of a token and, inside a numeral, at
whether two tokens touch. A change that keeps the three (`Keeps`) therefore keeps every derivation.

* `Spells.map`, `Forms.map` — what tokens spell and form, they do after the change, with the tree
  changed alike.
* **`derives_map_iff`** — when the change can be undone, the changed tokens spell nothing else.
-/
import Guwen.Proofs.Grammar.Acceptance

namespace Guwen

/-! ### Changing the tokens of a tree -/

section MapTokens

variable (f start : Token → Token)

mutual

/-- **The expression with its tokens changed.** -/
def Expr.mapTokens : Expr → Expr
  | .binary token op left right => .binary (f token) op left.mapTokens right.mapTokens
  | .literal first kind text => .literal (start first) kind text
  | .use name symbol => .use (f name) symbol
  | .call keyword callee arguments symbol =>
    .call (f keyword) (f callee) (exprsMapTokens arguments) symbol
  | .list first elements => .list (start first) (exprsMapTokens elements)
  | .missing => .missing

/-- Expressions with their tokens changed. -/
def exprsMapTokens : List Expr → List Expr
  | [] => []
  | e :: es => e.mapTokens :: exprsMapTokens es

end

/-- The parameter with its tokens changed. -/
def Param.mapTokens (p : Param) : Param := ⟨f p.type, f p.name⟩

mutual

/-- **The statement with its tokens changed.** -/
def Stmt.mapTokens : Stmt → Stmt
  | .declare keyword type name value =>
    .declare (f keyword) (f type) (f name) (value.map (Expr.mapTokens f start))
  | .param p => .param (p.mapTokens f)
  | .function keyword name params body =>
    .function (f keyword) (f name) (params.map (Param.mapTokens f)) (stmtsMapTokens body)
  | .conditional keyword condition yes no =>
    .conditional (f keyword) (condition.mapTokens f start) (stmtsMapTokens yes) (stmtsMapTokens no)
  | .loop keyword body => .loop (f keyword) (stmtsMapTokens body)
  | .print keyword value => .print (f keyword) (value.mapTokens f start)
  | .returns keyword value => .returns (f keyword) (value.map (Expr.mapTokens f start))
  | .assign name value => .assign (f name) (value.mapTokens f start)
  | .breaks keyword => .breaks (f keyword)
  | .perform keyword value => .perform (f keyword) (value.mapTokens f start)
  | .missing => .missing

/-- Statements with their tokens changed. -/
def stmtsMapTokens : List Stmt → List Stmt
  | [] => []
  | s :: ss => s.mapTokens :: stmtsMapTokens ss

end

theorem exprsMapTokens_eq_map (es : List Expr) :
    exprsMapTokens f start es = es.map (Expr.mapTokens f start) := by
  induction es with
  | nil => rfl
  | cons e es ih => exact congrArg _ ih

end MapTokens

namespace Grammar

section Derivations

/-- The phrase with its tokens changed. -/
def Phrase.mapTokens (f start : Token → Token) : Phrase → Phrase
  | operand e => operand (e.mapTokens f start)
  | term e => term (e.mapTokens f start)
  | sum e => sum (e.mapTokens f start)
  | expression e => expression (e.mapTokens f start)
  | arguments es => arguments (exprsMapTokens f start es)

/-- The clause with its tokens changed. -/
def Clause.mapTokens (f start : Token → Token) : Clause → Clause
  | statement s => statement (s.mapTokens f start)
  | statements ss => statements (stmtsMapTokens f start ss)

/-- **The change keeps all of a token that the grammar looks at.** -/
structure Keeps (f : Token → Token) : Prop where
  kind : ∀ t, (f t).kind = t.kind
  lexeme : ∀ t, (f t).lexeme = t.lexeme
  adjacent : ∀ a b, adjacent (f a) (f b) = adjacent a b

variable {f : Token → Token}

/-! ### Derivations over the changed tokens -/

theorem NotNext.map (keeps : Keeps f) {kinds : TokenKind → Bool} {after : List Token}
    (clear : NotNext kinds after) : NotNext kinds (after.map f) := by
  intro t head
  rw [List.head?_map] at head
  obtain ⟨u, first, rfl⟩ := Option.map_eq_some_iff.mp head
  rw [keeps.kind]
  exact clear u first

theorem Keeps.goesOn (keeps : Keeps f) {a b : Token} (goesOn : GoesOn a b) :
    GoesOn (f a) (f b) := by
  obtain ⟨number, glyph, touches⟩ := goesOn
  refine ⟨by rw [keeps.kind, number], ?_, by rw [keeps.adjacent, touches]⟩
  rw [isArabic, keeps.lexeme]
  exact glyph

theorem Keeps.flatMap_lexeme (keeps : Keeps f) (ts : List Token) :
    (ts.map f).flatMap Token.lexeme = ts.flatMap Token.lexeme := by
  rw [List.flatMap_map]
  exact congrArg (ts.flatMap ·) (funext keeps.lexeme)

theorem Spells.map (keeps : Keeps f) {phrase : Phrase} {ts after : List Token}
    (spelt : Spells phrase ts after) :
    Spells (phrase.mapTokens f f) (ts.map f) (after.map f) := by
  have called (callee : Token) (is : callee.kind = .identifier ∨ callee.kind = .string) :
      (f callee).kind = .identifier ∨ (f callee).kind = .string := by
    rwa [keeps.kind]
  have operator (t : Token) (op : Operator) (is : Operator.ofKind? t.kind = some op) :
      Operator.ofKind? (f t).kind = some op := by
    rwa [keeps.kind]
  induction spelt with
  | @arabic t after number arabic =>
    have spelt : Spells (.operand (.literal (f t) .number (f t).lexeme)) [f t] (after.map f) :=
      .arabic (by rwa [keeps.kind]) (by rwa [isArabic, keeps.lexeme])
    rwa [keeps.lexeme] at spelt
  | @glyphs t run after value number glyph together reads =>
    refine .glyphs (by rwa [keeps.kind]) (by rwa [isArabic, keeps.lexeme]) ?_ ?_
    · rw [← List.map_cons]
      exact List.isChain_map_of_isChain f (fun _ _ => keeps.goesOn) together
    · rwa [← List.map_cons, keeps.flatMap_lexeme]
  | @string t after string =>
    have spelt : Spells (.operand (.literal (f t) .string (f t).lexeme)) [f t] (after.map f) :=
      .string (by rwa [keeps.kind])
    rwa [keeps.lexeme] at spelt
  | name name => exact .name (by rwa [keeps.kind])
  | bareCall keyword is bare => exact .bareCall (by rwa [keeps.kind]) (called _ is) (bare.map keeps)
  | call keyword is opens _ values =>
    exact .call (by rwa [keeps.kind]) (called _ is) (by rwa [keeps.kind]) values
  | lastArgument _ last value => exact .lastArgument value (last.map keeps)
  | argument _ separates _ value more =>
    rw [List.map_append, List.map_cons]
    refine .argument ?_ (by rwa [keeps.kind]) more
    rwa [List.map_cons, List.map_append] at value
  | operandTerm _ operand => exact .operandTerm operand
  | product _ is level _ factor operand =>
    rw [List.map_append, List.map_cons]
    refine .product ?_ (operator _ _ is) level operand
    rwa [List.map_cons, List.map_append] at factor
  | termSum _ term => exact .termSum term
  | sum _ is level _ summand term =>
    rw [List.map_append, List.map_cons]
    refine .sum ?_ (operator _ _ is) level term
    rwa [List.map_cons, List.map_append] at summand
  | sumExpression _ sum => exact .sumExpression sum
  | comparison _ is level _ compared sum =>
    rw [List.map_append, List.map_cons]
    refine .comparison ?_ (operator _ _ is) level sum
    rwa [List.map_cons, List.map_append] at compared

theorem Optional.map (keeps : Keeps f) {kind : TokenKind} {ts : List Token}
    (optional : Optional kind ts) : Optional kind (ts.map f) := by
  rcases optional with rfl | ⟨t, is, rfl⟩
  · exact .inl rfl
  · exact .inr ⟨f t, by rwa [keeps.kind], rfl⟩

theorem SpellsName.map (keeps : Keeps f) {name : Token} {ts : List Token}
    (spelt : SpellsName name ts) : SpellsName (f name) (ts.map f) := by
  obtain ⟨lead, mark, optional, named, string, shown, rfl⟩ := spelt
  refine ⟨lead.map f, f mark, optional.map keeps, by rwa [keeps.kind], by rwa [keeps.kind],
    by rwa [keeps.lexeme], ?_⟩
  rw [List.map_append]
  rfl

theorem SpellsElements.map (keeps : Keeps f) {es : List Expr} {ts after : List Token}
    (spelt : SpellsElements es ts after) :
    SpellsElements (exprsMapTokens f f es) (ts.map f) (after.map f) := by
  induction spelt with
  | last value => exact .last (value.map keeps)
  | more value is _ ih =>
    rw [List.map_append, List.map_cons]
    refine .more ?_ (by rwa [keeps.kind]) ih
    have spelt := value.map keeps
    rwa [List.map_cons, List.map_append] at spelt

theorem isReference_mapTokens (f start : Token → Token) (e : Expr) :
    isReference (e.mapTokens f start) = isReference e := by
  cases e <;> rfl

theorem SpellsValue.map (keeps : Keeps f) {isList : Bool} {e : Expr} {ts after : List Token}
    (spelt : SpellsValue isList e ts after) :
    SpellsValue isList (e.mapTokens f f) (ts.map f) (after.map f) := by
  cases spelt with
  | single value => exact .single (value.map keeps)
  | reference value reference =>
    exact .reference (value.map keeps) (by rwa [isReference_mapTokens])
  | @list es first ts _ values proper =>
    refine .list (values.map keeps) fun e only => ?_
    rw [exprsMapTokens_eq_map, List.map_eq_singleton_iff] at only
    obtain ⟨e, rfl, rfl⟩ := only
    rw [isReference_mapTokens]
    exact proper e rfl

theorem SpellsInitial.map (keeps : Keeps f) {isList : Bool} {value : Option Expr}
    {ts after : List Token} (spelt : SpellsInitial isList value ts after) :
    SpellsInitial isList (value.map (Expr.mapTokens f f)) (ts.map f) (after.map f) := by
  cases spelt with
  | absent => exact .absent
  | present keyword value => exact .present (by rwa [keeps.kind]) (value.map keeps)

theorem SpellsParams.map (keeps : Keeps f) {ps : List Param} {ts : List Token}
    (spelt : SpellsParams ps ts) : SpellsParams (ps.map (Param.mapTokens f)) (ts.map f) := by
  induction spelt with
  | last isType named closed =>
    simp only [List.map_cons, List.map_append]
    exact .last (by rwa [keeps.kind]) (named.map keeps) (closed.map keeps)
  | more isType named closed _ ih =>
    simp only [List.map_cons, List.map_append]
    exact .more (by rwa [keeps.kind]) (named.map keeps) (closed.map keeps) ih

theorem SpellsSignature.map (keeps : Keeps f) {ps : List Param} {ts : List Token}
    (spelt : SpellsSignature ps ts) :
    SpellsSignature (ps.map (Param.mapTokens f)) (ts.map f) := by
  cases spelt with
  | absent => exact .absent
  | present keyword params => exact .present (by rwa [keeps.kind]) (params.map keeps)

theorem SpellsEnd.map (keeps : Keeps f) {name : Token} {ts : List Token}
    (spelt : SpellsEnd name ts) : SpellsEnd (f name) (ts.map f) := by
  cases spelt with
  | plain closing => exact .plain (by rwa [keeps.kind])
  | called keyword closing => exact .called (by rwa [keeps.kind]) (by rwa [keeps.kind])
  | named keyword string same closing =>
    exact .named (by rwa [keeps.kind]) (by rwa [keeps.kind])
      (by rwa [keeps.lexeme, keeps.lexeme]) (by rwa [keeps.kind])

theorem elseMark.map (keeps : Keeps f) {marks : List Token} {no : List Stmt}
    (otherwise : elseMark marks no) : elseMark (marks.map f) (stmtsMapTokens f f no) := by
  rcases otherwise with ⟨rfl, rfl⟩ | ⟨k, is, rfl⟩
  · exact .inl ⟨rfl, rfl⟩
  · exact .inr ⟨f k, by rwa [keeps.kind], rfl⟩

theorem Forms.map (keeps : Keeps f) {clause : Clause} {place : Place} {ts after : List Token}
    (formed : Forms clause place ts after) :
    Forms (clause.mapTokens f f) place (ts.map f) (after.map f) := by
  induction formed with
  | @declare place k type name closing value ts us after keyword isType named initial closes =>
    simp only [List.map_cons, List.map_append, List.map_nil]
    refine .declare (by rwa [keeps.kind]) (by rwa [keeps.kind]) (named.map keeps) ?_
      (by rwa [keeps.kind])
    rw [keeps.kind]
    exact initial.map keeps
  | print keyword value closes =>
    simp only [List.map_cons, List.map_append]
    refine .print (by rwa [keeps.kind]) ?_ (closes.map keeps)
    rw [← List.map_append]
    exact value.map keeps
  | conditional keyword condition is _ otherwise _ closes ihFirst ihSecond =>
    have value := condition.map keeps
    simp only [List.map_cons, List.map_append] at value ihFirst
    simp only [List.map_cons, List.map_append, List.map_nil]
    exact .conditional (by rwa [keeps.kind]) value (by rwa [keeps.kind]) ihFirst
      (otherwise.map keeps) ihSecond (by rwa [keeps.kind])
  | loop keyword _ closes ih =>
    simp only [List.map_cons, List.map_append, List.map_nil]
    exact .loop (by rwa [keeps.kind]) ih (by rwa [keeps.kind])
  | function keyword named first params second _ closes ih =>
    simp only [List.map_cons, List.map_append] at ih ⊢
    exact .function (by rwa [keeps.kind]) (named.map keeps) (first.map keeps) (params.map keeps)
      (second.map keeps) ih (closes.map keeps)
  | returnValue keyword inside value closes =>
    simp only [List.map_cons, List.map_append]
    refine .returnValue (by rwa [keeps.kind]) inside ?_ (closes.map keeps)
    rw [← List.map_append]
    exact value.map keeps
  | returnNothing keyword inside nothing closes =>
    refine .returnNothing (by rwa [keeps.kind]) inside ?_ (closes.map keeps)
    rw [← List.map_append]
    exact nothing.map keeps
  | breaks keyword inside closes =>
    exact .breaks (by rwa [keeps.kind]) inside (closes.map keeps)
  | perform keyword call closes =>
    simp only [List.map_cons, List.map_append]
    refine .perform (by rwa [keeps.kind]) ?_ (closes.map keeps)
    rw [← List.map_append]
    exact call.map keeps
  | assign named is value closes =>
    simp only [List.map_cons, List.map_append]
    refine .assign (by rwa [keeps.kind]) (by rwa [keeps.kind]) ?_ (closes.map keeps)
    rw [← List.map_append]
    exact value.map keeps
  | none => exact .none
  | more _ _ ihFirst ihRest =>
    rw [List.map_append] at ihFirst ⊢
    exact .more ihFirst ihRest

end Derivations

/-! ### A change that can be undone -/

/-- Tokens spell at most one program. -/
theorem Derives.unique {ts : List Token} {p q : Program} (first : Derives ts p)
    (second : Derives ts q) : p = q := by
  have same := statements_of_derives (top []) (ending_kind []) rfl first
  rw [statements_of_derives (top []) (ending_kind []) rfl second] at same
  exact (Except.ok.inj same).symm

/-- **The changed tokens spell the changed program, and no other.** -/
theorem derives_map_iff {f back : Token → Token} (keeps : Keeps f) (keepsBack : Keeps back)
    (undone : ∀ t, back (f t) = t) {ts : List Token} {q : Program} :
    Derives (ts.map f) q ↔ ∃ p, Derives ts p ∧ q = stmtsMapTokens f f p := by
  constructor
  · intro derived
    have original : Derives ts (stmtsMapTokens back back q) := by
      have mapped : Derives ((ts.map f).map back) _ := derived.map keepsBack
      have same : back ∘ f = id := funext undone
      rwa [List.map_map, same, List.map_id] at mapped
    exact ⟨_, original, derived.unique (original.map keeps)⟩
  · rintro ⟨p, derived, rfl⟩
    exact derived.map keeps

end Grammar

end Guwen
