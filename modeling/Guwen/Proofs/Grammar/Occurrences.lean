/-
**The expressions that occur in a program.**

* `Expr.Holds`, `Program.Holds` — an expression occurs in another one, or somewhere in a program.
* `Expr.Holds.inherits` — what occurs in an expression shares what is known of the whole.
* **`genuine_of_spells`** — what was read has the tokens that its form asks for.
* `spelt_of_forms` — every outermost expression of a clause is spelt by some of its tokens.
* **`sound_of_ofSource`** — so the expressions of a program are legible and genuine, and stay so
  when names are resolved.
-/
import Guwen.Proofs.Code.Outline
import Guwen.Proofs.Grammar.Provenance
import Guwen.Proofs.Grammar.RoundTrip

namespace Guwen

/-! ### Occurrences -/

/-- **An expression occurs in another one.** -/
inductive Expr.Holds : Expr → Expr → Prop where
  | self (e : Expr) : Holds e e
  | left {token : Token} {op : Operator} {left right part : Expr} (inside : Holds left part) :
      Holds (.binary token op left right) part
  | right {token : Token} {op : Operator} {left right part : Expr} (inside : Holds right part) :
      Holds (.binary token op left right) part
  | argument {keyword callee : Token} {arguments : List Expr} {mark : Option Symbol}
      {argument part : Expr} (member : argument ∈ arguments) (inside : Holds argument part) :
      Holds (.call keyword callee arguments mark) part
  | element {first : Token} {elements : List Expr} {element part : Expr}
      (member : element ∈ elements) (inside : Holds element part) :
      Holds (.list first elements) part

mutual

/-- The outermost expressions of a statement. -/
def Stmt.exprs : Stmt → List Expr
  | .declare _ _ _ value | .returns _ value => value.toList
  | .function _ _ _ body | .loop _ body => stmtExprs body
  | .conditional _ condition yes no => condition :: (stmtExprs yes ++ stmtExprs no)
  | .print _ value | .assign _ value | .perform _ value => [value]
  | .param _ | .breaks _ | .missing => []

/-- The outermost expressions of statements. -/
def stmtExprs : List Stmt → List Expr
  | [] => []
  | s :: ss => s.exprs ++ stmtExprs ss

end

/-- **An expression occurs in a program.** -/
def Program.Holds (p : Program) (e : Expr) : Prop := ∃ whole ∈ stmtExprs p, whole.Holds e

/-! ### What occurs shares what is known of the whole -/

theorem legible_of_mem {es : List Expr} (legible : exprsLegible es) : ∀ e ∈ es, e.Legible := by
  induction es with
  | nil => exact fun _ member => absurd member List.not_mem_nil
  | cons first es ih =>
    rintro e (_ | ⟨_, later⟩)
    · exact legible.1
    · exact ih legible.2 e later

theorem genuine_of_mem {es : List Expr} (genuine : exprsGenuine es) : ∀ e ∈ es, e.Genuine := by
  induction es with
  | nil => exact fun _ member => absurd member List.not_mem_nil
  | cons first es ih =>
    rintro e (_ | ⟨_, later⟩)
    · exact genuine.1
    · exact ih genuine.2 e later

theorem mem_exprActs {es : List Expr} {e : Expr} (member : e ∈ es) :
    ∀ act ∈ e.acts, act ∈ exprActs es := by
  induction es with
  | nil => exact absurd member List.not_mem_nil
  | cons first es ih =>
    intro act inside
    rcases List.mem_cons.mp member with rfl | later
    · exact List.mem_append_left _ inside
    · exact List.mem_append_right _ (ih later act inside)

/-- **What occurs in an expression shares what is known of the whole.** -/
theorem Expr.Holds.inherits {whole part : Expr} (holds : whole.Holds part) :
    (whole.Legible → part.Legible) ∧ (whole.Genuine → part.Genuine) ∧
      ∀ act ∈ part.acts, act ∈ whole.acts := by
  induction holds with
  | self e => exact ⟨id, id, fun _ => id⟩
  | left _ ih =>
    obtain ⟨legible, genuine, acts⟩ := ih
    exact ⟨fun whole => legible whole.2.1, fun whole => genuine whole.2.1,
      fun act inside => List.mem_append_left _ (acts act inside)⟩
  | right _ ih =>
    obtain ⟨legible, genuine, acts⟩ := ih
    exact ⟨fun whole => legible whole.2.2, fun whole => genuine whole.2.2,
      fun act inside => List.mem_append_right _ (acts act inside)⟩
  | argument member _ ih =>
    obtain ⟨legible, genuine, acts⟩ := ih
    exact ⟨fun whole => legible (legible_of_mem whole _ member),
      fun whole => genuine (genuine_of_mem whole.2 _ member),
      fun act inside => List.mem_cons_of_mem _ (mem_exprActs member act (acts act inside))⟩
  | element member _ ih =>
    obtain ⟨legible, genuine, acts⟩ := ih
    exact ⟨fun whole => legible (legible_of_mem whole _ member),
      fun whole => genuine (genuine_of_mem whole.2 _ member),
      fun act inside => mem_exprActs member act (acts act inside)⟩

theorem mem_optionActs {value : Option Expr} {e : Expr} (member : e ∈ value.toList) :
    ∀ act ∈ e.acts, act ∈ optionActs value := by
  rw [Option.mem_toList] at member
  rw [member]
  exact fun _ => id

theorem mem_blockActs {acts : List Act} {act : Act} (inside : act ∈ acts) : act ∈ blockActs acts :=
  List.mem_append_left _ (List.mem_cons_of_mem _ inside)

mutual

/-- The acts of the outermost expressions are acts of the statement. -/
theorem Stmt.mem_acts : ∀ s : Stmt, ∀ e ∈ s.exprs, ∀ act ∈ e.acts, act ∈ s.acts
  | .declare .., _, member, act, inside =>
    List.mem_append_left _ (mem_optionActs member act inside)
  | .returns .., _, member, act, inside => mem_optionActs member act inside
  | .function _ _ _ body, e, member, act, inside =>
    List.mem_cons_of_mem _ (mem_blockActs
      (List.mem_append_right _ (mem_stmtActs body e member act inside)))
  | .loop _ body, e, member, act, inside => mem_blockActs (mem_stmtActs body e member act inside)
  | .conditional _ condition yes no, e, member, act, inside => by
    rcases List.mem_cons.mp member with rfl | branch
    · exact List.mem_append_left _ inside
    · refine List.mem_append_right _ (List.mem_append.mpr ?_)
      rcases List.mem_append.mp branch with first | second
      · exact .inl (mem_blockActs (mem_stmtActs yes e first act inside))
      · exact .inr (mem_blockActs (mem_stmtActs no e second act inside))
  | .print .., e, member, act, inside | .perform .., e, member, act, inside =>
    List.mem_singleton.mp member ▸ inside
  | .assign .., e, member, act, inside =>
    List.mem_cons_of_mem _ (List.mem_singleton.mp member ▸ inside)
  | .param _, _, member, _, _ | .breaks _, _, member, _, _ | .missing, _, member, _, _ =>
    absurd member List.not_mem_nil

theorem mem_stmtActs : ∀ ss : List Stmt, ∀ e ∈ stmtExprs ss, ∀ act ∈ e.acts, act ∈ stmtActs ss
  | [], _, member, _, _ => absurd member List.not_mem_nil
  | s :: ss, e, member, act, inside =>
    List.mem_append.mpr ((List.mem_append.mp member).imp
      (fun here => s.mem_acts e here act inside)
      (fun later => mem_stmtActs ss e later act inside))

end

theorem Program.Holds.mem_acts {p : Program} {e : Expr} (holds : p.Holds e) :
    ∀ act ∈ e.acts, act ∈ stmtActs p := by
  obtain ⟨whole, member, inside⟩ := holds
  intro act here
  exact mem_stmtActs p whole member act (inside.inherits.2.2 act here)

/-! ### Without marks -/

theorem Expr.start?_bare (e : Expr) : e.bare.start? = e.start? := by
  cases e with
  | binary _ _ left _ => exact left.start?_bare
  | _ => rfl

theorem start?_bareExprs (es : List Expr) :
    (bareExprs es).head?.bind Expr.start? = es.head?.bind Expr.start? := by
  cases es with
  | nil => rfl
  | cons e es => exact e.start?_bare

mutual

theorem Expr.genuine_bare : ∀ e : Expr, e.bare.Genuine = e.Genuine
  | .binary _ _ left right => by
    rw [Expr.bare, Expr.Genuine, left.genuine_bare, right.genuine_bare, Expr.Genuine]
  | .literal .. => rfl
  | .use .. => rfl
  | .call _ _ arguments _ => by
    rw [Expr.bare, Expr.Genuine, exprsGenuine_bare arguments, Expr.Genuine]
  | .list _ elements => by
    rw [Expr.bare, Expr.Genuine, exprsGenuine_bare elements, start?_bareExprs, Expr.Genuine]
  | .missing => rfl

theorem exprsGenuine_bare : ∀ es : List Expr, exprsGenuine (bareExprs es) = exprsGenuine es
  | [] => rfl
  | e :: es => by
    rw [bareExprs, exprsGenuine, e.genuine_bare, exprsGenuine_bare es, exprsGenuine]

end

mutual

theorem Stmt.exprs_bare : ∀ s : Stmt, s.bare.exprs = s.exprs.map Expr.bare
  | .declare _ _ _ value | .returns _ value => Option.toList_map
  | .function _ _ _ body | .loop _ body => stmtExprs_bare body
  | .conditional _ condition yes no => by
    rw [Stmt.bare, Stmt.exprs, stmtExprs_bare yes, stmtExprs_bare no, Stmt.exprs, List.map_cons,
      List.map_append]
  | .print .. | .assign .. | .perform .. | .param _ | .breaks _ | .missing => rfl

theorem stmtExprs_bare : ∀ ss : List Stmt, stmtExprs (bareStmts ss) = (stmtExprs ss).map Expr.bare
  | [] => rfl
  | s :: ss => by
    rw [bareStmts, stmtExprs, s.exprs_bare, stmtExprs_bare ss, stmtExprs, List.map_append]

end

/-! ### The tokens of what was read -/

/-- A proper token is spelt as its kind asks. -/
theorem Token.Proper.spelt {t : Token} (proper : t.Proper) : t.Spelt := by
  obtain ⟨cs, same, form | ⟨string, inside⟩⟩ := proper
  · exact ⟨cs, form.spelling, same⟩
  · exact ⟨cs, string ▸ .quoted inside, same⟩

namespace Grammar

/-- The token that a phrase starts with, without its place. -/
def Phrase.start? : Phrase → Option Token
  | operand e | term e | sum e | expression e => e.start?
  | arguments es => es.head?.bind Expr.start?

/-- **A phrase starts with its first token.** -/
theorem Spells.starts {phrase : Phrase} {ts after : List Token} (spelt : Spells phrase ts after) :
    ∃ t ∈ ts.head?, phrase.start? = some t.unplacedStart := by
  induction spelt with
  | arabic | glyphs | string | name | bareCall | call => exact ⟨_, rfl, rfl⟩
  | lastArgument _ _ ih | operandTerm _ ih | termSum _ ih | sumExpression _ ih => exact ih
  | argument _ _ _ ih | product _ _ _ _ ih | sum _ _ _ _ ih | comparison _ _ _ _ ih =>
    obtain ⟨t, first, same⟩ := ih
    exact ⟨t, List.mem_head?_append_of_mem_head? first, same⟩

theorem SpellsElements.starts {es : List Expr} {ts after : List Token}
    (spelt : SpellsElements es ts after) :
    ∃ t ∈ ts.head?, es.head?.bind Expr.start? = some t.unplacedStart := by
  cases spelt with
  | last value => exact value.starts
  | more value _ _ =>
    obtain ⟨t, first, same⟩ := value.starts
    exact ⟨t, List.mem_head?_append_of_mem_head? first, same⟩

/-- The phrase has the tokens that its form asks for. -/
def Phrase.Genuine : Phrase → Prop
  | operand e | term e | sum e | expression e => e.Genuine
  | arguments es => exprsGenuine es

/-- **What proper tokens spell has the tokens that its form asks for.** -/
theorem genuine_of_spells {phrase : Phrase} {ts after : List Token}
    (spelt : Spells phrase ts after) : (∀ t ∈ ts, t.Proper) → phrase.Genuine := by
  have applies {k : Token} (proper : k.Proper) (is : k.kind = .apply) :
      k.unplaced = .keyword .apply := Token.unplaced_eq_keyword proper is (by decide)
  induction spelt with
  | arabic number | glyphs number =>
    exact fun _ => ⟨.inr rfl, Token.unplacedStart_of_number number⟩
  | string string =>
    refine fun _ => ⟨.inl rfl, Token.unplacedStart_congr ?_⟩
    rw [← string]
    rfl
  | name name => exact fun _ => name
  | bareCall is => exact fun proper => ⟨applies (proper _ List.mem_cons_self) is, trivial⟩
  | call is _ _ _ values =>
    exact fun proper => ⟨applies (proper _ List.mem_cons_self) is,
      values fun t member => proper t (by simp [member])⟩
  | lastArgument _ _ value => exact fun proper => ⟨value proper, trivial⟩
  | argument _ _ _ value more =>
    exact fun proper => ⟨value fun t member => proper t (by simp [member]),
      more fun t member => proper t (by simp [member])⟩
  | operandTerm _ inner | termSum _ inner | sumExpression _ inner => exact inner
  | @product _ _ t _ _ _ _ _ operator _ _ left right | @sum _ _ t _ _ _ _ _ operator _ _ left right
  | @comparison _ _ t _ _ _ _ _ operator _ _ left right =>
    intro proper
    obtain ⟨keyword, known⟩ := keyword_of_ofKind? operator
    have is := Token.unplaced_eq_keyword (proper t (by simp)) keyword.symm (keyword ▸ known)
    exact ⟨is, left fun t member => proper t (by simp [member]),
      right fun t member => proper t (by simp [member])⟩

theorem genuine_of_spellsElements {es : List Expr} {ts after : List Token}
    (spelt : SpellsElements es ts after) : (∀ t ∈ ts, t.Proper) → exprsGenuine es := by
  induction spelt with
  | last value => exact fun proper => ⟨genuine_of_spells value proper, trivial⟩
  | more value _ _ rest =>
    exact fun proper => ⟨genuine_of_spells value fun t member => proper t (by simp [member]),
      rest fun t member => proper t (by simp [member])⟩

/-- The value that proper tokens spell. -/
theorem sound_of_spellsValue {isList : Bool} {e : Expr} {ts after : List Token}
    (spelt : SpellsValue isList e ts after) (proper : ∀ t ∈ ts, t.Proper) :
    e.Legible ∧ e.Genuine := by
  have tokens : ∀ t ∈ ts, t.Spelt := fun t member => (proper t member).spelt
  cases spelt with
  | single value | reference value _ =>
    exact ⟨legible_of_spells value tokens, genuine_of_spells value proper⟩
  | list values _ =>
    obtain ⟨_, ⟨⟩, starts⟩ := values.starts
    exact ⟨legible_of_spellsElements values tokens, starts, genuine_of_spellsElements values proper⟩

/-- The outermost expressions of a clause. -/
def Clause.exprs : Clause → List Expr
  | statement s => s.exprs
  | statements ss => stmtExprs ss

/-- **Every outermost expression of a clause is spelt by some of its tokens.** -/
theorem spelt_of_forms {clause : Clause} {place : Place} {ts after : List Token}
    (formed : Forms clause place ts after) :
    ∀ e ∈ clause.exprs, ∃ isList us rest, (∀ t ∈ us, t ∈ ts) ∧ SpellsValue isList e us rest := by
  induction formed with
  | declare _ _ _ initial _ =>
    intro e member
    cases initial with
    | absent => exact absurd member List.not_mem_nil
    | present _ value =>
      cases List.mem_singleton.mp member
      exact ⟨_, _, _, fun t inside => by simp [inside], value⟩
  | print _ value _ | returnValue _ _ value _ | assign _ _ value _ =>
    intro e member
    cases List.mem_singleton.mp member
    exact ⟨_, _, _, fun t inside => by simp [inside], .single value⟩
  | conditional _ condition _ _ _ _ _ yes no =>
    intro e member
    rcases List.mem_cons.mp member with rfl | branch
    · exact ⟨_, _, _, fun t inside => by simp [inside], .single condition⟩
    · rcases List.mem_append.mp branch with first | second
      · obtain ⟨isList, us, rest, within, value⟩ := yes e first
        exact ⟨isList, us, rest, fun t inside => by simp [within t inside], value⟩
      · obtain ⟨isList, us, rest, within, value⟩ := no e second
        exact ⟨isList, us, rest, fun t inside => by simp [within t inside], value⟩
  | loop _ _ _ inner | function _ _ _ _ _ _ _ inner =>
    intro e member
    obtain ⟨isList, us, rest, within, value⟩ := inner e member
    exact ⟨isList, us, rest, fun t inside => by simp [within t inside], value⟩
  | returnNothing | breaks | none => exact fun _ member => absurd member List.not_mem_nil
  | perform _ call _ =>
    intro e member
    cases List.mem_singleton.mp member
    exact ⟨_, _, _, fun t inside => List.mem_append_left _ inside,
      .single (.sumExpression (.termSum (.operandTerm call)))⟩
  | more _ _ first rest =>
    intro e member
    rcases List.mem_append.mp member with here | later
    · obtain ⟨isList, us, behind, within, value⟩ := first e here
      exact ⟨isList, us, behind, fun t inside => List.mem_append_left _ (within t inside), value⟩
    · obtain ⟨isList, us, behind, within, value⟩ := rest e later
      exact ⟨isList, us, behind, fun t inside => List.mem_append_right _ (within t inside), value⟩

end Grammar

open Grammar

/-- **The expressions of a resolved program are legible, and have the tokens that their forms ask
for.** -/
theorem sound_of_ofSource {source : Text} {p : Program} (read : Program.ofSource source = .ok p)
    {e : Expr} (holds : p.resolve.tree.Holds e) : e.Legible ∧ e.Genuine := by
  have proper : ∀ t ∈ body (Token.tokenize source), t.Proper := by
    rw [← dropLast_tokenize]
    exact Token.proper_tokenize source
  obtain ⟨whole, member, inside⟩ := holds
  -- Resolution changes nothing but marks, so the expression is one that was read.
  have bare : whole.bare ∈ (stmtExprs p).map Expr.bare := by
    have same : bareStmts p.resolve.tree = bareStmts p := bare_resolveStmts .initial p
    rw [← stmtExprs_bare, ← same, stmtExprs_bare]
    exact List.mem_map_of_mem member
  obtain ⟨original, given, same⟩ := List.mem_map.mp bare
  obtain ⟨isList, us, rest, within, value⟩ :=
    spelt_of_forms (ofTokens_eq_ok_iff.mp read) original given
  obtain ⟨legible, genuine⟩ :=
    sound_of_spellsValue value fun t member => proper t (within t member)
  obtain ⟨inheritsLegible, inheritsGenuine, -⟩ := inside.inherits
  rw [← original.legible_bare, same, whole.legible_bare] at legible
  rw [← original.genuine_bare, same, whole.genuine_bare] at genuine
  exact ⟨inheritsLegible legible, inheritsGenuine genuine⟩

end Guwen
