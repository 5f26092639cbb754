/-
**The grammar: which tokens spell which tree.**

The rules speak of whole stretches of tokens and never of a reader. Every rule carries the tokens
that stand `after` its stretch, because three choices look one token ahead: a call takes arguments
whenever 於 or 以 follows its callee, the innermost open call takes every separator and every
operator, and 乃得 takes a value whenever one can start. Nothing else looks ahead.

* `Spells` — operands, the three levels of operators, each joined from the left, and arguments.
* `SpellsValue` — the initial value of a variable, with 、 between the elements of a list.
* `Forms` — statements and lists of statements, inside functions and loops or not.
* `Derives` — the programs that a list of tokens spells.
-/
import Guwen.Grammar.Program
import Mathlib.Data.List.Chain

namespace Guwen

namespace Grammar

/-! ### Looking one token ahead -/

/-- The first of the tokens, if there is one, is of no kind that `kinds` picks. -/
def NotNext (kinds : TokenKind → Bool) (after : List Token) : Prop :=
  ∀ t ∈ after.head?, kinds t.kind = false

/-- 於 and 以, which open the arguments of a call. -/
def opensArguments : TokenKind → Bool
  | .toward | .taking => true
  | _ => false

/-- 、, 於 and 以, which stand between arguments. -/
def separatesArguments : TokenKind → Bool
  | .comma | .toward | .taking => true
  | _ => false

/-- One of the seven operators. -/
def isOperator (kind : TokenKind) : Bool := (Operator.ofKind? kind).isSome

/-- What goes on with the arguments of an open call: another one, or more of the last. -/
def extendsArguments (kind : TokenKind) : Bool := separatesArguments kind || isOperator kind

/-! ### Expressions -/

/-- Token `b` goes on the numeral that `a` belongs to: a glyph right behind it. -/
def GoesOn (a b : Token) : Prop :=
  b.kind = .number ∧ isArabic b = false ∧ adjacent a b = true

/-- **What a stretch of tokens can spell inside a statement.** -/
inductive Phrase where
  /-- A number, a string, a name or a call. -/
  | operand (e : Expr)
  /-- Operands with 乘 and 除 between them. -/
  | term (e : Expr)
  /-- Terms with 加 and 減 between them. -/
  | sum (e : Expr)
  /-- Sums with 大於, 小於 and 等於 between them. -/
  | expression (e : Expr)
  /-- Expressions with separators between them. -/
  | arguments (es : List Expr)

/-- An operator that compares. -/
def isComparison (op : Operator) : Bool := !op.isMultiplicative && !op.isAdditive

/-- **The tokens spell the phrase,** when `after` follows them. -/
inductive Spells : Phrase → List Token → List Token → Prop where
  | arabic {t : Token} {after : List Token} (number : t.kind = .number)
      (arabic : isArabic t = true) : Spells (.operand (.literal t .number t.lexeme)) [t] after
  | glyphs {t : Token} {run after : List Token} {value : Nat} (number : t.kind = .number)
      (glyph : isArabic t = false) (together : List.IsChain GoesOn (t :: run))
      (reads : Numeral.value? (Text.chars ((t :: run).flatMap Token.lexeme)) = some value) :
      Spells (.operand (.literal t .number (Text.ofNat value))) (t :: run) after
  | string {t : Token} {after : List Token} (string : t.kind = .string) :
      Spells (.operand (.literal t .string t.lexeme)) [t] after
  | name {t : Token} {after : List Token} (name : t.kind = .identifier) :
      Spells (.operand (.use t none)) [t] after
  | bareCall {k callee : Token} {after : List Token} (keyword : k.kind = .apply)
      (called : callee.kind = .identifier ∨ callee.kind = .string)
      (bare : NotNext opensArguments after) :
      Spells (.operand (.call k callee [] none)) [k, callee] after
  | call {k callee mark : Token} {es : List Expr} {ts after : List Token}
      (keyword : k.kind = .apply) (called : callee.kind = .identifier ∨ callee.kind = .string)
      (opens : opensArguments mark.kind = true) (values : Spells (.arguments es) ts after) :
      Spells (.operand (.call k callee es none)) (k :: callee :: mark :: ts) after
  | lastArgument {e : Expr} {ts after : List Token} (value : Spells (.expression e) ts after)
      (last : NotNext extendsArguments after) : Spells (.arguments [e]) ts after
  | argument {e : Expr} {es : List Expr} {mark : Token} {ts us after : List Token}
      (value : Spells (.expression e) ts (mark :: (us ++ after)))
      (separates : separatesArguments mark.kind = true)
      (more : Spells (.arguments es) us after) :
      Spells (.arguments (e :: es)) (ts ++ mark :: us) after
  | operandTerm {e : Expr} {ts after : List Token} (operand : Spells (.operand e) ts after) :
      Spells (.term e) ts after
  | product {left right : Expr} {t : Token} {op : Operator} {ts us after : List Token}
      (factor : Spells (.term left) ts (t :: (us ++ after)))
      (operator : Operator.ofKind? t.kind = some op) (level : op.isMultiplicative = true)
      (operand : Spells (.operand right) us after) :
      Spells (.term (.binary t op left right)) (ts ++ t :: us) after
  | termSum {e : Expr} {ts after : List Token} (term : Spells (.term e) ts after) :
      Spells (.sum e) ts after
  | sum {left right : Expr} {t : Token} {op : Operator} {ts us after : List Token}
      (summand : Spells (.sum left) ts (t :: (us ++ after)))
      (operator : Operator.ofKind? t.kind = some op) (level : op.isAdditive = true)
      (term : Spells (.term right) us after) :
      Spells (.sum (.binary t op left right)) (ts ++ t :: us) after
  | sumExpression {e : Expr} {ts after : List Token} (sum : Spells (.sum e) ts after) :
      Spells (.expression e) ts after
  | comparison {left right : Expr} {t : Token} {op : Operator} {ts us after : List Token}
      (compared : Spells (.expression left) ts (t :: (us ++ after)))
      (operator : Operator.ofKind? t.kind = some op) (level : isComparison op = true)
      (sum : Spells (.sum right) us after) :
      Spells (.expression (.binary t op left right)) (ts ++ t :: us) after

/-! ### Names, values and parameters -/

/-- Nothing, or one token of the given kind. -/
def Optional (kind : TokenKind) (ts : List Token) : Prop :=
  ts = [] ∨ ∃ t, t.kind = kind ∧ ts = [t]

/-- [名之] 曰 「`name`」, where the name is not blank. -/
def SpellsName (name : Token) (ts : List Token) : Prop :=
  ∃ lead mark, Optional .nameIt lead ∧ mark.kind = .named ∧ name.kind = .string ∧
    name.lexeme.isBlank = false ∧ ts = lead ++ [mark, name]

/-- Expressions with 、 between them. -/
inductive SpellsElements : List Expr → List Token → List Token → Prop where
  | last {e : Expr} {ts after : List Token} (value : Spells (.expression e) ts after) :
      SpellsElements [e] ts after
  | more {e : Expr} {es : List Expr} {comma : Token} {ts us after : List Token}
      (value : Spells (.expression e) ts (comma :: (us ++ after)))
      (comma_kind : comma.kind = .comma)
      (rest : SpellsElements es us after) : SpellsElements (e :: es) (ts ++ comma :: us) after

/-- A name or a call, which may hold a list already. -/
def isReference : Expr → Bool
  | .use _ _ | .call _ _ _ _ => true
  | _ => false

/-- **The initial value of a variable,** of 一列 or of another type. -/
inductive SpellsValue : Bool → Expr → List Token → List Token → Prop where
  | single {e : Expr} {ts after : List Token} (value : Spells (.expression e) ts after) :
      SpellsValue false e ts after
  | reference {e : Expr} {ts after : List Token} (value : Spells (.expression e) ts after)
      (reference : isReference e = true) : SpellsValue true e ts after
  | list {es : List Expr} {start : Token} {ts after : List Token}
      (values : SpellsElements es (start :: ts) after)
      (proper : ∀ e, es = [e] → isReference e = false) :
      SpellsValue true (.list start es) (start :: ts) after

/-- [其值 value] -/
inductive SpellsInitial (isList : Bool) : Option Expr → List Token → List Token → Prop where
  | absent {after : List Token} : SpellsInitial isList none [] after
  | present {k : Token} {e : Expr} {ts after : List Token} (keyword : k.kind = .value)
      (value : SpellsValue isList e ts after) : SpellsInitial isList (some e) (k :: ts) after

/-- One or more parameters, with 、 after each or not. -/
inductive SpellsParams : List Param → List Token → Prop where
  | last {type name : Token} {ts comma : List Token} (type_kind : type.kind.isType = true)
      (named : SpellsName name ts) (closed : Optional .comma comma) :
      SpellsParams [⟨type, name⟩] (type :: (ts ++ comma))
  | more {type name : Token} {ps : List Param} {ts comma us : List Token}
      (type_kind : type.kind.isType = true) (named : SpellsName name ts)
      (closed : Optional .comma comma) (rest : SpellsParams ps us) :
      SpellsParams (⟨type, name⟩ :: ps) (type :: (ts ++ comma ++ us))

/-- [必先得 parameters] -/
inductive SpellsSignature : List Param → List Token → Prop where
  | absent : SpellsSignature [] []
  | present {k : Token} {ps : List Param} {ts : List Token} (keyword : k.kind = .params)
      (params : SpellsParams ps ts) : SpellsSignature ps (k :: ts)

/-- [是謂 [「name」]] 之術也, where the name is the function's. -/
inductive SpellsEnd (name : Token) : List Token → Prop where
  | plain {t : Token} (closing : t.kind = .functionEnd) : SpellsEnd name [t]
  | called {k t : Token} (keyword : k.kind = .functionName) (closing : t.kind = .functionEnd) :
      SpellsEnd name [k, t]
  | named {k again t : Token} (keyword : k.kind = .functionName) (string : again.kind = .string)
      (same : again.lexeme = name.lexeme) (closing : t.kind = .functionEnd) :
      SpellsEnd name [k, again, t]

/-! ### Statements -/

/-- **What encloses a statement:** a function, and a loop of the innermost function. -/
structure Place where
  inFunction : Bool
  inLoop : Bool
deriving DecidableEq, Repr

namespace Place

/-- The place of a program's own statements. -/
def top : Place := ⟨false, false⟩

/-- The place inside a loop. -/
def insideLoop (place : Place) : Place := { place with inLoop := true }

/-- The place inside a function. -/
def insideFunction : Place := ⟨true, false⟩

end Place

/-- A statement, or statements one after another. -/
inductive Clause where
  | statement (s : Stmt)
  | statements (ss : List Stmt)

/-- [若非 statements] -/
def elseMark (marks : List Token) (no : List Stmt) : Prop :=
  (marks = [] ∧ no = []) ∨ ∃ k, k.kind = .otherwise ∧ marks = [k]

/-- **The tokens form the clause** at the place, when `after` follows them. -/
inductive Forms : Clause → Place → List Token → List Token → Prop where
  | declare {place : Place} {k type name closing : Token} {value : Option Expr}
      {ts us after : List Token} (keyword : k.kind = .declare)
      (type_kind : type.kind.isType = true) (named : SpellsName name ts)
      (initial : SpellsInitial (type.kind == .listType) value us (closing :: after))
      (closes : closing.kind = .close) :
      Forms (.statement (.declare k type name value)) place
        (k :: type :: (ts ++ (us ++ [closing]))) after
  | print {place : Place} {k : Token} {e : Expr} {ts closing after : List Token}
      (keyword : k.kind = .print) (value : Spells (.expression e) ts (closing ++ after))
      (closes : Optional .close closing) :
      Forms (.statement (.print k e)) place (k :: (ts ++ closing)) after
  | conditional {place : Place} {k mark closing : Token} {e : Expr} {yes no : List Stmt}
      {ts us other vs after : List Token} (keyword : k.kind = .whether)
      (condition : Spells (.expression e) ts (mark :: (us ++ (other ++ (vs ++ closing :: after)))))
      (mark_kind : mark.kind = .thereupon)
      (first : Forms (.statements yes) place us (other ++ (vs ++ closing :: after)))
      (otherwise : elseMark other no)
      (second : Forms (.statements no) place vs (closing :: after))
      (closes : closing.kind = .blockEnd) :
      Forms (.statement (.conditional k e yes no)) place
        (k :: (ts ++ mark :: (us ++ (other ++ (vs ++ [closing]))))) after
  | loop {place : Place} {k closing : Token} {body : List Stmt} {ts after : List Token}
      (keyword : k.kind = .loop)
      (inner : Forms (.statements body) place.insideLoop ts (closing :: after))
      (closes : closing.kind = .blockEnd) :
      Forms (.statement (.loop k body)) place (k :: (ts ++ [closing])) after
  | function {place : Place} {k name : Token} {ps : List Param} {body : List Stmt}
      {ns before sig behind ts closing after : List Token} (keyword : k.kind = .function)
      (named : SpellsName name ns) (first : Optional .invoke before)
      (params : SpellsSignature ps sig) (second : Optional .invoke behind)
      (inner : Forms (.statements body) .insideFunction ts (closing ++ after))
      (closes : SpellsEnd name closing) :
      Forms (.statement (.function k name ps body)) place
        (k :: (ns ++ (before ++ (sig ++ (behind ++ (ts ++ closing)))))) after
  | returnValue {place : Place} {k : Token} {e : Expr} {ts closing after : List Token}
      (keyword : k.kind = .returns) (inside : place.inFunction = true)
      (value : Spells (.expression e) ts (closing ++ after)) (closes : Optional .close closing) :
      Forms (.statement (.returns k (some e))) place (k :: (ts ++ closing)) after
  | returnNothing {place : Place} {k : Token} {closing after : List Token}
      (keyword : k.kind = .returns) (inside : place.inFunction = true)
      (nothing : NotNext startsExpression (closing ++ after)) (closes : Optional .close closing) :
      Forms (.statement (.returns k none)) place (k :: closing) after
  | breaks {place : Place} {k : Token} {closing after : List Token} (keyword : k.kind = .breaks)
      (inside : place.inLoop = true) (closes : Optional .close closing) :
      Forms (.statement (.breaks k)) place (k :: closing) after
  | perform {place : Place} {k : Token} {e : Expr} {ts closing after : List Token}
      (keyword : k.kind = .apply) (call : Spells (.operand e) (k :: ts) (closing ++ after))
      (closes : Optional .close closing) :
      Forms (.statement (.perform k e)) place (k :: (ts ++ closing)) after
  | assign {place : Place} {name mark : Token} {e : Expr} {ts closing after : List Token}
      (named : name.kind = .identifier) (mark_kind : mark.kind = .value)
      (value : Spells (.expression e) ts (closing ++ after)) (closes : Optional .close closing) :
      Forms (.statement (.assign name e)) place (name :: mark :: (ts ++ closing)) after
  | none {place : Place} {after : List Token} : Forms (.statements []) place [] after
  | more {place : Place} {s : Stmt} {ss : List Stmt} {ts us after : List Token}
      (first : Forms (.statement s) place ts (us ++ after))
      (rest : Forms (.statements ss) place us after) :
      Forms (.statements (s :: ss)) place (ts ++ us) after

/-- **The tokens spell the program.** -/
def Derives (ts : List Token) (p : Program) : Prop := Forms (.statements p) .top ts []

end Grammar

end Guwen
