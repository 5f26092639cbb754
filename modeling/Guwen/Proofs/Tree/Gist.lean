/-
**What a listing tells of a tree.**

A listing shows no places and not whether a callee stood in quotes. It does not show keywords
either, but each is known from the form it belongs to. All the rest of a tree can be read back.

* `Expr.gist`, `Stmt.gist` — the tree without what its listing does not show.
* `Expr.shape`, `Stmt.shape` — the shapes that are written; `Stmt.write_shape` says so.
* `Shape.expr`, `Shape.stmt` — the gist, read back from a shape.
* `Expr.Clean`, `Stmt.Clean` — a tree as a source holds it, whose names and texts are told apart.
* **`Stmt.sound_shape`**, **`Stmt.stmt_shape`** — the shape of a clean tree is sound, and gives back
  the gist of the tree.
-/
import Guwen.Proofs.Code.Outline
import Guwen.Proofs.Tree.Shape
import Guwen.Tree.Listing

namespace Guwen

/-! ### Gists -/

section Gist

variable (start : Token → Token)

mutual

/-- **The expression without places and without the kinds of its callees.** What is left of the
tokens that start a literal or a list is given by `start`. -/
def Expr.gist : Expr → Expr
  | .binary token op left right => .binary token.unplaced op left.gist right.gist
  | .literal first kind text => .literal (start first) kind text
  | .use name mark => .use name.unplaced mark
  | .call keyword callee arguments mark =>
    .call keyword.unplaced ⟨.identifier, callee.lexeme, .nowhere⟩ (exprGists arguments) mark
  | .list first elements => .list (start first) (exprGists elements)
  | .missing => .missing

/-- The gists of expressions, in order. -/
def exprGists : List Expr → List Expr
  | [] => []
  | e :: es => e.gist :: exprGists es

end

def Param.gist (p : Param) : Param := ⟨p.type.unplaced, p.name.unplaced⟩

mutual

/-- **The statement without places and without the kinds of its callees.** -/
def Stmt.gist : Stmt → Stmt
  | .declare keyword type name value =>
    .declare keyword.unplaced type.unplaced name.unplaced (value.map (Expr.gist start))
  | .param p => .param p.gist
  | .function keyword name params body =>
    .function keyword.unplaced name.unplaced (params.map Param.gist) (stmtGists body)
  | .conditional keyword condition yes no =>
    .conditional keyword.unplaced (condition.gist start) (stmtGists yes) (stmtGists no)
  | .loop keyword body => .loop keyword.unplaced (stmtGists body)
  | .print keyword value => .print keyword.unplaced (value.gist start)
  | .returns keyword value => .returns keyword.unplaced (value.map (Expr.gist start))
  | .assign name value => .assign name.unplaced (value.gist start)
  | .breaks keyword => .breaks keyword.unplaced
  | .perform keyword value => .perform keyword.unplaced (value.gist start)
  | .missing => .missing

/-- The gists of statements, in order. -/
def stmtGists : List Stmt → List Stmt
  | [] => []
  | s :: ss => s.gist :: stmtGists ss

end

/-- **The program without places and without the kinds of its callees.** -/
def Program.gist (p : Program) : Program := stmtGists start p

end Gist

/-! ### The shapes of trees -/

mutual

/-- **The shape of an expression.** -/
def Expr.shape : Expr → Shape
  | .binary _ op left right => .form (.operator op) [left.shape, right.shape]
  | .literal _ kind text => if kind = .string then .quoted text else .word text
  | .use name _ => .word name.lexeme
  | .call _ callee arguments _ => .form .call (.word callee.lexeme :: exprShapes arguments)
  | .list _ elements => .form .list (exprShapes elements)
  | .missing => .word missingForm

/-- The shapes of expressions, in order. -/
def exprShapes : List Expr → List Shape
  | [] => []
  | e :: es => e.shape :: exprShapes es

end

def Param.shape (p : Param) : Shape := .form .parameter [.word p.type.lexeme, .word p.name.lexeme]

mutual

/-- **The shape of a statement.** -/
def Stmt.shape : Stmt → Shape
  | .declare _ type name value =>
    .form .declare (.word type.lexeme :: .word name.lexeme :: value.toList.map Expr.shape)
  | .param p => p.shape
  | .function _ name params body =>
    .form .function (.word name.lexeme :: .tuple (params.map Param.shape) :: stmtShapes body)
  | .conditional _ condition yes no =>
    .form .conditional (condition.shape :: .form .yes (stmtShapes yes) ::
      if no.isEmpty then [] else [.form .no (stmtShapes no)])
  | .loop _ body => .form .loop (stmtShapes body)
  | .print _ value => .form .print [value.shape]
  | .returns _ value => .form .returns (value.toList.map Expr.shape)
  | .assign name value => .form .assign [.word name.lexeme, value.shape]
  | .breaks _ => .form .breaks []
  | .perform _ value => value.shape
  | .missing => .word missingForm

/-- The shapes of statements, in order. -/
def stmtShapes : List Stmt → List Shape
  | [] => []
  | s :: ss => s.shape :: stmtShapes ss

end

mutual

/-- **The form of an expression is the text of its shape.** -/
theorem Expr.write_shape : ∀ e : Expr, e.shape.write = e.form
  | .binary _ op left right => by
    rw [Expr.shape, Shape.write, Expr.form, ← left.write_shape, ← right.write_shape]
    simp only [writeBehind, List.append_assoc]
    rfl
  | .literal _ kind text => by
    rw [Expr.shape, Expr.form]
    split <;> rfl
  | .use .. => rfl
  | .call _ _ arguments _ => by
    rw [Expr.shape, Shape.write, Expr.form, ← writeBehind_exprShapes arguments]
    simp only [writeBehind, Shape.write, List.append_assoc]
    rfl
  | .list _ elements => by
    rw [Expr.shape, Shape.write, Expr.form, ← writeBehind_exprShapes elements]
    simp only [List.append_assoc]
    rfl
  | .missing => rfl

theorem writeBehind_exprShapes : ∀ es : List Expr, writeBehind (exprShapes es) = exprForms es
  | [] => rfl
  | e :: es => by
    rw [exprShapes, writeBehind, e.write_shape, writeBehind_exprShapes es, exprForms]

end

theorem Param.write_shape (p : Param) : p.shape.write = p.form := by
  rw [Param.shape, Shape.write, Param.form]
  simp only [writeBehind, Shape.write, List.append_assoc]
  rfl

theorem write_params (params : List Param) : (Shape.tuple (params.map Param.shape)).write =
    "(" ++ Text.join " " (params.map Param.form) ++ ")" := by
  have behind : ∀ params : List Param, ∀ first : Text, first ++ writeBehind (params.map Param.shape)
      = Text.join " " (first :: params.map Param.form) := by
    intro params
    induction params with
    | nil =>
      intro first
      rw [List.map_nil, List.map_nil, Text.join_singleton]
      exact List.append_nil first
    | cons p params ih =>
      intro first
      rw [List.map_cons, List.map_cons, writeBehind, Text.join_cons_cons, ← ih, p.write_shape,
        List.append_assoc]
  cases params with
  | nil => rfl
  | cons p params =>
    rw [List.map_cons, Shape.write, p.write_shape, List.map_cons, ← behind]
    simp only [List.append_assoc]

mutual

/-- **The form of a statement is the text of its shape.** -/
theorem Stmt.write_shape : ∀ s : Stmt, s.shape.write = s.form
  | .declare _ type name none => by
    rw [Stmt.shape, Shape.write, Stmt.form]
    simp only [Option.toList_none, List.map_nil, writeBehind, Shape.write, List.append_assoc]
    rfl
  | .declare _ type name (some value) => by
    rw [Stmt.shape, Shape.write, Stmt.form, ← value.write_shape]
    simp only [Option.toList_some, List.map_cons, List.map_nil, writeBehind, Shape.write,
      List.append_assoc]
    rfl
  | .param p => p.write_shape
  | .function _ name params body => by
    rw [Stmt.shape, Shape.write, Stmt.form, ← writeBehind_stmtShapes body]
    simp only [writeBehind, write_params, List.append_assoc]
    rfl
  | .conditional _ condition yes no => by
    rw [Stmt.shape, Shape.write, Stmt.form, ← condition.write_shape, ← writeBehind_stmtShapes yes,
      ← writeBehind_stmtShapes no]
    by_cases empty : no.isEmpty = true
    · rw [if_pos empty, if_pos empty]
      simp only [writeBehind, Shape.write, List.append_assoc]
      rfl
    · rw [if_neg empty, if_neg empty]
      simp only [writeBehind, Shape.write, List.append_assoc]
      rfl
  | .loop _ body => by
    rw [Stmt.shape, Shape.write, Stmt.form, ← writeBehind_stmtShapes body]
    simp only [List.append_assoc]
    rfl
  | .print _ value => by
    rw [Stmt.shape, Shape.write, Stmt.form, ← value.write_shape]
    simp only [writeBehind, List.append_assoc]
    rfl
  | .returns _ none => rfl
  | .returns _ (some value) => by
    rw [Stmt.shape, Shape.write, Stmt.form, ← value.write_shape]
    simp only [Option.toList_some, List.map_cons, List.map_nil, writeBehind, List.append_assoc]
    rfl
  | .assign name value => by
    rw [Stmt.shape, Shape.write, Stmt.form, ← value.write_shape]
    simp only [writeBehind, Shape.write, List.append_assoc]
    rfl
  | .breaks _ => rfl
  | .perform _ value => value.write_shape
  | .missing => rfl

theorem writeBehind_stmtShapes : ∀ ss : List Stmt, writeBehind (stmtShapes ss) = stmtForms ss
  | [] => rfl
  | s :: ss => by
    rw [stmtShapes, writeBehind, s.write_shape, writeBehind_stmtShapes ss, stmtForms]

end

/-- **A listing is the shapes of the statements on lines of their own.** -/
theorem writeLines_stmtShapes (p : Program) : writeLines (stmtShapes p) = p.listing := by
  induction p with
  | nil => rfl
  | cons s ss ih =>
    rw [stmtShapes, writeLines, List.flatMap_cons, s.write_shape]
    exact congrArg (s.form ++ "\n" ++ ·) ih

/-! ### Reading shapes back -/

/-- The words of the types. -/
def typeKinds : List TokenKind := [.numberType, .stringType, .listType]

/-- The word of a type, by its spelling. -/
def typeNamed (text : Text) : Token :=
  .keyword ((typeKinds.find? fun kind => (Token.keyword kind).lexeme == text).getD .eof)

/-- A text that starts with a digit. -/
def Text.isNumeric (text : Text) : Bool := text.head?.any Code.isDigitByte

mutual

/-- **The gist of the expression that has a shape.** -/
def Shape.expr : Shape → Expr
  | .word text =>
    if text.isNumeric then .literal ⟨.number, [], .nowhere⟩ .number text
    else .use ⟨.identifier, text, .nowhere⟩ none
  | .quoted text => .literal ⟨.string, text, .nowhere⟩ .string text
  | .form (.operator op) [left, right] => .binary (.keyword op.keyword) op left.expr right.expr
  | .form .call (.word callee :: arguments) =>
    .call (.keyword .apply) ⟨.identifier, callee, .nowhere⟩ (shapeExprs arguments) none
  | .form .list elements =>
    .list (((shapeExprs elements).head?.bind Expr.start?).getD ⟨.eof, [], .nowhere⟩)
      (shapeExprs elements)
  | _ => .missing

def shapeExprs : List Shape → List Expr
  | [] => []
  | s :: ss => s.expr :: shapeExprs ss

end

/-- The gist of the parameter that has a shape. -/
def Shape.param : Shape → Param
  | .form .parameter [.word type, .word name] => ⟨typeNamed type, ⟨.string, name, .nowhere⟩⟩
  | _ => ⟨⟨.eof, [], .nowhere⟩, ⟨.eof, [], .nowhere⟩⟩

mutual

/-- **The gist of the statement that has a shape.** -/
def Shape.stmt : Shape → Stmt
  | .form .declare [.word type, .word name] =>
    .declare (.keyword .declare) (typeNamed type) ⟨.string, name, .nowhere⟩ none
  | .form .declare [.word type, .word name, value] =>
    .declare (.keyword .declare) (typeNamed type) ⟨.string, name, .nowhere⟩ (some value.expr)
  | .form .function (.word name :: .tuple params :: body) =>
    .function (.keyword .function) ⟨.string, name, .nowhere⟩ (params.map Shape.param)
      (shapeStmts body)
  | .form .conditional [condition, .form .yes yes] =>
    .conditional (.keyword .whether) condition.expr (shapeStmts yes) []
  | .form .conditional [condition, .form .yes yes, .form .no no] =>
    .conditional (.keyword .whether) condition.expr (shapeStmts yes) (shapeStmts no)
  | .form .loop body => .loop (.keyword .loop) (shapeStmts body)
  | .form .print [value] => .print (.keyword .print) value.expr
  | .form .returns [] => .returns (.keyword .returns) none
  | .form .returns [value] => .returns (.keyword .returns) (some value.expr)
  | .form .assign [.word name, value] => .assign ⟨.identifier, name, .nowhere⟩ value.expr
  | .form .breaks [] => .breaks (.keyword .breaks)
  | .form .call parts => .perform (.keyword .apply) (Shape.form .call parts).expr
  | _ => .missing

def shapeStmts : List Shape → List Stmt
  | [] => []
  | s :: ss => s.stmt :: shapeStmts ss

end

/-! ### Clean trees -/

mutual

/-- **An expression as a source holds it,** whose callees are words and whose texts hold no double
quote. -/
def Expr.Clean : Expr → Prop
  | .binary token op left right =>
    op ∈ Operator.all ∧ token.unplaced = .keyword op.keyword ∧ left.Clean ∧ right.Clean
  | .literal first kind text => first.unplacedStart = Token.unplacedStart ⟨kind, text, .nowhere⟩ ∧
      (kind = .string ∧ 34 ∉ text ∨ kind = .number ∧ Code.IsNumber text)
  | .use name mark =>
    name.kind = .identifier ∧ mark = none ∧ name.lexeme.IsBare ∧ name.lexeme.isNumeric = false
  | .call keyword callee arguments mark =>
    keyword.unplaced = .keyword .apply ∧ callee.lexeme.IsBare ∧ mark = none ∧ exprsClean arguments
  | .list first elements =>
    elements.head?.bind Expr.start? = some first.unplacedStart ∧ exprsClean elements
  | .missing => False

def exprsClean : List Expr → Prop
  | [] => True
  | e :: es => e.Clean ∧ exprsClean es

end

/-- A word of a type. -/
def Token.IsType (t : Token) : Prop := ∃ kind ∈ typeKinds, t.unplaced = .keyword kind

/-- A declared name that is a word. -/
structure Token.IsDeclared (name : Token) : Prop where
  kind : name.kind = .string
  bare : name.lexeme.IsBare

structure Param.Clean (p : Param) : Prop where
  type : p.type.IsType
  name : p.name.IsDeclared

mutual

/-- **A statement as a source holds it,** whose names are words and whose texts hold no double
quote. -/
def Stmt.Clean : Stmt → Prop
  | .declare keyword type name value =>
    keyword.unplaced = .keyword .declare ∧ type.IsType ∧ name.IsDeclared ∧ ∀ e ∈ value, e.Clean
  | .function keyword name params body => keyword.unplaced = .keyword .function ∧
      name.IsDeclared ∧ (∀ p ∈ params, p.Clean) ∧ stmtsClean body
  | .conditional keyword condition yes no => keyword.unplaced = .keyword .whether ∧
      condition.Clean ∧ stmtsClean yes ∧ stmtsClean no
  | .loop keyword body => keyword.unplaced = .keyword .loop ∧ stmtsClean body
  | .print keyword value => keyword.unplaced = .keyword .print ∧ value.Clean
  | .returns keyword value => keyword.unplaced = .keyword .returns ∧ ∀ e ∈ value, e.Clean
  | .assign name value => name.kind = .identifier ∧ name.lexeme.IsBare ∧ value.Clean
  | .breaks keyword => keyword.unplaced = .keyword .breaks
  | .perform keyword value => keyword.unplaced = .keyword .apply ∧ value.Clean ∧
      ∃ k callee arguments mark, value = .call k callee arguments mark
  | .param _ | .missing => False

def stmtsClean : List Stmt → Prop
  | [] => True
  | s :: ss => s.Clean ∧ stmtsClean ss

end

/-! ### The shapes of clean trees -/

theorem Code.IsDigits.bare {text : Text} (digits : Code.IsDigits text) :
    ∀ b ∈ text, isDelimiter b = false := by
  intro b member
  have others : ∀ d ∈ (" \n()\"" : Text), Code.isDigitByte d = false := by decide +kernel
  rw [isDelimiter, ← Bool.not_eq_true, List.contains_iff_mem]
  intro delimiter
  have digit := digits.2 b member
  rw [others b delimiter] at digit
  cases digit

/-- A number is a word that starts with a digit. -/
theorem Code.IsNumber.isBare {text : Text} (number : Code.IsNumber text) :
    text.IsBare ∧ text.isNumeric = true := by
  rcases number with digits | ⟨whole, part, before, behind, rfl⟩
  · obtain ⟨b, t, rfl⟩ := List.exists_cons_of_ne_nil digits.1
    exact ⟨⟨digits.1, digits.bare⟩, digits.2 b List.mem_cons_self⟩
  · obtain ⟨b, t, rfl⟩ := List.exists_cons_of_ne_nil before.1
    refine ⟨⟨List.cons_ne_nil _ _, fun c member => ?_⟩, before.2 b List.mem_cons_self⟩
    rcases List.mem_append.mp member with first | second
    · exact before.bare c first
    · rcases List.mem_cons.mp second with rfl | later
      · rfl
      · exact behind.bare c later

theorem Head.mem_all_operator {op : Operator} (known : op ∈ Operator.all) :
    Head.operator op ∈ Head.all :=
  List.mem_append_left _ (List.mem_map_of_mem known)

mutual

/-- **The shape of a clean expression is sound.** -/
theorem Expr.sound_shape : ∀ e : Expr, e.Clean → e.shape.Sound
  | .binary _ _ left right, ⟨known, _, first, second⟩ =>
    ⟨Head.mem_all_operator known, left.sound_shape first, right.sound_shape second, trivial⟩
  | .literal _ _ text, ⟨_, .inl ⟨string, unquoted⟩⟩ => by
    rw [Expr.shape, if_pos string]
    exact unquoted
  | .literal _ _ text, ⟨_, .inr ⟨kind, number⟩⟩ => by
    rw [Expr.shape, kind, if_neg (by decide)]
    exact number.isBare.1
  | .use name _, clean => clean.2.2.1
  | .call _ callee arguments _, ⟨_, bare, _, clean⟩ =>
    ⟨by decide, bare, sound_exprShapes arguments clean⟩
  | .list _ elements, ⟨_, clean⟩ => ⟨by decide, sound_exprShapes elements clean⟩

theorem sound_exprShapes : ∀ es : List Expr, exprsClean es → shapesSound (exprShapes es)
  | [], _ => trivial
  | e :: es, ⟨first, rest⟩ => ⟨e.sound_shape first, sound_exprShapes es rest⟩

end

theorem Token.IsType.isBare {t : Token} (type : t.IsType) : t.lexeme.IsBare := by
  have bare : ∀ kind ∈ typeKinds, (Token.keyword kind).lexeme.IsBare := by decide +kernel
  obtain ⟨kind, known, same⟩ := type
  exact congrArg Token.lexeme same ▸ bare kind known

theorem Param.Clean.sound_shape {p : Param} (clean : p.Clean) : p.shape.Sound :=
  ⟨by decide, clean.type.isBare, clean.name.bare, trivial⟩

theorem sound_params {params : List Param} (clean : ∀ p ∈ params, p.Clean) :
    (Shape.tuple (params.map Param.shape)).Sound := by
  induction params with
  | nil => exact ⟨rfl, trivial⟩
  | cons p params ih =>
    obtain ⟨groups, sound⟩ := ih fun q member => clean q (List.mem_cons_of_mem p member)
    exact ⟨groups, (clean p List.mem_cons_self).sound_shape, sound⟩

theorem sound_option {value : Option Expr} (clean : ∀ e ∈ value, e.Clean) :
    shapesSound (value.toList.map Expr.shape) := by
  cases value with
  | none => trivial
  | some e => exact ⟨e.sound_shape (clean e rfl), trivial⟩

mutual

/-- **The shape of a clean statement is sound.** -/
theorem Stmt.sound_shape : ∀ s : Stmt, s.Clean → s.shape.Sound
  | .declare .., clean => by
    obtain ⟨-, type, name, value⟩ := clean
    rw [Stmt.shape, Shape.Sound]
    exact ⟨by decide, type.isBare, name.bare, sound_option value⟩
  | .function _ _ _ body, clean => by
    obtain ⟨-, name, params, inner⟩ := clean
    rw [Stmt.shape, Shape.Sound]
    exact ⟨by decide, name.bare, sound_params params, sound_stmtShapes body inner⟩
  | .conditional _ condition yes no, clean => by
    obtain ⟨-, tested, first, second⟩ := clean
    rw [Stmt.shape, Shape.Sound]
    refine ⟨by decide, condition.sound_shape tested,
      ⟨by decide, sound_stmtShapes yes first⟩, ?_⟩
    split
    · trivial
    · exact ⟨⟨by decide, sound_stmtShapes no second⟩, trivial⟩
  | .loop _ body, clean => by
    rw [Stmt.shape, Shape.Sound]
    exact ⟨by decide, sound_stmtShapes body clean.2⟩
  | .print _ value, clean => by
    rw [Stmt.shape, Shape.Sound]
    exact ⟨by decide, value.sound_shape clean.2, trivial⟩
  | .returns .., clean => by
    rw [Stmt.shape, Shape.Sound]
    exact ⟨by decide, sound_option clean.2⟩
  | .assign _ value, clean => by
    rw [Stmt.shape, Shape.Sound]
    exact ⟨by decide, clean.2.1, value.sound_shape clean.2.2, trivial⟩
  | .breaks _, _ => by
    rw [Stmt.shape, Shape.Sound]
    exact ⟨by decide, trivial⟩
  | .perform _ value, clean => by
    rw [Stmt.shape]
    exact value.sound_shape clean.2.1
  | .param _, clean => clean.elim
  | .missing, clean => clean.elim

theorem sound_stmtShapes : ∀ ss : List Stmt, stmtsClean ss → shapesSound (stmtShapes ss)
  | [], _ => trivial
  | s :: ss, ⟨first, rest⟩ => ⟨s.sound_shape first, sound_stmtShapes ss rest⟩

end

/-! ### Clean trees are read back -/

/-- A gist starts with the same token. -/
theorem Expr.start?_gist : ∀ e : Expr, (e.gist Token.unplacedStart).start? = e.start?
  | .binary _ _ left _ => left.start?_gist
  | .literal first _ _ | .list first _ => congrArg some first.unplacedStart_idem
  | .use .. | .call .. | .missing => rfl

theorem start?_exprGists (es : List Expr) :
    (exprGists Token.unplacedStart es).head?.bind Expr.start? = es.head?.bind Expr.start? := by
  cases es with
  | nil => rfl
  | cons e es => exact e.start?_gist

mutual

/-- **The shape of a clean expression gives back its gist.** -/
theorem Expr.expr_shape : ∀ e : Expr, e.Clean → e.shape.expr = e.gist Token.unplacedStart
  | .binary _ op left right, clean => by
    obtain ⟨-, operator, first, second⟩ := clean
    rw [Expr.shape, Shape.expr, left.expr_shape first, right.expr_shape second, Expr.gist, operator]
  | .literal first kind text, clean => by
    obtain ⟨starts, ⟨rfl, -⟩ | ⟨rfl, number⟩⟩ := clean
    · rw [Expr.shape, if_pos rfl, Shape.expr, Expr.gist, starts]
      rfl
    · rw [Expr.shape, if_neg (by decide), Shape.expr, if_pos number.isBare.2, Expr.gist, starts]
      rfl
  | .use name mark, clean => by
    obtain ⟨kind, rfl, -, name⟩ := clean
    rw [Expr.shape, Shape.expr, name, Expr.gist, Token.unplaced, kind]
    rfl
  | .call keyword callee arguments mark, clean => by
    obtain ⟨applies, -, rfl, inner⟩ := clean
    rw [Expr.shape, Shape.expr, expr_exprShapes arguments inner, Expr.gist, applies]
  | .list first elements, clean => by
    obtain ⟨starts, inner⟩ := clean
    rw [Expr.shape, Shape.expr, expr_exprShapes elements inner, start?_exprGists, starts, Expr.gist]
    rfl
  | .missing, clean => clean.elim

theorem expr_exprShapes : ∀ es : List Expr, exprsClean es →
    shapeExprs (exprShapes es) = exprGists Token.unplacedStart es
  | [], _ => rfl
  | e :: es, clean => by
    rw [exprShapes, shapeExprs, e.expr_shape clean.1, expr_exprShapes es clean.2, exprGists]

end

theorem Token.IsType.typeNamed_lexeme {t : Token} (type : t.IsType) :
    typeNamed t.lexeme = t.unplaced := by
  have named : ∀ kind ∈ typeKinds, typeNamed (Token.keyword kind).lexeme = .keyword kind := by
    decide +kernel
  obtain ⟨kind, known, same⟩ := type
  have lexeme : t.lexeme = (Token.keyword kind).lexeme := by
    rw [← same]
    rfl
  rw [same, lexeme, named kind known]

theorem Token.IsDeclared.unplaced {name : Token} (declared : name.IsDeclared) :
    (⟨.string, name.lexeme, .nowhere⟩ : Token) = name.unplaced := by
  rw [Token.unplaced, declared.kind]

theorem Param.Clean.param_shape {p : Param} (clean : p.Clean) : p.shape.param = p.gist := by
  rw [Param.shape, Shape.param, clean.type.typeNamed_lexeme, clean.name.unplaced, Param.gist]

theorem param_shapes {params : List Param} (clean : ∀ p ∈ params, p.Clean) :
    (params.map Param.shape).map Shape.param = params.map Param.gist := by
  rw [List.map_map]
  exact List.map_congr_left fun p member => (clean p member).param_shape

mutual

/-- **The shape of a clean statement gives back its gist.** -/
theorem Stmt.stmt_shape : ∀ s : Stmt, s.Clean → s.shape.stmt = s.gist Token.unplacedStart
  | .declare keyword type name none, clean => by
    obtain ⟨is, type, name, -⟩ := clean
    rw [Stmt.shape, Stmt.gist, is, ← type.typeNamed_lexeme, ← name.unplaced]
    rfl
  | .declare keyword type name (some value), clean => by
    obtain ⟨is, type, name, inner⟩ := clean
    rw [Stmt.shape, Stmt.gist, is, ← type.typeNamed_lexeme, ← name.unplaced, Option.map_some,
      ← value.expr_shape (inner value rfl)]
    rfl
  | .function keyword name params body, clean => by
    obtain ⟨is, name, params, inner⟩ := clean
    rw [Stmt.shape, Shape.stmt, Stmt.gist, is, name.unplaced, param_shapes params,
      stmt_stmtShapes body inner]
  | .conditional keyword condition yes no, clean => by
    obtain ⟨is, tested, first, second⟩ := clean
    rw [Stmt.shape, Stmt.gist, is, ← condition.expr_shape tested, ← stmt_stmtShapes yes first,
      ← stmt_stmtShapes no second]
    cases no with
    | nil => rfl
    | cons s ss => rfl
  | .loop keyword body, clean => by
    rw [Stmt.shape, Shape.stmt, Stmt.gist, clean.1, stmt_stmtShapes body clean.2]
  | .print keyword value, clean => by
    rw [Stmt.shape, Shape.stmt, Stmt.gist, clean.1, value.expr_shape clean.2]
  | .returns keyword none, clean => by
    rw [Stmt.shape, Stmt.gist, clean.1]
    rfl
  | .returns keyword (some value), clean => by
    rw [Stmt.shape, Stmt.gist, clean.1, Option.map_some, ← value.expr_shape (clean.2 value rfl)]
    rfl
  | .assign name value, clean => by
    obtain ⟨kind, -, inner⟩ := clean
    rw [Stmt.shape, Shape.stmt, Stmt.gist, value.expr_shape inner, Token.unplaced, kind]
  | .breaks keyword, clean => by
    rw [Stmt.shape, Shape.stmt, Stmt.gist, show keyword.unplaced = _ from clean]
  | .perform keyword value, clean => by
    obtain ⟨is, inner, k, callee, arguments, mark, rfl⟩ := clean
    rw [Stmt.shape, Stmt.gist, is, ← Expr.expr_shape _ inner]
    rfl
  | .param _, clean => clean.elim
  | .missing, clean => clean.elim

theorem stmt_stmtShapes : ∀ ss : List Stmt, stmtsClean ss →
    shapeStmts (stmtShapes ss) = stmtGists Token.unplacedStart ss
  | [], _ => rfl
  | s :: ss, clean => by
    rw [stmtShapes, shapeStmts, s.stmt_shape clean.1, stmt_stmtShapes ss clean.2, stmtGists]

end

/-- **The listing of a clean program tells its gist.** -/
theorem gist_eq_of_listing {p p' : Program} (clean : stmtsClean p) (clean' : stmtsClean p')
    (same : p.listing = p'.listing) :
    p.gist Token.unplacedStart = p'.gist Token.unplacedStart := by
  have shapes : stmtShapes p = stmtShapes p' := by
    refine writeLines_inj (sound_stmtShapes p clean) (sound_stmtShapes p' clean') ?_
    rw [writeLines_stmtShapes, same, writeLines_stmtShapes]
  rw [Program.gist, ← stmt_stmtShapes p clean, shapes, stmt_stmtShapes p' clean', Program.gist]

end Guwen
