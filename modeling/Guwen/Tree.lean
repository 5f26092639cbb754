/-
**Trees: programs as statements and expressions.**

Every node keeps the tokens it was read from. A use of a name and a call also keep the symbol they
stand for, once they are resolved. A node may be missing (`Expr.missing`, `Stmt.missing`): no source
gives such a tree, but one can be built by hand.
-/
import Guwen.Operator
import Guwen.Symbol

namespace Guwen

/-- **Expressions.** -/
inductive Expr where
  /-- `left op right`; `token` is the operator's. -/
  | binary (token : Token) (op : Operator) (left right : Expr)
  /-- A number or a string. -/
  | literal (start : Token) (kind : TokenKind) (text : Text)
  /-- The use of a name. -/
  | use (name : Token) (symbol : Option Symbol)
  /-- 施 `callee` 以 `arguments` -/
  | call (keyword callee : Token) (arguments : List Expr) (symbol : Option Symbol)
  /-- The elements of a list. -/
  | list (start : Token) (elements : List Expr)
  | missing
deriving Inhabited, Repr

/-- **A parameter of a function.** -/
structure Param where
  type : Token
  name : Token
deriving DecidableEq, Repr

/-- **Statements.** -/
inductive Stmt where
  /-- 吾有 `type` 曰 `name` 其值 `value` 也 -/
  | declare (keyword type name : Token) (value : Option Expr)
  /-- A parameter where a statement is expected. -/
  | param (p : Param)
  /-- 有術 `name` 必先得 `params` `body` 之術也 -/
  | function (keyword name : Token) (params : List Param) (body : List Stmt)
  /-- 若 `condition` 者 `yes` 若非 `no` 云云 -/
  | conditional (keyword : Token) (condition : Expr) (yes no : List Stmt)
  /-- 恆為是 `body` 云云 -/
  | loop (keyword : Token) (body : List Stmt)
  /-- 云 `value` -/
  | print (keyword : Token) (value : Expr)
  /-- 乃得 `value` -/
  | returns (keyword : Token) (value : Option Expr)
  /-- `name` 其值 `value` -/
  | assign (name : Token) (value : Expr)
  /-- 乃止 -/
  | breaks (keyword : Token)
  /-- An expression, in a source always a call, for its effect. -/
  | perform (keyword : Token) (value : Expr)
  | missing
deriving Inhabited, Repr

/-- **A program** is the list of its statements. -/
abbrev Program := List Stmt

end Guwen
