/-
**The listing of a tree: one parenthesised form for each statement.**

`Program.listing` writes every top-level statement on a line of its own, inner nodes in parentheses
behind the name of their kind.
-/
import Guwen.Tree

namespace Guwen

/-- What stands for a missing node. -/
def missingForm : Text := "(unknown <nil>)"

mutual

/-- **The form of an expression.** -/
def Expr.form : Expr → Text
  | .binary _ op left right => "(" ++ op.name ++ " " ++ left.form ++ " " ++ right.form ++ ")"
  | .literal _ kind text => if kind = .string then "\"" ++ text ++ "\"" else text
  | .use name _ => name.lexeme
  | .call _ callee arguments _ => "(call " ++ callee.lexeme ++ exprForms arguments ++ ")"
  | .list _ elements => "(list" ++ exprForms elements ++ ")"
  | .missing => missingForm

/-- The forms of expressions, each behind a space. -/
def exprForms : List Expr → Text
  | [] => []
  | e :: es => " " ++ e.form ++ exprForms es

end

namespace Param

/-- The form of a parameter. -/
def form (p : Param) : Text := "(param " ++ p.type.lexeme ++ " " ++ p.name.lexeme ++ ")"

end Param

mutual

/-- **The form of a statement.** An empty `no` branch is left out. -/
def Stmt.form : Stmt → Text
  | .declare _ type name none => "(var " ++ type.lexeme ++ " " ++ name.lexeme ++ ")"
  | .declare _ type name (some value) =>
    "(var " ++ type.lexeme ++ " " ++ name.lexeme ++ " " ++ value.form ++ ")"
  | .param p => p.form
  | .function _ name params body =>
    "(fn " ++ name.lexeme ++ " (" ++ Text.join " " (params.map Param.form) ++ ")"
      ++ stmtForms body ++ ")"
  | .conditional _ condition yes no =>
    "(if " ++ condition.form ++ " (then" ++ stmtForms yes ++ ")"
      ++ (if no.isEmpty then [] else " (else" ++ stmtForms no ++ ")" : Text) ++ ")"
  | .loop _ body => "(loop" ++ stmtForms body ++ ")"
  | .print _ value => "(print " ++ value.form ++ ")"
  | .returns _ none => "(return)"
  | .returns _ (some value) => "(return " ++ value.form ++ ")"
  | .assign name value => "(set " ++ name.lexeme ++ " " ++ value.form ++ ")"
  | .breaks _ => "(break)"
  | .perform _ value => value.form
  | .missing => missingForm

/-- The forms of statements, each behind a space. -/
def stmtForms : List Stmt → Text
  | [] => []
  | s :: ss => " " ++ s.form ++ stmtForms ss

end

/-- **The listing of a program.** -/
def Program.listing (p : Program) : Text := p.flatMap fun s => s.form ++ "\n"

end Guwen
