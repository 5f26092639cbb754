/-
**Generation: programs as C# compilation units.**

Each statement gives marks for the layout, each expression a text. A name that is resolved to a
declaration of the program is written as an identifier; an unresolved name, or one resolved to a
builtin, is written as the builtin it names, if there is one of the right kind.

* `Expr.code` is the code of an expression.
* `Stmt.marks` are the marks of a statement.
* `Program.code` is the whole unit. It fails only on a tree with a node missing.
-/
import Guwen.Builtin
import Guwen.Code.Identifier
import Guwen.Code.Layout
import Guwen.Code.Literal
import Guwen.Fault
import Guwen.Options
import Guwen.Tree

namespace Guwen

namespace Builtin

/-- **The builtin that a name of some kind stands for,** when it is resolved to `symbol`. -/
def standsFor? (name : Text) (symbol : Option Symbol) (kind : SymbolKind) : Option Builtin :=
  if symbol.any (!·.builtin) then none
  else (find? name).filter (·.kind == kind)

end Builtin

/-! ### Expressions -/

mutual

/-- **The code of an expression.** -/
def Expr.code : Expr → Except Fault Text
  | .binary _ op left right => do
    let left ← left.code
    let right ← right.code
    return "(" ++ left ++ " " ++ op.sign ++ " " ++ right ++ ")"
  | .literal _ kind text => return if kind = .string then Code.quote text else text
  | .use name symbol =>
    match Builtin.standsFor? name.lexeme symbol .value with
    | some b => return b.render []
    | none => return Code.identifier name.lexeme
  | .call _ callee arguments symbol => do
    let values ← exprCodes arguments
    match Builtin.standsFor? callee.lexeme symbol .function with
    | some b => return b.render values
    | none => return Code.identifier callee.lexeme ++ "(" ++ Text.join ", " values ++ ")"
  | .list _ elements => do
    let values ← exprCodes elements
    return "new List<object> \x7b " ++ Text.join ", " values ++ " \x7d"
  | .missing => .error (.missingExpression .generation)

/-- The codes of expressions, in order. -/
def exprCodes : List Expr → Except Fault (List Text)
  | [] => return []
  | e :: es => do
    let code ← e.code
    let codes ← exprCodes es
    return code :: codes

end

/-- The code of an expression that may be left out. -/
def optionCode (absent : Text) : Option Expr → Except Fault Text
  | none => return absent
  | some e => e.code

/-! ### Statements -/

/-- A parameter in the head of a function. -/
def Param.code (p : Param) : Text :=
  Code.typeOf p.type.lexeme ++ " " ++ Code.identifier p.name.lexeme

/-- A statement that returns. -/
def Stmt.isReturn : Stmt → Bool
  | .returns _ _ => true
  | _ => false

/-- What a function returns when its last statement does not. -/
def closingReturn (body : List Stmt) : List Code.Mark :=
  if body.getLast?.any Stmt.isReturn then [] else [.line "return null;"]

mutual

/-- **The marks of a statement.** -/
def Stmt.marks : Stmt → Except Fault (List Code.Mark)
  | .declare _ type name value => do
    let type := Code.typeOf type.lexeme
    let value ← optionCode (Code.defaultOf type) value
    return [.line (type ++ " " ++ Code.identifier name.lexeme ++ " = " ++ value ++ ";")]
  | .param _ => return []
  | .function _ name params body => do
    let inner ← stmtMarks body
    let head : Text := "dynamic " ++ Code.identifier name.lexeme ++ "("
      ++ Text.join ", " (params.map Param.code) ++ ")"
    return .line head :: Code.Mark.enclose (inner ++ closingReturn body)
  | .conditional _ condition yes no => do
    let condition ← condition.code
    let yes ← stmtMarks yes
    let head : Code.Mark := .line ("if (" ++ condition ++ ")")
    if no.isEmpty then return head :: Code.Mark.enclose yes
    else do
      let no ← stmtMarks no
      return head :: Code.Mark.enclose yes ++ .line "else" :: Code.Mark.enclose no
  | .loop _ body => do
    let inner ← stmtMarks body
    return .line "while (true)" :: Code.Mark.enclose inner
  | .print _ value => do
    let value ← value.code
    return [.line ("Console.WriteLine(" ++ value ++ ");")]
  | .returns _ value => do
    let value ← optionCode "null" value
    return [.line ("return " ++ value ++ ";")]
  | .assign name value => do
    let value ← value.code
    return [.line (Code.identifier name.lexeme ++ " = " ++ value ++ ";")]
  | .breaks _ => return [.line "break;"]
  | .perform _ value => do
    let value ← value.code
    return [.line (value ++ ";")]
  | .missing => .error (.missingStatement .generation)

/-- The marks of statements, in order. -/
def stmtMarks : List Stmt → Except Fault (List Code.Mark)
  | [] => return []
  | s :: ss => do
    let first ← s.marks
    let rest ← stmtMarks ss
    return first ++ rest

end

/-! ### Programs -/

namespace Code

/-- What stands around the statements of a program. -/
def wrap (options : Options) (inner : List Mark) : List Mark :=
  .line "using System;" :: .line "using System.Collections.Generic;" :: .line "" ::
    .line ("namespace " ++ options.space) :: Mark.enclose
      (.line ("public class " ++ options.className) :: Mark.enclose
        (.line "public static void Main()" :: Mark.enclose inner))

end Code

/-- **The C# compilation unit of a program.** -/
def Program.code (options : Options) (p : Program) : Except Fault Text := do
  let options := options.withDefaults
  let inner ← stmtMarks p
  return Code.Mark.layout options.indent 0 (Code.wrap options inner)

end Guwen
