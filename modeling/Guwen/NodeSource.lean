/-
**Source for the nodes of a syntax tree.**

From definitions such as `Print: keyword *token, value expr` this writes the declarations of the
node types: one interface for the base, and for each definition a struct with its fields, a method
that gives the token the node starts at, which is its first field, and a marker method.

* `Definition.ofText` reads a definition; it fails without a colon, a name or a first field.
* `source` writes the declarations of a list of definitions.
* `formatted` is the same with the fields in columns, and `run` the command that prints it.
-/
import Guwen.Command.Outcome
import Guwen.Fault
import Guwen.Text.Blank
import Guwen.Text.Lowercase

namespace Guwen

namespace NodeSource

/-! ### Definitions -/

/-- **A node type:** its name, its fields and the name of its first field. -/
structure Definition where
  initial : UInt8
  rest : Text
  fields : List Text
  first : Text
deriving DecidableEq, Repr

namespace Definition

/-- **A definition read from its text,** `name: field, field, …`. What follows a second colon does
not count. -/
def ofText (t : Text) : Except Fault Definition :=
  match List.splitOn 0x3A t with
  | name :: body :: _ =>
    match Text.trim name with
    | [] => .error (.outOfRange 0 0)
    | initial :: rest =>
      let pieces := List.splitOn 0x2C (Text.trim body)
      match pieces.head?.bind Text.firstWord? with
      | none => .error (.outOfRange 0 0)
      | some first => .ok ⟨initial, rest, pieces.map Text.trim, first⟩
  | pieces => .error (.outOfRange 1 pieces.length)

/-- The name of the struct: the definition's with its first byte, taken for a character, in lower
case, and the base behind it. -/
def typeName (d : Definition) (base : Text) : Text :=
  Text.ofChars [lowerChar (Char.ofNat d.initial.toNat)] ++ d.rest ++ base

end Definition

/-! ### Declarations -/

/-- What comes before the structs. -/
def header (base : Text) : Text :=
  "// Code generated by cmd/ast; DO NOT EDIT.\n\npackage internal\n\ntype " ++ base.lower
    ++ " interface \x7b\n\tat() *token\n\t" ++ base.lower ++ "Node()\n\x7d\n\n"

/-- A line inside a struct. -/
def fieldLine (field : Text) : Text := "\t" ++ field ++ "\n"

/-- The declarations of one definition, its fields written by `layout`. -/
def declarations (layout : List Text → List Text) (base : Text) (d : Definition) : Text :=
  let name := d.typeName base
  "type " ++ name ++ " struct \x7b\n"
    ++ (layout d.fields).flatMap fieldLine
    ++ "\x7d\n\nfunc (s *" ++ name ++ ") at() *token \x7b\n\treturn s." ++ d.first
    ++ "\n\x7d\n\nfunc (s *" ++ name ++ ") " ++ base.lower ++ "Node() \x7b\x7d\n\n"

/-- The declarations of definitions, in order. -/
def sections (layout : List Text → List Text) (base : Text) : List Text → Except Fault Text
  | [] => .ok []
  | t :: ts => do
    let d ← Definition.ofText t
    let rest ← sections layout base ts
    return declarations layout base d ++ rest

/-- **The source of a list of definitions.** -/
def source (base : Text) (definitions : List Text) : Except Fault Text := do
  let body ← sections id base definitions
  return header base ++ body

/-! ### Columns -/

/-- The name of a field and its type. -/
def fieldParts (field : Text) : Text × Text :=
  let name := field.takeWhile (· != 0x20)
  (name, Text.trim (field.drop name.length))

/-- Fields with their types in one column. -/
def columns (fields : List Text) : List Text :=
  let parts := fields.map fieldParts
  let width := (parts.map (·.1.length)).foldl max 0
  parts.map fun (name, type) => name ++ List.replicate (width + 1 - name.length) 0x20 ++ type

/-- **The source with its fields in columns** and no empty line at the end. -/
def formatted (base : Text) (definitions : List Text) : Except Fault Text := do
  let body ← sections columns base definitions
  return (header base ++ body).dropLast

/-! ### The command -/

/-- The statements of the language. -/
def statementDefinitions : List Text :=
  ["Var: keyword *token, typ *token, name *token, initializer expr",
   "Param: typ *token, name *token",
   "Fn: keyword *token, name *token, params []*paramStmt, body []stmt",
   "If: keyword *token, condition expr, thenBranch []stmt, elseBranch []stmt",
   "Loop: keyword *token, body []stmt",
   "Print: keyword *token, value expr",
   "Return: keyword *token, value expr",
   "Assign: name *token, value expr",
   "Break: keyword *token",
   "Expr: keyword *token, expression expr"]

/-- The expressions of the language. -/
def expressionDefinitions : List Text :=
  ["Binary: operator *token, left expr, op operator, right expr",
   "Literal: start *token, text string, kind tokenType",
   "Variable: name *token, resolved *symbol",
   "Call: keyword *token, callee *token, arguments []expr, resolved *symbol",
   "List: start *token, elements []expr"]

/-- The definitions of a base, if it is one of the two. -/
def definitionsOf? (base : Text) : Option (List Text) :=
  if base = ("Stmt" : Text) then some statementDefinitions
  else if base = ("Expr" : Text) then some expressionDefinitions
  else none

/-- **The command:** prints the source of the base that is its only argument. -/
def run : List Text → Outcome
  | [base] => match definitionsOf? base with
    | none => .failure "Usage: ast Stmt|Expr\n"
    | some definitions => match formatted base definitions with
      | .ok text => .success text
      | .error fault => .failure (fault.message ++ "\n")
  | _ => .failure "Usage: ast Stmt|Expr\n"

end NodeSource

end Guwen
