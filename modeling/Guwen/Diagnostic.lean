/-
**Diagnostics: why a source is refused, and where.**

A diagnostic has a kind, a cause, the place and the lexeme of the token at fault, and the context it
stands in. `Diagnostic.message` is its full wording; `Diagnostic.wording` is the same from the
parts.
-/
import Guwen.Token

namespace Guwen

namespace Diagnostic

/-- **The kinds of diagnostics,** one for each way of reading a source. -/
inductive Kind where
  | lexical
  | syntactic
  | semantic
deriving DecidableEq, Repr

/-- The name of the kind. -/
def Kind.text : Kind → Text
  | lexical => "lexical ambiguity"
  | syntactic => "syntax error"
  | semantic => "semantic error"

/-- **The causes of a refusal.** -/
inductive Cause where
  | invalidNumeral
  | expectedType
  | expectedNamed
  | expectedName
  | emptyName
  | expectedClose
  | expectedThereupon
  | expectedBlockEnd
  | expectedFunctionEnd
  | functionNameMismatch
  | expectedValue
  | expectedExpression
  | expectedCallee
  | listOutsideList
  | undefinedStatement
  | onlyInsideLoop
  | onlyInsideFunction
  | undeclared
  | redeclared
  | notCallable
  | notAssignable
  | tooManyArguments
deriving DecidableEq, Repr

/-- The wording of the cause. -/
def Cause.text : Cause → Text
  | invalidNumeral => "Unrecognized numeral"
  | expectedType => "Expected type (一數, 一言 or 一列)"
  | expectedNamed => "Expected '曰' before name"
  | expectedName => "Expected name in 「」"
  | emptyName => "Name cannot be empty"
  | expectedClose => "Expected '也' at end of statement"
  | expectedThereupon => "Expected '者' after condition"
  | expectedBlockEnd => "Expected '云云' at end of block"
  | expectedFunctionEnd => "Expected '之術也' at end of function"
  | functionNameMismatch => "Name after '是謂' does not match function"
  | expectedValue => "Expected '其值' after variable"
  | expectedExpression => "Expected expression"
  | expectedCallee => "Expected function after '施'"
  | listOutsideList => "Only 一列 can be initialized with '、'"
  | undefinedStatement => "Undefined statement"
  | onlyInsideLoop => "Can only be used inside a loop"
  | onlyInsideFunction => "Can only be used inside a function"
  | undeclared => "Undeclared name"
  | redeclared => "Name already declared in this scope"
  | notCallable => "Name is not a function"
  | notAssignable => "Cannot assign to a function or builtin"
  | tooManyArguments => "Too many arguments for builtin"

/-- **The context of a diagnostic:** the innermost statement not yet finished, or the depth of the
scope. -/
inductive Context where
  | none
  | program
  | declaration
  | print
  | conditional
  | loop
  | function
  | returns
  | breaks
  | call
  | assignment
  | scope (depth : Nat)
deriving DecidableEq, Repr

/-- The wording of the context. -/
def Context.text : Context → Text
  | none => ""
  | program => "program"
  | declaration => "variable declaration"
  | print => "print"
  | conditional => "conditional"
  | loop => "loop"
  | function => "function declaration"
  | returns => "return"
  | breaks => "break"
  | call => "call"
  | assignment => "assignment"
  | scope 0 => "global scope"
  | scope depth => "scope " ++ Text.ofNat depth

end Diagnostic

/-- **Why a source is refused, and where.** -/
structure Diagnostic where
  kind : Diagnostic.Kind
  cause : Diagnostic.Cause
  position : Position
  lexeme : Text
  context : Diagnostic.Context
deriving DecidableEq, Repr

namespace Diagnostic

/-- The wording of a diagnostic with the given parts. An empty context and an empty lexeme are left
out. -/
def wording (kind : Kind) (position : Position) (context cause lexeme : Text) : Text :=
  kind.text ++ " on line " ++ Text.ofInt position.line ++ ", column " ++ Text.ofInt position.column
    ++ (if context.isEmpty then [] else " in " ++ context : Text)
    ++ ": " ++ cause
    ++ (if lexeme.isEmpty then [] else " ('" ++ lexeme ++ "')" : Text)

/-- **The full wording of a diagnostic.** -/
def message (d : Diagnostic) : Text :=
  wording d.kind d.position d.context.text d.cause.text d.lexeme

/-- What the user is shown: the line first, then the message on a line of its own. -/
def report (d : Diagnostic) : Text :=
  "Error on line " ++ Text.ofInt d.position.line ++ "\n\t" ++ d.message ++ "\n"

/-- A diagnostic about a token. -/
def atToken (kind : Kind) (cause : Cause) (context : Context) (token : Token) : Diagnostic :=
  ⟨kind, cause, token.position, token.lexeme, context⟩

end Diagnostic

end Guwen
