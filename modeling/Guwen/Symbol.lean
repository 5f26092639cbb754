/-
**Symbols: what a name stands for.**

A symbol records the name, the declared type, whether it is a variable, a function or a parameter,
the depth of the scope it was declared in, and where. `Symbol.render` is its listing form.
-/
import Guwen.Token

namespace Guwen

/-- **What a name was declared as.** -/
inductive SymbolKind where
  | value
  | function
  | parameter
  /-- None of the three. -/
  | other
deriving DecidableEq, Repr

namespace SymbolKind

/-- The name of the kind. -/
def text : SymbolKind → Text
  | value => "variable"
  | function => "function"
  | parameter => "parameter"
  | other => "unknown"

/-- The kind with a given number. -/
def ofCode : Int → SymbolKind
  | 0 => value
  | 1 => function
  | 2 => parameter
  | _ => other

end SymbolKind

/-- **What a name stands for.** -/
structure Symbol where
  name : Text
  type : Text
  kind : SymbolKind
  /-- How many scopes enclose the declaration. -/
  depth : Nat
  /-- Part of the language, not declared by the program. -/
  builtin : Bool
  /-- Where the name was declared; a builtin is declared nowhere. -/
  position : Position
deriving DecidableEq, Repr

namespace Symbol

/-- The listing form of a symbol. -/
def render (s : Symbol) : Text :=
  "[" ++ s.kind.text ++ "] " ++ s.name ++ " " ++ s.type ++ " depth " ++ Text.ofNat s.depth ++ " ("
    ++ s.position.render ++ ")"

/-- One line for each symbol. -/
def listing (symbols : List Symbol) : Text := symbols.flatMap fun s => s.render ++ "\n"

end Symbol

end Guwen
