/-
**Scopes: which names are declared at a place, and as what.**

A scope is a stack of frames above the global one, which starts with the builtins. A name is
declared in the innermost frame only, once; it is looked up from the innermost frame outwards.

* `Scope.define` adds a name to the innermost frame, unless it holds the name already.
* `Scope.find?` is the innermost declaration of a name.
* `Scope.enter` and `Scope.leave` open and close a frame; the global one stays.
-/
import Guwen.Builtin

namespace Guwen

/-- **The symbols of one block,** the latest first. -/
abbrev Frame := List Symbol

namespace Frame

/-- The symbol of a name in the frame. -/
def find? (frame : Frame) (name : Text) : Option Symbol := List.find? (·.name == name) frame

end Frame

/-- **The frames at a place:** the open blocks, the innermost first, and the global frame. -/
structure Scope where
  blocks : List Frame
  globals : Frame
deriving DecidableEq, Repr

namespace Scope

/-- The scope at the beginning of a program. -/
def initial : Scope := ⟨[], Builtin.all.map Builtin.symbol⟩

/-- How many blocks are open. -/
def depth (scope : Scope) : Nat := scope.blocks.length

/-- The innermost frame. -/
def current (scope : Scope) : Frame := scope.blocks.headD scope.globals

/-- The scope with a fresh innermost block. -/
def enter (scope : Scope) : Scope := { scope with blocks := [] :: scope.blocks }

/-- Without the innermost block; at the top level nothing changes. -/
def leave (scope : Scope) : Scope := { scope with blocks := scope.blocks.tail }

/-- A symbol put into the innermost frame. -/
def push (scope : Scope) (symbol : Symbol) : Scope :=
  match scope.blocks with
  | [] => { scope with globals := symbol :: scope.globals }
  | frame :: outer => { scope with blocks := (symbol :: frame) :: outer }

/-- **A name declared in the innermost frame:** the new scope and the symbol, or nothing when the
frame holds the name. -/
def define (scope : Scope) (name type : Text) (kind : SymbolKind) (position : Position) :
    Option (Scope × Symbol) :=
  match scope.current.find? name with
  | some _ => none
  | none =>
    let symbol : Symbol := ⟨name, type, kind, scope.depth, false, position⟩
    some (scope.push symbol, symbol)

/-- **What a name stands for:** its declaration in the innermost frame that holds one. -/
def find? (scope : Scope) (name : Text) : Option Symbol :=
  (scope.blocks ++ [scope.globals]).findSome? (·.find? name)

/-- The names of the innermost frame, in the order of their bytes. -/
def names (scope : Scope) : List Text :=
  (scope.current.map (·.name)).mergeSort fun a b => a ≤ b

end Scope

end Guwen
