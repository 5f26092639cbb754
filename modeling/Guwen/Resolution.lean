/-
**Resolution: every name is tied to the declaration it stands for.**

The walk goes through a program in order and keeps the scope. It marks each use and each call with
its symbol; a declaration comes after its initial value, a function before its parameters and body,
so that it can call itself. The walk stops at the first fault, and what was marked before it stays
marked: the outcome always has a tree.

* `Expr.resolve` marks the names of an expression.
* `Stmt.resolve` marks those of a statement and gives the scope after it.
* `Program.resolve` starts with the builtins alone.
-/
import Guwen.Fault
import Guwen.Scope
import Guwen.Tree

namespace Guwen

namespace Scope

/-- The refusal of a name at this place. -/
def refuse (scope : Scope) (cause : Diagnostic.Cause) (name : Token) : Fault :=
  .refused (.atToken .semantic cause (.scope scope.depth) name)

/-- The symbol of a name that is used. -/
def lookup (scope : Scope) (name : Token) : Except Fault Symbol :=
  match scope.find? name.lexeme with
  | some symbol => .ok symbol
  | none => .error (scope.refuse .undeclared name)

/-- `count` arguments are too many for the builtin of this name. -/
def exceedsArity (name : Text) (count : Nat) : Bool :=
  (((Builtin.find? name).bind (·.arity)).any (· < count))

/-- **The symbol of a callee.** It has to be a function, and a builtin takes only so many
arguments. -/
def lookupCallee (scope : Scope) (callee : Token) (count : Nat) : Except Fault Symbol := do
  let symbol ← scope.lookup callee
  if symbol.kind ≠ .function then .error (scope.refuse .notCallable callee)
  else if symbol.builtin && exceedsArity callee.lexeme count then
    .error (scope.refuse .tooManyArguments callee)
  else return symbol

/-- **The symbol of a name that is assigned to,** which is neither a function nor a builtin. -/
def lookupTarget (scope : Scope) (name : Token) : Except Fault Symbol := do
  let symbol ← scope.lookup name
  if symbol.kind = .function || symbol.builtin then .error (scope.refuse .notAssignable name)
  else return symbol

/-- **A name declared at this place.** -/
def declare (scope : Scope) (name : Token) (type : Text) (kind : SymbolKind) :
    Except Fault (Scope × Symbol) :=
  match scope.define name.lexeme type kind name.position with
  | some declared => .ok declared
  | none => .error (scope.refuse .redeclared name)

end Scope

/-! ### Expressions -/

mutual

/-- **An expression with its names marked,** and the fault that stopped the walk, if any. -/
def Expr.resolve (scope : Scope) : Expr → Expr × Option Fault
  | .binary token op left right =>
    match left.resolve scope with
    | (left, some fault) => (.binary token op left right, some fault)
    | (left, none) =>
      let (right, fault) := right.resolve scope
      (.binary token op left right, fault)
  | .literal start kind text => (.literal start kind text, none)
  | .use name mark =>
    match scope.lookup name with
    | .ok symbol => (.use name (some symbol), none)
    | .error fault => (.use name mark, some fault)
  | .call keyword callee arguments mark =>
    match scope.lookupCallee callee arguments.length with
    | .ok symbol =>
      let (arguments, fault) := resolveExprs scope arguments
      (.call keyword callee arguments (some symbol), fault)
    | .error fault => (.call keyword callee arguments mark, some fault)
  | .list start elements =>
    let (elements, fault) := resolveExprs scope elements
    (.list start elements, fault)
  | .missing => (.missing, some (.missingExpression .analysis))

/-- Expressions one after another, up to the first fault. -/
def resolveExprs (scope : Scope) : List Expr → List Expr × Option Fault
  | [] => ([], none)
  | e :: es =>
    match e.resolve scope with
    | (e, some fault) => (e :: es, some fault)
    | (e, none) =>
      let (es, fault) := resolveExprs scope es
      (e :: es, fault)

end

/-- An expression that may be left out. -/
def resolveOption (scope : Scope) : Option Expr → Option Expr × Option Fault
  | none => (none, none)
  | some e =>
    let (e, fault) := e.resolve scope
    (some e, fault)

/-! ### Statements -/

/-- **A part of a program after the walk:** its marked tree, the scope behind it, the symbols it
declared in order, and the fault that stopped the walk, if any. -/
structure Resolved (α : Type) where
  tree : α
  scope : Scope
  declared : List Symbol
  fault : Option Fault

namespace Resolved

/-- The same with the tree changed. -/
def map {α β : Type} (f : α → β) (r : Resolved α) : Resolved β := { r with tree := f r.tree }

/-- The same behind the end of its block. -/
def leave {α : Type} (r : Resolved α) : Resolved α := { r with scope := r.scope.leave }

/-- The same after some earlier declarations. -/
def after {α : Type} (declared : List Symbol) (r : Resolved α) : Resolved α :=
  { r with declared := declared ++ r.declared }

/-- Only expressions were walked: the scope is as it was. -/
def ofMarked {α : Type} (scope : Scope) (marked : α × Option Fault) : Resolved α :=
  ⟨marked.1, scope, [], marked.2⟩

end Resolved

/-- A name declared, with `tree` as the tree in any case. -/
def resolveDeclared {α : Type} (scope : Scope) (tree : α) (name : Token) (type : Text)
    (kind : SymbolKind) : Resolved α :=
  match scope.declare name type kind with
  | .ok (scope, symbol) => ⟨tree, scope, [symbol], none⟩
  | .error fault => ⟨tree, scope, [], some fault⟩

/-- The parameters of a function, declared in order. -/
def resolveParams (scope : Scope) : List Param → Resolved Unit
  | [] => ⟨(), scope, [], none⟩
  | p :: ps =>
    let first := resolveDeclared scope () p.name p.type.lexeme .parameter
    match first.fault with
    | some _ => first
    | none => (resolveParams first.scope ps).after first.declared

mutual

/-- **A statement with its names marked.** -/
def Stmt.resolve (scope : Scope) : Stmt → Resolved Stmt
  | .declare keyword type name value =>
    let (value, fault) := resolveOption scope value
    match fault with
    | some fault => ⟨.declare keyword type name value, scope, [], some fault⟩
    | none => resolveDeclared scope (.declare keyword type name value) name type.lexeme .value
  | .param p => resolveDeclared scope (.param p) p.name p.type.lexeme .parameter
  | .function keyword name params body =>
    let head := resolveDeclared scope () name Builtin.functionType .function
    match head.fault with
    | some _ => head.map fun _ => .function keyword name params body
    | none =>
      let inner := resolveParams head.scope.enter params
      match inner.fault with
      | some _ =>
        ((inner.map fun _ => .function keyword name params body).after head.declared).leave
      | none =>
        ((((resolveStmts inner.scope body).map fun body => .function keyword name params body).after
          inner.declared).after head.declared).leave
  | .conditional keyword condition yes no =>
    let (condition, fault) := condition.resolve scope
    match fault with
    | some fault => ⟨.conditional keyword condition yes no, scope, [], some fault⟩
    | none =>
      let first := (resolveStmts scope.enter yes).leave
      match first.fault with
      | some _ => first.map fun yes => .conditional keyword condition yes no
      | none =>
        ((resolveStmts first.scope.enter no).leave.map fun no =>
          .conditional keyword condition first.tree no).after first.declared
  | .loop keyword body => ((resolveStmts scope.enter body).leave).map fun body => .loop keyword body
  | .print keyword value => (Resolved.ofMarked scope (value.resolve scope)).map (.print keyword)
  | .returns keyword value =>
    (Resolved.ofMarked scope (resolveOption scope value)).map (.returns keyword)
  | .assign name value =>
    match scope.lookupTarget name with
    | .ok _ => (Resolved.ofMarked scope (value.resolve scope)).map (.assign name)
    | .error fault => ⟨.assign name value, scope, [], some fault⟩
  | .breaks keyword => ⟨.breaks keyword, scope, [], none⟩
  | .perform keyword value => (Resolved.ofMarked scope (value.resolve scope)).map (.perform keyword)
  | .missing => ⟨.missing, scope, [], some (.missingStatement .analysis)⟩

/-- Statements one after another, up to the first fault. -/
def resolveStmts (scope : Scope) : List Stmt → Resolved (List Stmt)
  | [] => ⟨[], scope, [], none⟩
  | s :: ss =>
    let first := s.resolve scope
    match first.fault with
    | some _ => first.map (· :: ss)
    | none => ((resolveStmts first.scope ss).map (first.tree :: ·)).after first.declared

end

/-- **A program with its names marked.** -/
def Program.resolve (p : Program) : Resolved Program := resolveStmts .initial p

/-- The listing of the declared symbols, or the fault that stopped the walk. -/
def Resolved.listing {α : Type} (r : Resolved α) : Except Fault Text :=
  match r.fault with
  | none => .ok (Symbol.listing r.declared)
  | some fault => .error fault

end Guwen
