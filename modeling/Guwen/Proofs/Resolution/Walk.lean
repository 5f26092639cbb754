/-
**Resolution as a list of acts.**

What the walk over a tree does to the scope is a list of acts in the order of the walk: a block is
opened or closed, a name is declared, used, assigned to or called. Resolution that comes to no
missing node is the run of these acts, one after another, up to the first fault.

* `Stmt.acts` — the acts of a statement: an initial value before its name, a function before its
  parameters and body, a target before its value, a callee before its arguments.
* `attests_resolveStmts` — only a missing node stops the walk other than by a refusal, and a walk
  without a fault has seen the whole tree.
* **`runs_of_refusal`** — the fault, the scope and the declared symbols of resolution are those of
  the run, and the marks of the resolved tree are those that the run gives.
-/
import Guwen.Resolution

namespace Guwen

/-! ### Trees without a missing node -/

mutual

/-- **No part of the expression is missing.** -/
def Expr.complete : Expr → Bool
  | .binary _ _ left right => left.complete && right.complete
  | .literal .. => true
  | .use .. => true
  | .call _ _ arguments _ => exprsComplete arguments
  | .list _ elements => exprsComplete elements
  | .missing => false

/-- No part of the expressions is missing. -/
def exprsComplete : List Expr → Bool
  | [] => true
  | e :: es => e.complete && exprsComplete es

end

/-- The expression, if there is one, is complete. -/
def optionComplete : Option Expr → Bool
  | none => true
  | some e => e.complete

mutual

/-- **No part of the statement is missing.** -/
def Stmt.complete : Stmt → Bool
  | .declare _ _ _ value => optionComplete value
  | .param _ => true
  | .function _ _ _ body => stmtsComplete body
  | .conditional _ condition yes no => condition.complete && stmtsComplete yes && stmtsComplete no
  | .loop _ body => stmtsComplete body
  | .print _ value => value.complete
  | .returns _ value => optionComplete value
  | .assign _ value => value.complete
  | .breaks _ => true
  | .perform _ value => value.complete
  | .missing => false

/-- No part of the statements is missing. -/
def stmtsComplete : List Stmt → Bool
  | [] => true
  | s :: ss => s.complete && stmtsComplete ss

end

/-! ### Acts -/

/-- **What the walk does at one place.** A use and a call carry the mark of their node. -/
inductive Act where
  | enter
  | leave
  | declare (name : Token) (type : Text) (kind : SymbolKind)
  | use (name : Token) (mark : Option Symbol)
  | target (name : Token)
  | call (callee : Token) (count : Nat) (mark : Option Symbol)
deriving DecidableEq, Repr

mutual

/-- **The acts of an expression.** -/
def Expr.acts : Expr → List Act
  | .binary _ _ left right => left.acts ++ right.acts
  | .literal .. => []
  | .use name mark => [.use name mark]
  | .call _ callee arguments mark => .call callee arguments.length mark :: exprActs arguments
  | .list _ elements => exprActs elements
  | .missing => []

/-- The acts of expressions one after another. -/
def exprActs : List Expr → List Act
  | [] => []
  | e :: es => e.acts ++ exprActs es

end

/-- The acts of an expression that may be left out. -/
def optionActs : Option Expr → List Act
  | none => []
  | some e => e.acts

/-- The acts inside a block of their own. -/
def blockActs (inner : List Act) : List Act := .enter :: inner ++ [.leave]

/-- A parameter is declared. -/
def Param.act (p : Param) : Act := .declare p.name p.type.lexeme .parameter

mutual

/-- **The acts of a statement.** -/
def Stmt.acts : Stmt → List Act
  | .declare _ type name value => optionActs value ++ [.declare name type.lexeme .value]
  | .param p => [p.act]
  | .function _ name params body =>
    .declare name Builtin.functionType .function ::
      blockActs (params.map Param.act ++ stmtActs body)
  | .conditional _ condition yes no =>
    condition.acts ++ (blockActs (stmtActs yes) ++ blockActs (stmtActs no))
  | .loop _ body => blockActs (stmtActs body)
  | .print _ value => value.acts
  | .returns _ value => optionActs value
  | .assign name value => .target name :: value.acts
  | .breaks _ => []
  | .perform _ value => value.acts
  | .missing => []

/-- The acts of statements one after another. -/
def stmtActs : List Stmt → List Act
  | [] => []
  | s :: ss => s.acts ++ stmtActs ss

end

/-! ### Running acts -/

namespace Act

/-- **The scope after an act,** or the fault that it meets. -/
def run (scope : Scope) : Act → Except Fault Scope
  | enter => .ok scope.enter
  | leave => .ok scope.leave
  | declare name type kind => (scope.declare name type kind).map Prod.fst
  | use name _ => (scope.lookup name).map fun _ => scope
  | target name => (scope.lookupTarget name).map fun _ => scope
  | call callee count _ => (scope.lookupCallee callee count).map fun _ => scope

/-- The name that an act declares. -/
def declared? : Act → Option Token
  | declare name _ _ => some name
  | _ => none

/-- The symbol that an act declares. -/
def symbol? (scope : Scope) : Act → Option Symbol
  | declare name type kind => (scope.declare name type kind).toOption.map Prod.snd
  | _ => none

/-- The act with the mark that its lookup gives; a lookup that fails leaves the mark. -/
def marked (scope : Scope) : Act → Act
  | use name mark => use name ((scope.lookup name).toOption.or mark)
  | call callee count mark => call callee count ((scope.lookupCallee callee count).toOption.or mark)
  | act => act

end Act

/-- **The scope after some acts,** or the fault of the first one that meets a fault. -/
def walk (scope : Scope) (acts : List Act) : Except Fault Scope := acts.foldlM Act.run scope

/-- The acts with the marks that the run gives them; behind a fault nothing is marked. -/
def markActs (scope : Scope) : List Act → List Act
  | [] => []
  | act :: acts =>
    act.marked scope ::
      match act.run scope with
      | .ok scope => markActs scope acts
      | .error _ => acts

/-- **What acts give one after another,** each at its own scope; behind a fault nothing. -/
def along {α : Type} (give : Scope → Act → Option α) (scope : Scope) : List Act → List α
  | [] => []
  | act :: acts =>
    (give scope act).toList ++
      match act.run scope with
      | .ok scope => along give scope acts
      | .error _ => []

/-- A computation in two steps gives a result when both do. -/
theorem bind_eq_ok {α β : Type} {first : Except Fault α} {next : α → Except Fault β} {b : β} :
    first >>= next = .ok b ↔ ∃ a, first = .ok a ∧ next a = .ok b := by
  cases first with
  | error fault => simp [bind, Except.bind]
  | ok a => simp [bind, Except.bind]

theorem walk_append (scope : Scope) (first rest : List Act) :
    walk scope (first ++ rest) = walk scope first >>= fun scope => walk scope rest :=
  List.foldlM_append

theorem walk_cons (scope : Scope) (act : Act) (rest : List Act) :
    walk scope (act :: rest) = act.run scope >>= fun scope => walk scope rest :=
  List.foldlM_cons

theorem markActs_append (scope : Scope) (first rest : List Act) :
    markActs scope (first ++ rest) = markActs scope first ++
      match walk scope first with
      | .ok scope => markActs scope rest
      | .error _ => rest := by
  induction first generalizing scope with
  | nil => rfl
  | cons act first ih =>
    unfold walk
    simp only [List.cons_append, markActs, List.foldlM_cons]
    cases act.run scope with
    | ok scope => exact congrArg _ (ih scope)
    | error fault => rfl

theorem along_append {α : Type} (give : Scope → Act → Option α) (scope : Scope)
    (first rest : List Act) :
    along give scope (first ++ rest) = along give scope first ++
      match walk scope first with
      | .ok scope => along give scope rest
      | .error _ => [] := by
  induction first generalizing scope with
  | nil => rfl
  | cons act first ih =>
    unfold walk
    simp only [List.cons_append, along, List.foldlM_cons, List.append_assoc]
    cases act.run scope with
    | ok scope => exact congrArg _ (ih scope)
    | error fault => rfl

/-- **The run of some acts:** how it ends, the acts as it marks them and the symbols it declares. -/
structure Runs (scope : Scope) (acts marked : List Act) (declared : List Symbol)
    (outcome : Except Fault Scope) : Prop where
  ends : walk scope acts = outcome
  marks : marked = markActs scope acts
  symbols : declared = along Act.symbol? scope acts

namespace Runs

variable {scope middle : Scope} {first first' rest rest' : List Act}
  {declared declared' : List Symbol} {fault : Fault} {outcome : Except Fault Scope}

theorem nil (scope : Scope) : Runs scope [] [] [] (.ok scope) := ⟨rfl, rfl, rfl⟩

/-- Behind acts without a fault the run goes on. -/
theorem append (start : Runs scope first first' declared (.ok middle))
    (more : Runs middle rest rest' declared' outcome) :
    Runs scope (first ++ rest) (first' ++ rest') (declared ++ declared') outcome := by
  constructor
  · rw [walk_append, start.ends]
    exact more.ends
  · rw [markActs_append, start.ends, start.marks, more.marks]
  · rw [along_append, start.ends, start.symbols, more.symbols]

/-- A fault ends the run. -/
theorem append_error (start : Runs scope first first' declared (.error fault)) (rest : List Act) :
    Runs scope (first ++ rest) (first' ++ rest) declared (.error fault) := by
  constructor
  · rw [walk_append, start.ends]
    rfl
  · rw [markActs_append, start.ends, start.marks]
  · rw [along_append, start.ends, start.symbols, List.append_nil]

theorem single {act act' : Act} (ran : act.run scope = outcome) (marks : act.marked scope = act')
    (symbols : (act.symbol? scope).toList = declared) :
    Runs scope [act] [act'] declared outcome := by
  subst ran marks symbols
  constructor
  · show (act.run scope >>= pure) = act.run scope
    exact bind_pure _
  · unfold markActs
    cases act.run scope <;> rfl
  · unfold along
    cases act.run scope <;> exact (List.append_nil _).symm

end Runs

/-! ### Missing nodes -/

/-- The fault is a refusal; a walk can also stop at a missing node. -/
def Fault.isRefusal : Fault → Bool
  | refused _ => true
  | _ => false

namespace Scope

variable {scope : Scope} {name : Token} {fault : Fault}

theorem isRefusal_of_lookup (failed : scope.lookup name = .error fault) :
    fault.isRefusal = true := by
  unfold lookup at failed
  split at failed <;> cases failed
  rfl

theorem isRefusal_of_lookupCallee {count : Nat}
    (failed : scope.lookupCallee name count = .error fault) : fault.isRefusal = true := by
  unfold lookupCallee at failed
  cases found : scope.lookup name with
  | error fault' =>
    rw [found] at failed
    cases failed
    exact isRefusal_of_lookup found
  | ok symbol =>
    simp only [found, bind, Except.bind] at failed
    split at failed
    · cases failed
      rfl
    · split at failed <;> cases failed
      rfl

theorem isRefusal_of_lookupTarget (failed : scope.lookupTarget name = .error fault) :
    fault.isRefusal = true := by
  unfold lookupTarget at failed
  cases found : scope.lookup name with
  | error fault' =>
    rw [found] at failed
    cases failed
    exact isRefusal_of_lookup found
  | ok symbol =>
    simp only [found, bind, Except.bind] at failed
    split at failed <;> cases failed
    rfl

theorem isRefusal_of_declare {type : Text} {kind : SymbolKind}
    (failed : scope.declare name type kind = .error fault) : fault.isRefusal = true := by
  unfold declare at failed
  split at failed <;> cases failed
  rfl

end Scope

/-- **What the end of a walk attests of the tree:** a complete one is left early only by a refusal,
and one that is walked to its end is complete. -/
structure Attests (complete : Bool) (fault : Option Fault) : Prop where
  refusal : complete = true → fault.all Fault.isRefusal = true
  whole : fault = none → complete = true

namespace Attests

variable {complete complete' : Bool} {fault fault' : Option Fault}

theorem done : Attests true none := ⟨fun _ => rfl, fun _ => rfl⟩

theorem stopped {fault : Fault} (refusal : fault.isRefusal = true) :
    Attests complete (some fault) :=
  ⟨fun _ => refusal, (nomatch ·)⟩

/-- The second part is walked only if the first has no fault. -/
theorem and (first : Attests complete fault) (second : Attests complete' fault') :
    Attests (complete && complete') (fault.or fault') := by
  constructor
  · intro both
    rw [Bool.and_eq_true] at both
    cases fault with
    | none => exact second.refusal both.2
    | some fault => exact first.refusal both.1
  · intro sound
    rw [Option.or_eq_none_iff] at sound
    rw [first.whole sound.1, second.whole sound.2, Bool.and_self]

end Attests

mutual

theorem Expr.attests_resolve (scope : Scope) : ∀ e : Expr, Attests e.complete (e.resolve scope).2
  | .binary token op left right => by
    have both := (left.attests_resolve scope).and (right.attests_resolve scope)
    unfold Expr.resolve
    cases resolved : left.resolve scope with
    | mk left' fault =>
      rw [resolved] at both
      cases fault <;> exact both
  | .literal .. => .done
  | .use name mark => by
    unfold Expr.resolve
    cases found : scope.lookup name with
    | ok symbol => exact .done
    | error fault => exact .stopped (Scope.isRefusal_of_lookup found)
  | .call keyword callee arguments mark => by
    unfold Expr.resolve
    cases found : scope.lookupCallee callee arguments.length with
    | ok symbol => exact attests_resolveExprs scope arguments
    | error fault => exact .stopped (Scope.isRefusal_of_lookupCallee found)
  | .list start elements => attests_resolveExprs scope elements
  | .missing => ⟨(nomatch ·), (nomatch ·)⟩

theorem attests_resolveExprs (scope : Scope) :
    ∀ es : List Expr, Attests (exprsComplete es) (resolveExprs scope es).2
  | [] => .done
  | e :: es => by
    have both := (e.attests_resolve scope).and (attests_resolveExprs scope es)
    unfold resolveExprs
    cases resolved : e.resolve scope with
    | mk e' fault =>
      rw [resolved] at both
      cases fault <;> exact both

end

theorem attests_resolveOption (scope : Scope) (value : Option Expr) :
    Attests (optionComplete value) (resolveOption scope value).2 := by
  cases value with
  | none => exact .done
  | some e => exact e.attests_resolve scope

theorem attests_resolveDeclared {α : Type} (scope : Scope) (tree : α) (name : Token) (type : Text)
    (kind : SymbolKind) : Attests true (resolveDeclared scope tree name type kind).fault := by
  unfold resolveDeclared
  cases declared : scope.declare name type kind with
  | ok both => exact .done
  | error fault => exact .stopped (Scope.isRefusal_of_declare declared)

theorem attests_resolveParams (scope : Scope) (params : List Param) :
    Attests true (resolveParams scope params).fault := by
  induction params generalizing scope with
  | nil => exact .done
  | cons p ps ih =>
    have first := attests_resolveDeclared scope () p.name p.type.lexeme .parameter
    unfold resolveParams
    cases resolved : resolveDeclared scope () p.name p.type.lexeme .parameter with
    | mk tree next declared fault =>
      rw [resolved] at first
      cases fault with
      | none => exact ih next
      | some fault => exact first

mutual

theorem Stmt.attests_resolve (scope : Scope) :
    ∀ s : Stmt, Attests s.complete (s.resolve scope).fault
  | .declare keyword type name value => by
    have first := attests_resolveOption scope value
    unfold Stmt.resolve
    cases resolved : resolveOption scope value with
    | mk value' fault =>
      rw [resolved] at first
      cases fault with
      | some fault => exact first
      | none =>
        have both := first.and (attests_resolveDeclared scope
          (Stmt.declare keyword type name value') name type.lexeme .value)
        rwa [Bool.and_true] at both
  | .param p => attests_resolveDeclared scope (Stmt.param p) p.name p.type.lexeme .parameter
  | .function keyword name params body => by
    have head := attests_resolveDeclared scope () name Builtin.functionType .function
    unfold Stmt.resolve
    cases resolved : resolveDeclared scope () name Builtin.functionType .function with
    | mk tree next declared fault =>
      rw [resolved] at head
      cases fault with
      | some fault => exact .stopped (head.refusal rfl)
      | none =>
        have first := attests_resolveParams next.enter params
        dsimp only
        cases inner : resolveParams next.enter params with
        | mk tree inside declared' fault =>
          rw [inner] at first
          cases fault with
          | some fault => exact .stopped (first.refusal rfl)
          | none => exact attests_resolveStmts inside body
  | .conditional keyword condition yes no => by
    have first := (condition.attests_resolve scope).and (attests_resolveStmts scope.enter yes)
    unfold Stmt.resolve
    cases resolved : condition.resolve scope with
    | mk condition' fault =>
      rw [resolved] at first
      cases branch : resolveStmts scope.enter yes with
      | mk yes' inside declared fault' =>
        rw [branch] at first
        have both := first.and (attests_resolveStmts inside.leave.enter no)
        cases fault with
        | some fault => exact both
        | none => cases fault' <;> exact both
  | .loop keyword body => attests_resolveStmts scope.enter body
  | .print keyword value => value.attests_resolve scope
  | .returns keyword value => attests_resolveOption scope value
  | .assign name value => by
    unfold Stmt.resolve
    cases found : scope.lookupTarget name with
    | ok symbol => exact value.attests_resolve scope
    | error fault => exact .stopped (Scope.isRefusal_of_lookupTarget found)
  | .breaks keyword => .done
  | .perform keyword value => value.attests_resolve scope
  | .missing => ⟨(nomatch ·), (nomatch ·)⟩

/-- **Only a missing node stops the walk without a refusal,** and if nothing stops it none is
missing. -/
theorem attests_resolveStmts (scope : Scope) :
    ∀ ss : List Stmt, Attests (stmtsComplete ss) (resolveStmts scope ss).fault
  | [] => .done
  | s :: ss => by
    have first := s.attests_resolve scope
    unfold resolveStmts
    cases resolved : s.resolve scope with
    | mk tree next declared fault =>
      rw [resolved] at first
      have both := first.and (attests_resolveStmts next ss)
      cases fault <;> exact both

end

/-! ### Resolution is the run of the acts -/

/-- How a walk ended: the scope behind it, or its fault. -/
def Resolved.outcome {α : Type} (r : Resolved α) : Except Fault Scope :=
  match r.fault with
  | none => .ok r.scope
  | some fault => .error fault

theorem length_resolveExprs (scope : Scope) (es : List Expr) :
    (resolveExprs scope es).1.length = es.length := by
  induction es with
  | nil => rfl
  | cons e es ih =>
    unfold resolveExprs
    obtain ⟨e', _ | fault⟩ := e.resolve scope
    · exact congrArg (· + 1) ih
    · rfl

mutual

/-- **The acts of an expression run as its resolution does.** -/
theorem Expr.runs_acts (scope : Scope) :
    ∀ e : Expr, (e.resolve scope).2.all Fault.isRefusal = true →
      Runs scope e.acts (e.resolve scope).1.acts []
        (Resolved.ofMarked scope (e.resolve scope)).outcome
  | .binary token op left right, refusal => by
    have first := left.runs_acts scope
    unfold Expr.resolve at refusal ⊢
    unfold Expr.acts
    cases resolved : left.resolve scope with
    | mk left' fault =>
      rw [resolved] at first refusal
      cases fault with
      | none => exact (first rfl).append (right.runs_acts scope refusal)
      | some fault => exact (first refusal).append_error _
  | .literal .., _ => .nil scope
  | .use name mark, _ => by
    unfold Expr.resolve
    cases found : scope.lookup name with
    | ok symbol =>
      exact .single (by rw [Act.run, found]; rfl) (by rw [Act.marked, found]; rfl) rfl
    | error fault =>
      exact .single (by rw [Act.run, found]; rfl) (by rw [Act.marked, found]; rfl) rfl
  | .call keyword callee arguments mark, refusal => by
    unfold Expr.resolve at refusal ⊢
    cases found : scope.lookupCallee callee arguments.length with
    | ok symbol =>
      rw [found] at refusal
      have head : Runs scope [.call callee arguments.length mark]
          [.call callee (resolveExprs scope arguments).1.length (some symbol)] [] (.ok scope) := by
        rw [length_resolveExprs]
        exact .single (by rw [Act.run, found]; rfl) (by rw [Act.marked, found]; rfl) rfl
      exact head.append (runs_exprActs scope arguments refusal)
    | error fault =>
      have head : Runs scope [.call callee arguments.length mark]
          [.call callee arguments.length mark] [] (.error fault) :=
        .single (by rw [Act.run, found]; rfl) (by rw [Act.marked, found]; rfl) rfl
      exact head.append_error _
  | .list start elements, refusal => runs_exprActs scope elements refusal

/-- The acts of expressions run as their resolution does. -/
theorem runs_exprActs (scope : Scope) :
    ∀ es : List Expr, (resolveExprs scope es).2.all Fault.isRefusal = true →
      Runs scope (exprActs es) (exprActs (resolveExprs scope es).1) []
        (Resolved.ofMarked scope (resolveExprs scope es)).outcome
  | [], _ => .nil scope
  | e :: es, refusal => by
    have first := e.runs_acts scope
    unfold resolveExprs at refusal ⊢
    unfold exprActs
    cases resolved : e.resolve scope with
    | mk e' fault =>
      rw [resolved] at first refusal
      cases fault with
      | none => exact (first rfl).append (runs_exprActs scope es refusal)
      | some fault => exact (first refusal).append_error _

end

theorem runs_optionActs (scope : Scope) (value : Option Expr)
    (refusal : (resolveOption scope value).2.all Fault.isRefusal = true) :
    Runs scope (optionActs value) (optionActs (resolveOption scope value).1) []
      (Resolved.ofMarked scope (resolveOption scope value)).outcome := by
  cases value with
  | none => exact .nil scope
  | some e => exact e.runs_acts scope refusal

theorem tree_resolveDeclared {α : Type} (scope : Scope) (tree : α) (name : Token) (type : Text)
    (kind : SymbolKind) : (resolveDeclared scope tree name type kind).tree = tree := by
  unfold resolveDeclared
  cases scope.declare name type kind <;> rfl

theorem runs_resolveDeclared {α : Type} (scope : Scope) (tree : α) (name : Token) (type : Text)
    (kind : SymbolKind) :
    Runs scope [.declare name type kind] [.declare name type kind]
      (resolveDeclared scope tree name type kind).declared
      (resolveDeclared scope tree name type kind).outcome := by
  unfold resolveDeclared
  cases declared : scope.declare name type kind with
  | ok both =>
    exact .single (by rw [Act.run, declared]; rfl) rfl (by rw [Act.symbol?, declared]; rfl)
  | error fault =>
    exact .single (by rw [Act.run, declared]; rfl) rfl (by rw [Act.symbol?, declared]; rfl)

theorem runs_resolveParams (scope : Scope) (params : List Param) :
    Runs scope (params.map Param.act) (params.map Param.act) (resolveParams scope params).declared
      (resolveParams scope params).outcome := by
  induction params generalizing scope with
  | nil => exact .nil scope
  | cons p ps ih =>
    have first := runs_resolveDeclared scope () p.name p.type.lexeme .parameter
    unfold resolveParams
    cases resolved : resolveDeclared scope () p.name p.type.lexeme .parameter with
    | mk tree next declared fault =>
      rw [resolved] at first
      cases fault with
      | none => exact first.append (ih next)
      | some fault => exact first.append_error _

/-- **A block runs as its inside does,** and closes behind it. -/
theorem Runs.block {scope : Scope} {inner inner' : List Act} {α : Type} {r : Resolved α}
    (inside : Runs scope.enter inner inner' r.declared r.outcome) :
    Runs scope (blockActs inner) (blockActs inner') r.declared r.leave.outcome := by
  have opened : Runs scope [.enter] [.enter] [] (.ok scope.enter) := .single rfl rfl rfl
  have closed : ∀ scope : Scope, Runs scope [.leave] [.leave] [] (.ok scope.leave) :=
    fun _ => .single rfl rfl rfl
  obtain ⟨tree, behind, declared, _ | fault⟩ := r
  · have block := (opened.append inside).append (closed behind)
    rwa [List.nil_append, List.append_nil] at block
  · exact (opened.append inside).append_error _

mutual

/-- **The acts of a statement run as its resolution does.** -/
theorem Stmt.runs_acts (scope : Scope) :
    ∀ s : Stmt, (s.resolve scope).fault.all Fault.isRefusal = true →
      Runs scope s.acts (s.resolve scope).tree.acts (s.resolve scope).declared
        (s.resolve scope).outcome
  | .declare keyword type name value, refusal => by
    have first := runs_optionActs scope value
    unfold Stmt.resolve at refusal ⊢
    cases resolved : resolveOption scope value with
    | mk value' fault =>
      rw [resolved] at first refusal
      cases fault with
      | none =>
        have second := runs_resolveDeclared scope (Stmt.declare keyword type name value') name
          type.lexeme .value
        dsimp only
        rw [tree_resolveDeclared]
        exact (first rfl).append second
      | some fault => exact (first refusal).append_error _
  | .param p, _ => by
    unfold Stmt.resolve
    rw [tree_resolveDeclared]
    exact runs_resolveDeclared scope (Stmt.param p) p.name p.type.lexeme .parameter
  | .function keyword name params body, refusal => by
    have head := runs_resolveDeclared scope () name Builtin.functionType .function
    unfold Stmt.resolve at refusal ⊢
    cases resolved : resolveDeclared scope () name Builtin.functionType .function with
    | mk tree next declared fault =>
      rw [resolved] at head refusal
      cases fault with
      | some fault => exact head.append_error _
      | none =>
        have first := runs_resolveParams next.enter params
        dsimp only at refusal ⊢
        cases inner : resolveParams next.enter params with
        | mk tree inside declared' fault =>
          rw [inner] at first refusal
          cases fault with
          | some fault =>
            have block := Runs.block (r := ⟨(), inside, declared', some fault⟩)
              (first.append_error (stmtActs body))
            exact head.append block
          | none =>
            have second := runs_of_refusal inside body refusal
            exact head.append (first.append second).block
  | .conditional keyword condition yes no, refusal => by
    have test := condition.runs_acts scope
    have first := runs_of_refusal scope.enter yes
    unfold Stmt.resolve at refusal ⊢
    cases resolved : condition.resolve scope with
    | mk condition' fault =>
      rw [resolved] at test refusal
      cases fault with
      | some fault => exact (test refusal).append_error _
      | none =>
        dsimp only at refusal ⊢
        cases branch : resolveStmts scope.enter yes with
        | mk yes' inside declared fault =>
          rw [branch] at first refusal
          cases fault with
          | some fault => exact (test rfl).append ((first refusal).block.append_error _)
          | none =>
            have second := (runs_of_refusal inside.leave.enter no refusal).block
            exact (test rfl).append ((first rfl).block.append second)
  | .loop keyword body, refusal => (runs_of_refusal scope.enter body refusal).block
  | .print keyword value, refusal => value.runs_acts scope refusal
  | .returns keyword value, refusal => runs_optionActs scope value refusal
  | .assign name value, refusal => by
    unfold Stmt.resolve at refusal ⊢
    cases found : scope.lookupTarget name with
    | ok symbol =>
      rw [found] at refusal
      have head : Runs scope [.target name] [.target name] [] (.ok scope) :=
        .single (by rw [Act.run, found]; rfl) rfl rfl
      exact head.append (value.runs_acts scope refusal)
    | error fault =>
      have head : Runs scope [.target name] [.target name] [] (.error fault) :=
        .single (by rw [Act.run, found]; rfl) rfl rfl
      exact head.append_error _
  | .breaks keyword, _ => .nil scope
  | .perform keyword value, refusal => value.runs_acts scope refusal

/-- **The acts of statements run as their resolution does,** unless it comes to a missing node. -/
theorem runs_of_refusal (scope : Scope) :
    ∀ ss : List Stmt, (resolveStmts scope ss).fault.all Fault.isRefusal = true →
      Runs scope (stmtActs ss) (stmtActs (resolveStmts scope ss).tree)
        (resolveStmts scope ss).declared (resolveStmts scope ss).outcome
  | [], _ => .nil scope
  | s :: ss, refusal => by
    have first := s.runs_acts scope
    unfold resolveStmts at refusal ⊢
    unfold stmtActs
    cases resolved : s.resolve scope with
    | mk tree next declared fault =>
      rw [resolved] at first refusal
      cases fault with
      | none => exact (first rfl).append (runs_of_refusal next ss refusal)
      | some fault => exact (first refusal).append_error _

end

/-- The acts of a tree without a missing node run as its resolution does. -/
theorem runs_stmtActs (scope : Scope) (ss : List Stmt) (complete : stmtsComplete ss = true) :
    Runs scope (stmtActs ss) (stmtActs (resolveStmts scope ss).tree)
      (resolveStmts scope ss).declared (resolveStmts scope ss).outcome :=
  runs_of_refusal scope ss ((attests_resolveStmts scope ss).refusal complete)

/-- A program without a fault has nothing missing. -/
theorem complete_of_resolve {p : Program} (resolved : p.resolve.fault = none) :
    stmtsComplete p = true :=
  (attests_resolveStmts .initial p).whole resolved

/-- A program without a fault runs to its end. -/
theorem walk_of_resolve {p : Program} (complete : stmtsComplete p = true)
    (resolved : p.resolve.fault = none) : walk .initial (stmtActs p) = .ok p.resolve.scope := by
  have ends : walk .initial (stmtActs p) = p.resolve.outcome :=
    (runs_stmtActs .initial p complete).ends
  rw [ends, Resolved.outcome, resolved]

/-! ### One part behind another -/

/-- **Statements behind others without a fault are resolved in the scope they leave.** -/
theorem resolveStmts_append {scope : Scope} {ss : List Stmt}
    (sound : (resolveStmts scope ss).fault = none) (more : List Stmt) :
    resolveStmts scope (ss ++ more) =
      ((resolveStmts (resolveStmts scope ss).scope more).map
        ((resolveStmts scope ss).tree ++ ·)).after (resolveStmts scope ss).declared := by
  induction ss generalizing scope with
  | nil => rfl
  | cons s ss ih =>
    rw [resolveStmts] at sound
    rw [List.cons_append, resolveStmts, resolveStmts]
    cases fault : (s.resolve scope).fault with
    | some fault' =>
      rw [fault] at sound
      exact absurd (fault.symm.trans sound) (by simp)
    | none =>
      rw [fault] at sound
      rw [ih sound]
      simp only [Resolved.map, Resolved.after, List.append_assoc, List.cons_append]

end Guwen
