/-
**Marks: what resolution writes into a tree.**

A tree is a bare tree and the marks on its uses and calls, and resolution changes nothing but the
marks. The walk asks for names only, so what it meets does not hang on the marks it finds.

* **`bare_resolveStmts`** — resolution changes nothing but marks.
* **`eq_of_bare_of_acts`** — a tree is known from its bare tree and its acts, which have the marks.
* `walk_bare`, `along_bare` — the run of the acts without their marks.
* `markActs_bare`, `markActs_markActs` — a run without a fault forgets the old marks, and any run
  finds its own marks again.
-/
import Guwen.Proofs.Resolution.Walk

namespace Guwen

/-! ### Nothing but marks changes -/

mutual

/-- **The expression without its marks.** -/
def Expr.bare : Expr → Expr
  | .binary token op left right => .binary token op left.bare right.bare
  | .literal start kind text => .literal start kind text
  | .use name _ => .use name none
  | .call keyword callee arguments _ => .call keyword callee (bareExprs arguments) none
  | .list start elements => .list start (bareExprs elements)
  | .missing => .missing

/-- The expressions without their marks. -/
def bareExprs : List Expr → List Expr
  | [] => []
  | e :: es => e.bare :: bareExprs es

end

mutual

/-- **The statement without its marks.** -/
def Stmt.bare : Stmt → Stmt
  | .declare keyword type name value => .declare keyword type name (value.map Expr.bare)
  | .param p => .param p
  | .function keyword name params body => .function keyword name params (bareStmts body)
  | .conditional keyword condition yes no =>
    .conditional keyword condition.bare (bareStmts yes) (bareStmts no)
  | .loop keyword body => .loop keyword (bareStmts body)
  | .print keyword value => .print keyword value.bare
  | .returns keyword value => .returns keyword (value.map Expr.bare)
  | .assign name value => .assign name value.bare
  | .breaks keyword => .breaks keyword
  | .perform keyword value => .perform keyword value.bare
  | .missing => .missing

/-- The statements without their marks. -/
def bareStmts : List Stmt → List Stmt
  | [] => []
  | s :: ss => s.bare :: bareStmts ss

end

theorem bareExprs_eq_map (es : List Expr) : bareExprs es = es.map Expr.bare := by
  induction es with
  | nil => rfl
  | cons e es ih => rw [bareExprs, ih, List.map_cons]

theorem bareStmts_eq_map (ss : List Stmt) : bareStmts ss = ss.map Stmt.bare := by
  induction ss with
  | nil => rfl
  | cons s ss ih => rw [bareStmts, ih, List.map_cons]

mutual

theorem Expr.bare_resolve (scope : Scope) : ∀ e : Expr, (e.resolve scope).1.bare = e.bare
  | .binary token op left right => by
    have first := left.bare_resolve scope
    have second := right.bare_resolve scope
    unfold Expr.resolve
    cases resolved : left.resolve scope with
    | mk left' fault =>
      rw [resolved] at first
      cases fault with
      | none => simp only [Expr.bare, first, second]
      | some fault => simp only [Expr.bare, first]
  | .literal .. => rfl
  | .use name mark => by
    unfold Expr.resolve
    cases scope.lookup name <;> rfl
  | .call keyword callee arguments mark => by
    have more := bare_resolveExprs scope arguments
    unfold Expr.resolve
    cases scope.lookupCallee callee arguments.length with
    | ok symbol => simp only [Expr.bare, more]
    | error fault => rfl
  | .list start elements => by
    have more := bare_resolveExprs scope elements
    simp only [Expr.resolve, Expr.bare, more]
  | .missing => rfl

theorem bare_resolveExprs (scope : Scope) :
    ∀ es : List Expr, bareExprs (resolveExprs scope es).1 = bareExprs es
  | [] => rfl
  | e :: es => by
    have first := e.bare_resolve scope
    have second := bare_resolveExprs scope es
    unfold resolveExprs
    cases resolved : e.resolve scope with
    | mk e' fault =>
      rw [resolved] at first
      cases fault with
      | none => simp only [bareExprs, first, second]
      | some fault => simp only [bareExprs, first]

end

theorem bare_resolveOption (scope : Scope) (value : Option Expr) :
    (resolveOption scope value).1.map Expr.bare = value.map Expr.bare := by
  cases value with
  | none => rfl
  | some e => exact congrArg some (e.bare_resolve scope)

mutual

theorem Stmt.bare_resolve (scope : Scope) : ∀ s : Stmt, (s.resolve scope).tree.bare = s.bare
  | .declare keyword type name value => by
    have first := bare_resolveOption scope value
    unfold Stmt.resolve
    cases resolved : resolveOption scope value with
    | mk value' fault =>
      rw [resolved] at first
      cases fault with
      | none =>
        dsimp only
        rw [tree_resolveDeclared, Stmt.bare, first, Stmt.bare]
      | some fault => simp only [Stmt.bare, first]
  | .param p => by
    unfold Stmt.resolve
    rw [tree_resolveDeclared]
  | .function keyword name params body => by
    unfold Stmt.resolve
    dsimp only
    split
    · rfl
    · split
      · rfl
      · simp only [Resolved.leave, Resolved.after, Resolved.map, Stmt.bare,
          bare_resolveStmts _ body]
  | .conditional keyword condition yes no => by
    have test := condition.bare_resolve scope
    have first := bare_resolveStmts scope.enter yes
    unfold Stmt.resolve
    cases resolved : condition.resolve scope with
    | mk condition' fault =>
      rw [resolved] at test
      cases fault with
      | some fault => simp only [Stmt.bare, test]
      | none =>
        dsimp only
        split
        · simp only [Resolved.leave, Resolved.map, Stmt.bare, test, first]
        · simp only [Resolved.leave, Resolved.after, Resolved.map, Stmt.bare, test, first,
            bare_resolveStmts _ no]
  | .loop keyword body => by
    simp only [Stmt.resolve, Resolved.leave, Resolved.map, Stmt.bare, bare_resolveStmts _ body]
  | .print keyword value => by
    simp only [Stmt.resolve, Resolved.ofMarked, Resolved.map, Stmt.bare, value.bare_resolve]
  | .returns keyword value => by
    simp only [Stmt.resolve, Resolved.ofMarked, Resolved.map, Stmt.bare, bare_resolveOption]
  | .assign name value => by
    unfold Stmt.resolve
    cases scope.lookupTarget name with
    | ok symbol => simp only [Resolved.ofMarked, Resolved.map, Stmt.bare, value.bare_resolve]
    | error fault => rfl
  | .breaks keyword => rfl
  | .perform keyword value => by
    simp only [Stmt.resolve, Resolved.ofMarked, Resolved.map, Stmt.bare, value.bare_resolve]
  | .missing => rfl

/-- **Resolution changes nothing but marks.** -/
theorem bare_resolveStmts (scope : Scope) :
    ∀ ss : List Stmt, bareStmts (resolveStmts scope ss).tree = bareStmts ss
  | [] => rfl
  | s :: ss => by
    have first := s.bare_resolve scope
    unfold resolveStmts
    cases resolved : s.resolve scope with
    | mk tree next declared fault =>
      rw [resolved] at first
      cases fault with
      | none =>
        simp only [Resolved.after, Resolved.map, bareStmts, first, bare_resolveStmts next ss]
      | some fault => simp only [Resolved.map, bareStmts, first]

end

/-! ### Completeness is no matter of marks -/

mutual

theorem Expr.complete_bare : ∀ e : Expr, e.bare.complete = e.complete
  | .binary _ _ left right => by
    rw [Expr.bare, Expr.complete, left.complete_bare, right.complete_bare, Expr.complete]
  | .literal .. => rfl
  | .use .. => rfl
  | .call _ _ arguments _ => exprsComplete_bare arguments
  | .list _ elements => exprsComplete_bare elements
  | .missing => rfl

theorem exprsComplete_bare : ∀ es : List Expr, exprsComplete (bareExprs es) = exprsComplete es
  | [] => rfl
  | e :: es => by
    rw [bareExprs, exprsComplete, e.complete_bare, exprsComplete_bare es, exprsComplete]

end

theorem optionComplete_bare (value : Option Expr) :
    optionComplete (value.map Expr.bare) = optionComplete value := by
  cases value with
  | none => rfl
  | some e => exact e.complete_bare

mutual

theorem Stmt.complete_bare : ∀ s : Stmt, s.bare.complete = s.complete
  | .declare _ _ _ value => optionComplete_bare value
  | .param _ => rfl
  | .function _ _ _ body => stmtsComplete_bare body
  | .conditional _ condition yes no => by
    rw [Stmt.bare, Stmt.complete, condition.complete_bare, stmtsComplete_bare yes,
      stmtsComplete_bare no, Stmt.complete]
  | .loop _ body => stmtsComplete_bare body
  | .print _ value => value.complete_bare
  | .returns _ value => optionComplete_bare value
  | .assign _ value => value.complete_bare
  | .breaks _ => rfl
  | .perform _ value => value.complete_bare
  | .missing => rfl

theorem stmtsComplete_bare : ∀ ss : List Stmt, stmtsComplete (bareStmts ss) = stmtsComplete ss
  | [] => rfl
  | s :: ss => by
    rw [bareStmts, stmtsComplete, s.complete_bare, stmtsComplete_bare ss, stmtsComplete]

end

/-- Resolution keeps a tree without missing nodes so. -/
theorem complete_resolve (p : Program) : stmtsComplete p.resolve.tree = stmtsComplete p := by
  have same : bareStmts p.resolve.tree = bareStmts p := bare_resolveStmts .initial p
  rw [← stmtsComplete_bare, same, stmtsComplete_bare]

/-! ### Acts without marks -/

/-- The act without its mark. -/
def Act.bare : Act → Act
  | use name _ => use name none
  | call callee count _ => call callee count none
  | act => act

mutual

theorem Expr.acts_bare : ∀ e : Expr, e.bare.acts = e.acts.map Act.bare
  | .binary _ _ left right => by
    rw [Expr.bare, Expr.acts, left.acts_bare, right.acts_bare, Expr.acts, List.map_append]
  | .literal .. => rfl
  | .use .. => rfl
  | .call _ _ arguments _ => by
    have length : (bareExprs arguments).length = arguments.length := by
      rw [bareExprs_eq_map, List.length_map]
    rw [Expr.bare, Expr.acts, length, exprActs_bare arguments, Expr.acts, List.map_cons, Act.bare]
  | .list _ elements => exprActs_bare elements
  | .missing => rfl

theorem exprActs_bare : ∀ es : List Expr, exprActs (bareExprs es) = (exprActs es).map Act.bare
  | [] => rfl
  | e :: es => by
    rw [bareExprs, exprActs, e.acts_bare, exprActs_bare es, exprActs, List.map_append]

end

theorem optionActs_bare (value : Option Expr) :
    optionActs (value.map Expr.bare) = (optionActs value).map Act.bare := by
  cases value with
  | none => rfl
  | some e => exact e.acts_bare

theorem blockActs_bare (inner : List Act) :
    blockActs (inner.map Act.bare) = (blockActs inner).map Act.bare := by
  simp [blockActs, Act.bare]

theorem params_bare (params : List Param) :
    (params.map Param.act).map Act.bare = params.map Param.act := by
  rw [List.map_map]
  rfl

mutual

theorem Stmt.acts_bare : ∀ s : Stmt, s.bare.acts = s.acts.map Act.bare
  | .declare _ _ _ value => by
    rw [Stmt.bare, Stmt.acts, optionActs_bare, Stmt.acts, List.map_append]
    rfl
  | .param _ => rfl
  | .function _ _ params body => by
    rw [Stmt.bare, Stmt.acts, stmtActs_bare body, Stmt.acts, List.map_cons, ← blockActs_bare,
      List.map_append, params_bare]
    rfl
  | .conditional _ condition yes no => by
    rw [Stmt.bare, Stmt.acts, condition.acts_bare, stmtActs_bare yes, stmtActs_bare no,
      blockActs_bare, blockActs_bare, Stmt.acts, List.map_append, List.map_append]
  | .loop _ body => by
    rw [Stmt.bare, Stmt.acts, stmtActs_bare body, blockActs_bare, Stmt.acts]
  | .print _ value => value.acts_bare
  | .returns _ value => optionActs_bare value
  | .assign _ value => by
    rw [Stmt.bare, Stmt.acts, value.acts_bare, Stmt.acts, List.map_cons]
    rfl
  | .breaks _ => rfl
  | .perform _ value => value.acts_bare
  | .missing => rfl

theorem stmtActs_bare : ∀ ss : List Stmt, stmtActs (bareStmts ss) = (stmtActs ss).map Act.bare
  | [] => rfl
  | s :: ss => by
    rw [bareStmts, stmtActs, s.acts_bare, stmtActs_bare ss, stmtActs, List.map_append]

end

/-! ### A tree is known from its bare tree and its acts -/

-- What follows the acts is part of the statement, so that the acts of two parts can be told apart.
mutual

theorem Expr.eq_of_acts : ∀ (e f : Expr) {rest rest' : List Act}, e.bare = f.bare →
    e.acts ++ rest = f.acts ++ rest' → e = f ∧ rest = rest'
  | .binary token op left right, f, rest, rest', same, acts => by
    cases f with
    | binary token' op' left' right' =>
      simp only [Expr.bare, Expr.binary.injEq] at same
      obtain ⟨rfl, rfl, sameLeft, sameRight⟩ := same
      simp only [Expr.acts, List.append_assoc] at acts
      obtain ⟨rfl, more⟩ := left.eq_of_acts left' sameLeft acts
      obtain ⟨rfl, behind⟩ := right.eq_of_acts right' sameRight more
      exact ⟨rfl, behind⟩
    | _ => cases same
  | .literal .., f, rest, rest', same, acts => by
    cases f with
    | literal =>
      cases same
      exact ⟨rfl, acts⟩
    | _ => cases same
  | .use name mark, f, rest, rest', same, acts => by
    cases f with
    | use name' mark' =>
      cases acts
      exact ⟨rfl, rfl⟩
    | _ => cases same
  | .call keyword callee arguments mark, f, rest, rest', same, acts => by
    cases f with
    | call keyword' callee' arguments' mark' =>
      simp only [Expr.bare, Expr.call.injEq] at same
      obtain ⟨rfl, -, sameArguments, -⟩ := same
      simp only [Expr.acts, List.cons_append, List.cons.injEq, Act.call.injEq] at acts
      obtain ⟨⟨rfl, -, rfl⟩, acts⟩ := acts
      obtain ⟨rfl, behind⟩ := exprs_eq_of_acts arguments arguments' sameArguments acts
      exact ⟨rfl, behind⟩
    | _ => cases same
  | .list start elements, f, rest, rest', same, acts => by
    cases f with
    | list start' elements' =>
      simp only [Expr.bare, Expr.list.injEq] at same
      obtain ⟨rfl, sameElements⟩ := same
      obtain ⟨rfl, behind⟩ := exprs_eq_of_acts elements elements' sameElements acts
      exact ⟨rfl, behind⟩
    | _ => cases same
  | .missing, f, rest, rest', same, acts => by
    cases f with
    | missing => exact ⟨rfl, acts⟩
    | _ => cases same

theorem exprs_eq_of_acts : ∀ (es fs : List Expr) {rest rest' : List Act},
    bareExprs es = bareExprs fs → exprActs es ++ rest = exprActs fs ++ rest' →
    es = fs ∧ rest = rest'
  | [], [], _, _, _, acts => ⟨rfl, acts⟩
  | [], f :: fs, _, _, same, _ => nomatch same
  | e :: es, [], _, _, same, _ => nomatch same
  | e :: es, f :: fs, rest, rest', same, acts => by
    simp only [bareExprs, List.cons.injEq] at same
    simp only [exprActs, List.append_assoc] at acts
    obtain ⟨rfl, more⟩ := e.eq_of_acts f same.1 acts
    obtain ⟨rfl, behind⟩ := exprs_eq_of_acts es fs same.2 more
    exact ⟨rfl, behind⟩

end

theorem option_eq_of_acts {value value' : Option Expr} {rest rest' : List Act}
    (same : value.map Expr.bare = value'.map Expr.bare)
    (acts : optionActs value ++ rest = optionActs value' ++ rest') :
    value = value' ∧ rest = rest' := by
  cases value with
  | none =>
    cases value' with
    | none => exact ⟨rfl, acts⟩
    | some f => cases same
  | some e =>
    cases value' with
    | none => cases same
    | some f =>
      obtain ⟨rfl, behind⟩ := e.eq_of_acts f (Option.some.inj same) acts
      exact ⟨rfl, behind⟩

/-- A block, with what follows it. -/
theorem blockActs_append (inner rest : List Act) :
    blockActs inner ++ rest = .enter :: (inner ++ .leave :: rest) := by
  simp [blockActs]

mutual

theorem Stmt.eq_of_acts : ∀ (s t : Stmt) {rest rest' : List Act}, s.bare = t.bare →
    s.acts ++ rest = t.acts ++ rest' → s = t ∧ rest = rest'
  | .declare keyword type name value, t, rest, rest', same, acts => by
    cases t with
    | declare keyword' type' name' value' =>
      simp only [Stmt.bare, Stmt.declare.injEq] at same
      obtain ⟨rfl, rfl, rfl, sameValue⟩ := same
      simp only [Stmt.acts, List.append_assoc] at acts
      obtain ⟨rfl, behind⟩ := option_eq_of_acts sameValue acts
      exact ⟨rfl, List.tail_eq_of_cons_eq behind⟩
    | _ => cases same
  | .param p, t, rest, rest', same, acts => by
    cases t with
    | param p' =>
      cases same
      exact ⟨rfl, List.tail_eq_of_cons_eq acts⟩
    | _ => cases same
  | .function keyword name params body, t, rest, rest', same, acts => by
    cases t with
    | function keyword' name' params' body' =>
      simp only [Stmt.bare, Stmt.function.injEq] at same
      obtain ⟨rfl, rfl, rfl, sameBody⟩ := same
      simp only [Stmt.acts, List.cons_append, blockActs_append, List.append_assoc, List.cons.injEq,
        List.append_cancel_left_eq, true_and] at acts
      obtain ⟨rfl, behind⟩ := stmts_eq_of_acts body body' sameBody acts
      exact ⟨rfl, List.tail_eq_of_cons_eq behind⟩
    | _ => cases same
  | .conditional keyword condition yes no, t, rest, rest', same, acts => by
    cases t with
    | conditional keyword' condition' yes' no' =>
      simp only [Stmt.bare, Stmt.conditional.injEq] at same
      obtain ⟨rfl, sameCondition, sameYes, sameNo⟩ := same
      rw [Stmt.acts, Stmt.acts, List.append_assoc, List.append_assoc, List.append_assoc,
        List.append_assoc] at acts
      obtain ⟨rfl, blocks⟩ := condition.eq_of_acts condition' sameCondition acts
      simp only [blockActs_append, List.cons.injEq, true_and] at blocks
      obtain ⟨rfl, more⟩ := stmts_eq_of_acts yes yes' sameYes blocks
      simp only [List.cons.injEq, true_and] at more
      obtain ⟨rfl, behind⟩ := stmts_eq_of_acts no no' sameNo more
      exact ⟨rfl, List.tail_eq_of_cons_eq behind⟩
    | _ => cases same
  | .loop keyword body, t, rest, rest', same, acts => by
    cases t with
    | loop keyword' body' =>
      simp only [Stmt.bare, Stmt.loop.injEq] at same
      obtain ⟨rfl, sameBody⟩ := same
      simp only [Stmt.acts, blockActs_append, List.cons.injEq, true_and] at acts
      obtain ⟨rfl, behind⟩ := stmts_eq_of_acts body body' sameBody acts
      exact ⟨rfl, List.tail_eq_of_cons_eq behind⟩
    | _ => cases same
  | .print keyword value, t, rest, rest', same, acts => by
    cases t with
    | print keyword' value' =>
      simp only [Stmt.bare, Stmt.print.injEq] at same
      obtain ⟨rfl, sameValue⟩ := same
      obtain ⟨rfl, behind⟩ := value.eq_of_acts value' sameValue acts
      exact ⟨rfl, behind⟩
    | _ => cases same
  | .returns keyword value, t, rest, rest', same, acts => by
    cases t with
    | returns keyword' value' =>
      simp only [Stmt.bare, Stmt.returns.injEq] at same
      obtain ⟨rfl, sameValue⟩ := same
      obtain ⟨rfl, behind⟩ := option_eq_of_acts sameValue acts
      exact ⟨rfl, behind⟩
    | _ => cases same
  | .assign name value, t, rest, rest', same, acts => by
    cases t with
    | assign name' value' =>
      simp only [Stmt.bare, Stmt.assign.injEq] at same
      obtain ⟨rfl, sameValue⟩ := same
      obtain ⟨rfl, behind⟩ := value.eq_of_acts value' sameValue (List.tail_eq_of_cons_eq acts)
      exact ⟨rfl, behind⟩
    | _ => cases same
  | .breaks keyword, t, rest, rest', same, acts => by
    cases t with
    | breaks keyword' =>
      cases same
      exact ⟨rfl, acts⟩
    | _ => cases same
  | .perform keyword value, t, rest, rest', same, acts => by
    cases t with
    | perform keyword' value' =>
      simp only [Stmt.bare, Stmt.perform.injEq] at same
      obtain ⟨rfl, sameValue⟩ := same
      obtain ⟨rfl, behind⟩ := value.eq_of_acts value' sameValue acts
      exact ⟨rfl, behind⟩
    | _ => cases same
  | .missing, t, rest, rest', same, acts => by
    cases t with
    | missing => exact ⟨rfl, acts⟩
    | _ => cases same

theorem stmts_eq_of_acts : ∀ (ss ts : List Stmt) {rest rest' : List Act},
    bareStmts ss = bareStmts ts → stmtActs ss ++ rest = stmtActs ts ++ rest' →
    ss = ts ∧ rest = rest'
  | [], [], _, _, _, acts => ⟨rfl, acts⟩
  | [], t :: ts, _, _, same, _ => nomatch same
  | s :: ss, [], _, _, same, _ => nomatch same
  | s :: ss, t :: ts, rest, rest', same, acts => by
    simp only [bareStmts, List.cons.injEq] at same
    simp only [stmtActs, List.append_assoc] at acts
    obtain ⟨rfl, more⟩ := s.eq_of_acts t same.1 acts
    obtain ⟨rfl, behind⟩ := stmts_eq_of_acts ss ts same.2 more
    exact ⟨rfl, behind⟩

end

/-- **A tree is known from its bare tree and its acts,** which have the marks. -/
theorem eq_of_bare_of_acts {ss ts : List Stmt} (same : bareStmts ss = bareStmts ts)
    (acts : stmtActs ss = stmtActs ts) : ss = ts :=
  (@stmts_eq_of_acts ss ts [] [] same (by rw [acts])).1

/-! ### Runs ask for no marks -/

namespace Act

variable {scope next : Scope}

theorem run_bare (scope : Scope) (act : Act) : act.bare.run scope = act.run scope := by
  cases act <;> rfl

theorem symbol?_bare (scope : Scope) (act : Act) : act.bare.symbol? scope = act.symbol? scope := by
  cases act <;> rfl

theorem run_marked (scope : Scope) (act : Act) : (act.marked scope).run scope = act.run scope := by
  cases act <;> rfl

/-- A lookup finds the same again. -/
theorem marked_marked (scope : Scope) (act : Act) :
    (act.marked scope).marked scope = act.marked scope := by
  have again : ∀ found mark : Option Symbol, found.or (found.or mark) = found.or mark := by
    intro found mark
    rw [← Option.or_assoc, Option.or_self]
  cases act with
  | enter | leave | declare | target => rfl
  | use name mark => exact congrArg (use name) (again _ mark)
  | call callee count mark => exact congrArg (call callee count) (again _ mark)

/-- A lookup that succeeds replaces the old mark. -/
theorem marked_bare {act : Act} (ran : act.run scope = .ok next) :
    act.bare.marked scope = act.marked scope := by
  cases act with
  | enter | leave | declare | target => rfl
  | use name mark =>
    cases found : scope.lookup name with
    | error fault =>
      rw [run, found] at ran
      cases ran
    | ok symbol => rw [bare, marked, marked, found]; rfl
  | call callee count mark =>
    cases found : scope.lookupCallee callee count with
    | error fault =>
      rw [run, found] at ran
      cases ran
    | ok symbol => rw [bare, marked, marked, found]; rfl

end Act

/-- **The run is that of the acts without their marks.** -/
theorem walk_bare (scope : Scope) (acts : List Act) :
    walk scope (acts.map Act.bare) = walk scope acts := by
  induction acts generalizing scope with
  | nil => rfl
  | cons act acts ih => simp only [List.map_cons, walk_cons, Act.run_bare, ih]

theorem along_bare (scope : Scope) (acts : List Act) :
    along Act.symbol? scope (acts.map Act.bare) = along Act.symbol? scope acts := by
  induction acts generalizing scope with
  | nil => rfl
  | cons act acts ih => simp only [List.map_cons, along, Act.symbol?_bare, Act.run_bare, ih]

/-- **A run without a fault forgets the old marks.** -/
theorem markActs_bare {scope next : Scope} {acts : List Act} (ran : walk scope acts = .ok next) :
    markActs scope (acts.map Act.bare) = markActs scope acts := by
  induction acts generalizing scope with
  | nil => rfl
  | cons act acts ih =>
    rw [walk_cons, bind_eq_ok] at ran
    obtain ⟨middle, one, ran⟩ := ran
    simp only [List.map_cons, markActs, Act.run_bare, Act.marked_bare one, one, ih ran]

/-- **A run finds its own marks again,** also those before a fault. -/
theorem markActs_markActs (scope : Scope) (acts : List Act) :
    markActs scope (markActs scope acts) = markActs scope acts := by
  induction acts generalizing scope with
  | nil => rfl
  | cons act acts ih =>
    simp only [markActs, Act.run_marked, Act.marked_marked]
    cases act.run scope with
    | ok middle => exact congrArg _ (ih middle)
    | error fault => rfl

end Guwen
