/-
**Reading statements.**

The first token of a statement decides what it is. Each reader below stands behind that token and
takes the rest of the statement; blocks are read up to a closing token, which is left in place, and
refuse an end token.

* `declaration`, `print`, `returns`, `breaks`, `callStatement` and `assignment` hold no statements.
* `statement`, `block`, `conditional`, `loop` and `function` read one another; a statement takes at
  least one token.
-/
import Guwen.Grammar.Expression
import Guwen.Text.Blank

namespace Guwen

namespace Grammar

/-! ### Names and types -/

/-- One of the type words. -/
def typeWord (site : Site) : (ts : List Token) → Except Diagnostic (Token × Rest ts)
  | [] => .error (site.refuse .expectedType site.ending)
  | t :: _ => if t.kind.isType then .ok (t, .tail) else .error (site.refuse .expectedType t)

/-- 曰 and a name in quotes, 名之 before it or not. A blank name is refused. -/
def declaredName (site : Site) (ts : List Token) : Except Diagnostic (Token × Rest ts) := do
  let ⟨ts₁, le₁⟩ := skip .nameIt ts
  let (_, ⟨ts₂, lt₂⟩) ← expect site .named .expectedNamed ts₁
  let (name, ⟨ts₃, lt₃⟩) ← expect site .string .expectedName ts₂
  if name.lexeme.isBlank then .error (site.refuse .emptyName name)
  else return (name, ⟨ts₃, by omega⟩)

/-! ### Declarations -/

/-- The further elements of an initial value, each behind 、. Only a list may have them. -/
def elements (site : Site) (isList : Bool) (ts : List Token) :
    Except Diagnostic (List Expr × Within ts) :=
  match ts with
  | [] => .ok ([], ⟨[], Nat.le_refl _⟩)
  | t :: rest =>
    if t.kind = .comma then
      if isList then do
        let (e, ⟨ts₁, lt₁⟩) ← expression site rest
        let (es, ⟨ts₂, le₂⟩) ← elements site isList ts₁
        return (e :: es, ⟨ts₂, Nat.le_succ_of_le (Nat.le_trans le₂ (Nat.le_of_lt lt₁))⟩)
      else .error (site.refuse .listOutsideList t)
    else .ok ([], ⟨t :: rest, Nat.le_refl _⟩)
termination_by ts.length
decreasing_by exact Nat.lt_succ_of_lt lt₁

/-- The initial value of a list that starts with `start`: a name or a call alone may be a list
already and stays as it is. -/
def listValue (start : Token) (first : Expr) (more : List Expr) : Expr :=
  match first, more with
  | .use name symbol, [] => .use name symbol
  | .call keyword callee values symbol, [] => .call keyword callee values symbol
  | first, more => .list start (first :: more)

/-- The initial value behind 其值. -/
def initialValue (site : Site) (isList : Bool) (ts : List Token) :
    Except Diagnostic (Expr × Rest ts) := do
  let (first, ⟨ts₁, lt₁⟩) ← expression site ts
  let (more, ⟨ts₂, le₂⟩) ← elements site isList ts₁
  return (if isList then listValue (site.peek ts) first more else first, ⟨ts₂, by omega⟩)

/-- The initial value, if 其值 is next. -/
def initializer (site : Site) (isList : Bool) (ts : List Token) :
    Except Diagnostic (Option Expr × Within ts) :=
  match ts with
  | [] => .ok (none, ⟨[], Nat.le_refl _⟩)
  | t :: rest =>
    if t.kind = .value then do
      let (e, ⟨ts₁, lt₁⟩) ← initialValue site isList rest
      return (some e, ⟨ts₁, Nat.le_succ_of_le (Nat.le_of_lt lt₁)⟩)
    else .ok (none, ⟨t :: rest, Nat.le_refl _⟩)

/-- **The declaration of a variable** behind 吾有. -/
def declaration (site : Site) (keyword : Token) (ts : List Token) :
    Except Diagnostic (Stmt × Rest ts) := do
  let site := site.inside .declaration
  let (type, ⟨ts₁, lt₁⟩) ← typeWord site ts
  let (name, ⟨ts₂, lt₂⟩) ← declaredName site ts₁
  let (value, ⟨ts₃, le₃⟩) ← initializer site (type.kind == .listType) ts₂
  let (_, ⟨ts₄, lt₄⟩) ← expect site .close .expectedClose ts₃
  return (.declare keyword type name value, ⟨ts₄, by omega⟩)

/-! ### Statements without statements inside -/

/-- **Printing** behind 云. -/
def print (site : Site) (keyword : Token) (ts : List Token) :
    Except Diagnostic (Stmt × Rest ts) := do
  let (value, ⟨ts₁, lt₁⟩) ← expression (site.inside .print) ts
  let ⟨ts₂, le₂⟩ := skip .close ts₁
  return (.print keyword value, ⟨ts₂, by omega⟩)

/-- A token that an expression can start with. -/
def startsExpression : TokenKind → Bool
  | .number | .string | .identifier | .apply => true
  | _ => false

/-- **Returning** behind 乃得, with a value whenever one can start here. -/
def returns (site : Site) (keyword : Token) (ts : List Token) :
    Except Diagnostic (Stmt × Within ts) := do
  let site := site.inside .returns
  if !site.inFunction then .error (site.refuse .onlyInsideFunction keyword)
  else if startsExpression (site.peek ts).kind then do
    let (value, ⟨ts₁, lt₁⟩) ← expression site ts
    let ⟨ts₂, le₂⟩ := skip .close ts₁
    return (.returns keyword (some value), ⟨ts₂, by omega⟩)
  else return (.returns keyword none, skip .close ts)

/-- **Leaving a loop** behind 乃止. -/
def breaks (site : Site) (keyword : Token) (ts : List Token) :
    Except Diagnostic (Stmt × Within ts) :=
  if site.inLoop then .ok (.breaks keyword, skip .close ts)
  else .error ((site.inside .breaks).refuse .onlyInsideLoop keyword)

/-- **A call for its effect** behind 施. -/
def callStatement (site : Site) (keyword : Token) (ts : List Token) :
    Except Diagnostic (Stmt × Rest ts) := do
  let (value, ⟨ts₁, lt₁⟩) ← call (site.inside .call) keyword ts
  let ⟨ts₂, le₂⟩ := skip .close ts₁
  return (.perform keyword value, ⟨ts₂, by omega⟩)

/-- **An assignment** behind its name. -/
def assignment (site : Site) (name : Token) (ts : List Token) :
    Except Diagnostic (Stmt × Rest ts) := do
  let site := site.inside .assignment
  let (_, ⟨ts₁, lt₁⟩) ← expect site .value .expectedValue ts
  let (value, ⟨ts₂, lt₂⟩) ← expression site ts₁
  let ⟨ts₃, le₃⟩ := skip .close ts₂
  return (.assign name value, ⟨ts₃, by omega⟩)

/-! ### Parameters and the end of a function -/

/-- One or more parameters, with 、 after each or not. -/
def parameters (site : Site) (ts : List Token) : Except Diagnostic (List Param × Rest ts) := do
  let (type, ⟨ts₁, lt₁⟩) ← typeWord site ts
  let (name, ⟨ts₂, lt₂⟩) ← declaredName site ts₁
  let ⟨ts₃, le₃⟩ := skip .comma ts₂
  if (site.peek ts₃).kind.isType then do
    let (more, ⟨ts₄, lt₄⟩) ← parameters site ts₃
    return (⟨type, name⟩ :: more, ⟨ts₄, by omega⟩)
  else return ([⟨type, name⟩], ⟨ts₃, by omega⟩)
termination_by ts.length
decreasing_by omega

/-- The parameters of a function, if 必先得 is next; 欲行是術 may stand before and after them. -/
def signature (site : Site) (ts : List Token) : Except Diagnostic (List Param × Within ts) := do
  let ⟨ts₁, le₁⟩ := skip .invoke ts
  match ts₁, le₁ with
  | [], le₁ => return ([], ⟨[], le₁⟩)
  | t :: rest, le₁ =>
    if t.kind = .params then do
      let (ps, ⟨ts₂, lt₂⟩) ← parameters site rest
      let ⟨ts₃, le₃⟩ := skip .invoke ts₂
      return (ps, ⟨ts₃, by simp only [List.length_cons] at le₁; omega⟩)
    else
      let ⟨ts₂, le₂⟩ := skip .invoke (t :: rest)
      return ([], ⟨ts₂, by omega⟩)

/-- The end of a function: 之術也, with 是謂 and the function's name before it or not. -/
def functionEnd (site : Site) (name : Token) (ts : List Token) :
    Except Diagnostic (Rest ts) :=
  match ts with
  | [] => .error (site.refuse .expectedFunctionEnd site.ending)
  | t :: rest =>
    if t.kind = .functionName then
      match rest with
      | [] => .error (site.refuse .expectedFunctionEnd site.ending)
      | again :: after =>
        if again.kind = .string then
          if again.lexeme = name.lexeme then do
            let (_, left) ← expect site .functionEnd .expectedFunctionEnd after
            return left.behind.behind
          else .error (site.refuse .functionNameMismatch again)
        else do
          let (_, left) ← expect site .functionEnd .expectedFunctionEnd (again :: after)
          return left.behind
    else do
      let (_, left) ← expect site .functionEnd .expectedFunctionEnd (t :: rest)
      return left

/-! ### Statements and blocks -/

/-- The tokens that close the first block of a conditional. -/
def closesBranch : TokenKind → Bool
  | .otherwise | .blockEnd => true
  | _ => false

/-- The token that closes any other block. -/
def closesBlock : TokenKind → Bool
  | .blockEnd => true
  | _ => false

/-- The tokens that close the body of a function. -/
def closesBody : TokenKind → Bool
  | .functionName | .functionEnd => true
  | _ => false

mutual

/-- **The statement at the front.** -/
def statement (site : Site) (ts : List Token) : Except Diagnostic (Stmt × Rest ts) :=
  match ts with
  | [] => .error (site.refuse .undefinedStatement site.ending)
  | t :: rest =>
    match t.kind with
    | .declare => do
      let (s, left) ← declaration site t rest
      return (s, left.behind)
    | .print => do
      let (s, left) ← print site t rest
      return (s, left.behind)
    | .whether => do
      let (s, left) ← conditional (site.inside .conditional) t rest
      return (s, left.behind)
    | .loop => do
      let (s, left) ← loop site.insideLoop t rest
      return (s, left.behind)
    | .function => do
      let (s, left) ← function site.insideFunction t rest
      return (s, left.behind)
    | .returns => do
      let (s, left) ← returns site t rest
      return (s, left.behind)
    | .breaks => do
      let (s, left) ← breaks site t rest
      return (s, left.behind)
    | .apply => do
      let (s, left) ← callStatement site t rest
      return (s, left.behind)
    | .identifier => do
      let (s, left) ← assignment site t rest
      return (s, left.behind)
    | _ => .error (site.refuse .undefinedStatement t)
termination_by 3 * ts.length
decreasing_by all_goals simp only [List.length_cons]; omega

/-- **The statements up to a closing token,** which is left in place. -/
def block (site : Site) (unclosed : Diagnostic.Cause) (closes : TokenKind → Bool)
    (ts : List Token) : Except Diagnostic (List Stmt × Within ts) :=
  match ts with
  | [] => .error (site.refuse unclosed site.ending)
  | t :: rest =>
    if closes t.kind then .ok ([], ⟨t :: rest, Nat.le_refl _⟩)
    else if t.kind = .eof then .error (site.refuse unclosed t)
    else do
      let (s, ⟨ts₁, lt₁⟩) ← statement site (t :: rest)
      let (ss, ⟨ts₂, le₂⟩) ← block site unclosed closes ts₁
      return (s :: ss, ⟨ts₂, by omega⟩)
termination_by 3 * ts.length + 1
decreasing_by all_goals omega

/-- **A conditional** behind 若. -/
def conditional (site : Site) (keyword : Token) (ts : List Token) :
    Except Diagnostic (Stmt × Rest ts) := do
  let (condition, ⟨ts₁, lt₁⟩) ← expression site ts
  let (_, ⟨ts₂, lt₂⟩) ← expect site .thereupon .expectedThereupon ts₁
  let (yes, ⟨ts₃, le₃⟩) ← block site .expectedBlockEnd closesBranch ts₂
  match ts₃, le₃ with
  | [], _ => .error (site.refuse .expectedBlockEnd site.ending)
  | t :: rest, le₃ =>
    if t.kind = .otherwise then do
      let (no, ⟨ts₄, le₄⟩) ← block site .expectedBlockEnd closesBlock rest
      let (_, ⟨ts₅, lt₅⟩) ← expect site .blockEnd .expectedBlockEnd ts₄
      return (.conditional keyword condition yes no,
        ⟨ts₅, by simp only [List.length_cons] at le₃; omega⟩)
    else do
      let (_, ⟨ts₄, lt₄⟩) ← expect site .blockEnd .expectedBlockEnd (t :: rest)
      return (.conditional keyword condition yes [], ⟨ts₄, by omega⟩)
termination_by 3 * ts.length + 2
decreasing_by
  · omega
  · simp only [List.length_cons] at le₃; omega

/-- **A loop** behind 恆為是. -/
def loop (site : Site) (keyword : Token) (ts : List Token) :
    Except Diagnostic (Stmt × Rest ts) := do
  let (body, ⟨ts₁, le₁⟩) ← block site .expectedBlockEnd closesBlock ts
  let (_, ⟨ts₂, lt₂⟩) ← expect site .blockEnd .expectedBlockEnd ts₁
  return (.loop keyword body, ⟨ts₂, by omega⟩)
termination_by 3 * ts.length + 2
decreasing_by omega

/-- **A function** behind 有術. -/
def function (site : Site) (keyword : Token) (ts : List Token) :
    Except Diagnostic (Stmt × Rest ts) := do
  let (name, ⟨ts₁, lt₁⟩) ← declaredName site ts
  let (params, ⟨ts₂, le₂⟩) ← signature site ts₁
  let (body, ⟨ts₃, le₃⟩) ← block site .expectedFunctionEnd closesBody ts₂
  let ⟨ts₄, lt₄⟩ ← functionEnd site name ts₃
  return (.function keyword name params body, ⟨ts₄, by omega⟩)
termination_by 3 * ts.length + 2
decreasing_by omega

end

end Grammar

end Guwen
