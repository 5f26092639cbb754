/-
**Reading with stacks.**

`Grammar.statement` and the readers beside it hand down a `Site`, which says what encloses the place
that is read. The readers here keep that in stacks instead, which they change as they go: the open
functions, each with the number of its open loops, and the contexts of the open statements. They
also write down when a statement is begun and when it is finished.

* `Stacks` — the two stacks and the history; `Stacks.site` is what they say of a place.
* `Stacks.statement`, `Stacks.block`, … — the readers.
* `Stacks.program` — a program, read from empty stacks.
* `innermost? history` — the kind of the statement that was begun last and is not finished.
-/
import Guwen.Grammar.Program

namespace Guwen

namespace Grammar

/-! ### The stacks -/

/-- An open function, and how many of its loops are open. -/
structure CallFrame where
  function : Text
  loops : Nat
deriving DecidableEq, Repr

/-- What happens to a statement. -/
inductive Milestone where
  | begun (kind : Diagnostic.Context)
  | finished
deriving DecidableEq, Repr

/-- **What a reader keeps.** Every list has what came last in front. -/
structure Stacks where
  /-- The innermost open function. -/
  frame : CallFrame
  /-- The functions around it. The last of all frames is no function, it is the program. -/
  outer : List CallFrame
  contexts : List Diagnostic.Context
  history : List Milestone
deriving DecidableEq, Repr

/-- A refusal, and what had happened until then. -/
structure Halt where
  diagnostic : Diagnostic
  history : List Milestone

namespace Stacks

/-- The stacks at the start of a program. -/
def initial : Stacks := ⟨⟨[], 0⟩, [], [], []⟩

/-- The stack of open functions. -/
def frames (st : Stacks) : List CallFrame := st.frame :: st.outer

/-- The context that a refusal carries. -/
def context (st : Stacks) : Diagnostic.Context := st.contexts.headD .program

/-- What the stacks say of a place. -/
def site (st : Stacks) (ending : Token) : Site :=
  ⟨ending, st.context, !st.outer.isEmpty, st.frame.loops != 0⟩

/-- The stacks when more has happened. -/
def later (st : Stacks) (past : List Milestone) : Stacks :=
  { st with history := past ++ st.history }

/-- Into a context, and out of it. -/
def push (context : Diagnostic.Context) (st : Stacks) : Stacks :=
  { st with contexts := context :: st.contexts }

@[inherit_doc push]
def pop (st : Stacks) : Stacks := { st with contexts := st.contexts.tail }

/-- Into a loop of the innermost function, and out of it. -/
def enterLoop (st : Stacks) : Stacks := { st with frame.loops := st.frame.loops + 1 }

@[inherit_doc enterLoop]
def leaveLoop (st : Stacks) : Stacks := { st with frame.loops := st.frame.loops - 1 }

/-- Into a function, which has no loop open yet, and out of it. -/
def enterFunction (name : Text) (st : Stacks) : Stacks :=
  { st with frame := ⟨name, 0⟩, outer := st.frames }

@[inherit_doc enterFunction]
def leaveFunction (st : Stacks) : Stacks :=
  { st with frame := st.outer.headD st.frame, outer := st.outer.tail }

/-- A part that has no statements. -/
def reads {β : Type} (st : Stacks) (reading : Except Diagnostic β) : Except Halt β :=
  reading.mapError fun d => ⟨d, st.history⟩

section

variable {β : Type}

/-- A statement: it is begun, read and finished. -/
def recorded (st : Stacks) (kind : Diagnostic.Context)
    (read : Stacks → Except Halt (β × Stacks)) : Except Halt (β × Stacks) := do
  let (b, st) ← read (st.later [.begun kind])
  return (b, st.later [.finished])

/-- What is read between two changes of the stacks. -/
def between (st : Stacks) (enter leave : Stacks → Stacks)
    (read : Stacks → Except Halt (β × Stacks)) : Except Halt (β × Stacks) := do
  let (b, st) ← read (enter st)
  return (b, leave st)

/-- What stands in a context. -/
def within (st : Stacks) (context : Diagnostic.Context) :
    (Stacks → Except Halt (β × Stacks)) → Except Halt (β × Stacks) :=
  st.between (push context) pop

/-- What stands in a loop. -/
def looping (st : Stacks) :
    (Stacks → Except Halt (β × Stacks)) → Except Halt (β × Stacks) :=
  st.between enterLoop leaveLoop

/-- What stands in a function. -/
def calling (st : Stacks) (name : Text) :
    (Stacks → Except Halt (β × Stacks)) → Except Halt (β × Stacks) :=
  st.between (enterFunction name) leaveFunction

end

end Stacks

/-! ### Rests of rests -/

section

variable {ts : List Token}

/-- A shorter rest is a rest. -/
def Rest.within (rest : Rest ts) : Within ts := ⟨rest.1, Nat.le_of_lt rest.2⟩

/-- What is left of a rest. -/
def Rest.past (rest : Rest ts) (left : Within rest.1) : Rest ts :=
  ⟨left.1, Nat.lt_of_le_of_lt left.2 rest.2⟩

/-- A shorter rest of a rest. -/
def Within.before (rest : Within ts) (left : Rest rest.1) : Rest ts :=
  ⟨left.1, Nat.lt_of_lt_of_le left.2 rest.2⟩

end

/-! ### The readers -/

namespace Stacks

variable (ending : Token) (st : Stacks)

/-- The declaration of a variable behind 吾有. -/
def declaration (keyword : Token) (ts : List Token) : Except Halt ((Stmt × Rest ts) × Stacks) :=
  st.within .declaration fun st => do
    let (type, typed) ← st.reads (typeWord (st.site ending) ts)
    let (name, named) ← st.reads (declaredName (st.site ending) typed.1)
    let (value, valued) ←
      st.reads (initializer (st.site ending) (type.kind == .listType) named.1)
    let (_, closed) ← st.reads (expect (st.site ending) .close .expectedClose valued.1)
    return ((.declare keyword type name value,
      typed.past (named.past (valued.before closed).within).within), st)

/-- Printing behind 云. -/
def print (keyword : Token) (ts : List Token) : Except Halt ((Stmt × Rest ts) × Stacks) :=
  st.within .print fun st => do
    let (value, rest) ← st.reads (expression (st.site ending) ts)
    return ((.print keyword value, rest.past (skip .close rest.1)), st)

/-- Returning behind 乃得, which the stack of functions allows or not. -/
def returns (keyword : Token) (ts : List Token) : Except Halt ((Stmt × Within ts) × Stacks) :=
  st.within .returns fun st =>
    if !(st.site ending).inFunction then
      st.reads (.error ((st.site ending).refuse .onlyInsideFunction keyword))
    else if startsExpression ((st.site ending).peek ts).kind then do
      let (value, rest) ← st.reads (expression (st.site ending) ts)
      return ((.returns keyword (some value), (rest.past (skip .close rest.1)).within), st)
    else return ((.returns keyword none, skip .close ts), st)

/-- Leaving a loop behind 乃止, which the count of open loops allows or not. -/
def breaks (keyword : Token) (ts : List Token) : Except Halt ((Stmt × Within ts) × Stacks) :=
  st.within .breaks fun st =>
    if (st.site ending).inLoop then return ((.breaks keyword, skip .close ts), st)
    else st.reads (.error ((st.site ending).refuse .onlyInsideLoop keyword))

/-- A call for its effect behind 施. -/
def callStatement (keyword : Token) (ts : List Token) :
    Except Halt ((Stmt × Rest ts) × Stacks) :=
  st.within .call fun st => do
    let (value, rest) ← st.reads (call (st.site ending) keyword ts)
    return ((.perform keyword value, rest.past (skip .close rest.1)), st)

/-- An assignment behind its name. -/
def assignment (name : Token) (ts : List Token) : Except Halt ((Stmt × Rest ts) × Stacks) :=
  st.within .assignment fun st => do
    let (_, marked) ← st.reads (expect (st.site ending) .value .expectedValue ts)
    let (value, rest) ← st.reads (expression (st.site ending) marked.1)
    return ((.assign name value, marked.past (rest.past (skip .close rest.1)).within), st)

mutual

/-- **The statement at the front.** What cannot start a statement is refused without one being
begun. -/
def statement (ending : Token) (st : Stacks) (ts : List Token) :
    Except Halt ((Stmt × Rest ts) × Stacks) :=
  match ts with
  | [] => st.reads (.error ((st.site ending).refuse .undefinedStatement ending))
  | t :: rest =>
    match t.kind with
    | .declare => st.recorded .declaration fun st => do
      let ((s, left), st) ← st.declaration ending t rest
      return ((s, left.behind), st)
    | .print => st.recorded .print fun st => do
      let ((s, left), st) ← st.print ending t rest
      return ((s, left.behind), st)
    | .whether => st.recorded .conditional fun st => do
      let ((s, left), st) ← conditional ending st t rest
      return ((s, left.behind), st)
    | .loop => st.recorded .loop fun st => do
      let ((s, left), st) ← loop ending st t rest
      return ((s, left.behind), st)
    | .function => st.recorded .function fun st => do
      let ((s, left), st) ← function ending st t rest
      return ((s, left.behind), st)
    | .returns => st.recorded .returns fun st => do
      let ((s, left), st) ← st.returns ending t rest
      return ((s, left.behind), st)
    | .breaks => st.recorded .breaks fun st => do
      let ((s, left), st) ← st.breaks ending t rest
      return ((s, left.behind), st)
    | .apply => st.recorded .call fun st => do
      let ((s, left), st) ← st.callStatement ending t rest
      return ((s, left.behind), st)
    | .identifier => st.recorded .assignment fun st => do
      let ((s, left), st) ← st.assignment ending t rest
      return ((s, left.behind), st)
    | _ => st.reads (.error ((st.site ending).refuse .undefinedStatement t))
termination_by 3 * ts.length
decreasing_by all_goals simp only [List.length_cons]; omega

/-- The statements up to a closing token, which is left in place. -/
def block (ending : Token) (st : Stacks) (unclosed : Diagnostic.Cause) (closes : TokenKind → Bool)
    (ts : List Token) : Except Halt ((List Stmt × Within ts) × Stacks) :=
  match ts with
  | [] => st.reads (.error ((st.site ending).refuse unclosed ending))
  | t :: rest =>
    if closes t.kind then .ok (([], ⟨t :: rest, Nat.le_refl _⟩), st)
    else if t.kind = .eof then st.reads (.error ((st.site ending).refuse unclosed t))
    else do
      let ((s, ⟨ts₁, lt₁⟩), st) ← statement ending st (t :: rest)
      let ((ss, ⟨ts₂, le₂⟩), st) ← block ending st unclosed closes ts₁
      return ((s :: ss, ⟨ts₂, by omega⟩), st)
termination_by 3 * ts.length + 1
decreasing_by all_goals omega

/-- A conditional behind 若. -/
def conditional (ending : Token) (st : Stacks) (keyword : Token) (ts : List Token) :
    Except Halt ((Stmt × Rest ts) × Stacks) :=
  st.within .conditional fun st => do
    let (condition, ⟨ts₁, lt₁⟩) ← st.reads (expression (st.site ending) ts)
    let (_, ⟨ts₂, lt₂⟩) ← st.reads (expect (st.site ending) .thereupon .expectedThereupon ts₁)
    let ((yes, ⟨ts₃, le₃⟩), st) ← block ending st .expectedBlockEnd closesBranch ts₂
    match ts₃, le₃ with
    | [], _ => st.reads (.error ((st.site ending).refuse .expectedBlockEnd ending))
    | t :: rest, le₃ =>
      if t.kind = .otherwise then do
        let ((no, ⟨ts₄, le₄⟩), st) ← block ending st .expectedBlockEnd closesBlock rest
        let (_, ⟨ts₅, lt₅⟩) ← st.reads (expect (st.site ending) .blockEnd .expectedBlockEnd ts₄)
        return ((.conditional keyword condition yes no,
          ⟨ts₅, by simp only [List.length_cons] at le₃; omega⟩), st)
      else do
        let (_, ⟨ts₄, lt₄⟩) ←
          st.reads (expect (st.site ending) .blockEnd .expectedBlockEnd (t :: rest))
        return ((.conditional keyword condition yes [], ⟨ts₄, by omega⟩), st)
termination_by 3 * ts.length + 2
decreasing_by
  · omega
  · simp only [List.length_cons] at le₃; omega

/-- A loop behind 恆為是. -/
def loop (ending : Token) (st : Stacks) (keyword : Token) (ts : List Token) :
    Except Halt ((Stmt × Rest ts) × Stacks) :=
  st.within .loop fun st => st.looping fun st => do
    let ((body, inner), st) ← block ending st .expectedBlockEnd closesBlock ts
    let (_, closed) ← st.reads (expect (st.site ending) .blockEnd .expectedBlockEnd inner.1)
    return ((.loop keyword body, inner.before closed), st)
termination_by 3 * ts.length + 2
decreasing_by omega

/-- A function behind 有術. The name at its end is compared with that of the innermost frame. -/
def function (ending : Token) (st : Stacks) (keyword : Token) (ts : List Token) :
    Except Halt ((Stmt × Rest ts) × Stacks) :=
  st.within .function fun st => do
    let (name, ⟨ts₁, lt₁⟩) ← st.reads (declaredName (st.site ending) ts)
    st.calling name.lexeme fun st => do
      let (params, ⟨ts₂, le₂⟩) ← st.reads (signature (st.site ending) ts₁)
      let ((body, ⟨ts₃, le₃⟩), st) ← block ending st .expectedFunctionEnd closesBody ts₂
      let ⟨ts₄, lt₄⟩ ←
        st.reads (functionEnd (st.site ending) ⟨.string, st.frame.function, .nowhere⟩ ts₃)
      return ((.function keyword name params body, ⟨ts₄, by omega⟩), st)
termination_by 3 * ts.length + 2
decreasing_by omega

end

/-- All statements to the last token. -/
def statements (ending : Token) (st : Stacks) (ts : List Token) :
    Except Halt (List Stmt × Stacks) :=
  match ts with
  | [] => .ok ([], st)
  | t :: rest => do
    let ((s, ⟨ts₁, _⟩), st) ← statement ending st (t :: rest)
    let (ss, st) ← statements ending st ts₁
    return (s :: ss, st)
termination_by ts.length
decreasing_by assumption

/-- **A program,** read from the stacks at its start. -/
def program (tokens : List Token) : Except Halt (Program × Stacks) :=
  statements (Grammar.ending tokens) initial (body tokens)

end Stacks

/-! ### The innermost open statement -/

/-- The statement begun last, once `closed` more have been cancelled: going back, every end of a
statement cancels a beginning. -/
def innermostBehind (closed : Nat) : List Milestone → Option Diagnostic.Context
  | [] => none
  | .finished :: older => innermostBehind (closed + 1) older
  | .begun kind :: older =>
    match closed with
    | 0 => some kind
    | closed + 1 => innermostBehind closed older

/-- **The kind of the innermost statement that is begun and not finished,** if there is one. -/
def innermost? (history : List Milestone) : Option Diagnostic.Context := innermostBehind 0 history

end Grammar

end Guwen
