/-
**Compilation: from a source to C#, stage by stage.**

A source is read into tokens, the tokens into a tree, the names of the tree are resolved, and the
tree is written as C#. The first stage that fails ends the compilation. Each stage leaves an event
in the log.

* `compile` gives the log and the outcome.
* `Event.message` and `Event.fields` say what an event records.
-/
import Guwen.Code.Generation
import Guwen.Grammar.Program
import Guwen.Resolution

namespace Guwen

/-- **What a stage of a compilation did.** -/
inductive Event where
  /-- The source has so many tokens. -/
  | tokenized (tokens : Nat)
  | parsingFailed (fault : Fault)
  /-- The program has so many statements. -/
  | parsed (statements : Nat)
  | analysisFailed (fault : Fault)
  | analyzed
  /-- The code has so many bytes. -/
  | generated (bytes : Nat)

namespace Event

/-- The value of a field. -/
inductive Value where
  | text (t : Text)
  | number (n : Nat)

/-- The value as a log writes it. -/
def Value.render : Value → Text
  | text t => t
  | number n => Text.ofNat n

/-- What the log says of the event. -/
def message : Event → Text
  | tokenized _ => "tokenized source"
  | parsingFailed _ => "parsing failed"
  | parsed _ => "parsed program"
  | analysisFailed _ => "analysis failed"
  | analyzed => "analyzed program"
  | generated _ => "generated code"

/-- **The fields of an event,** by name. -/
def fields : Event → List (String × Value)
  | tokenized tokens => [("stage", .text "lex"), ("tokens", .number tokens)]
  | parsingFailed fault => [("error", .text fault.message), ("stage", .text "parse")]
  | parsed statements => [("stage", .text "parse"), ("statements", .number statements)]
  | analysisFailed fault => [("error", .text fault.message), ("stage", .text "analyze")]
  | analyzed => [("stage", .text "analyze")]
  | generated bytes => [("bytes", .number bytes), ("stage", .text "generate")]

/-- The stage came to its end, so its time is known. -/
def isTimed : Event → Bool
  | parsingFailed _ | analysisFailed _ => false
  | _ => true

end Event

/-- **A compilation:** its log, and the code or the fault that ended it. -/
structure Compilation where
  log : List Event
  outcome : Except Fault Text

namespace Compilation

/-- The same after an earlier event. -/
def after (event : Event) (c : Compilation) : Compilation := { c with log := event :: c.log }

end Compilation

/-- A resolved program, written as C#. -/
def compileResolved (options : Options) (p : Program) : Compilation :=
  match p.code options with
  | .ok code => ⟨[.generated code.length], .ok code⟩
  | .error fault => ⟨[], .error fault⟩

/-- A program as it was read. -/
def compileProgram (options : Options) (p : Program) : Compilation :=
  let r := p.resolve
  match r.fault with
  | none => (compileResolved options r.tree).after .analyzed
  | some fault => ⟨[.analysisFailed fault], .error fault⟩

/-- The tokens of a source. -/
def compileTokens (options : Options) (tokens : List Token) : Compilation :=
  match Program.ofTokens tokens with
  | .ok p => (compileProgram options p).after (.parsed p.length)
  | .error d => ⟨[.parsingFailed (.refused d)], .error (.refused d)⟩

/-- **The compilation of a source.** -/
def compile (options : Options) (source : Text) : Compilation :=
  let tokens := Token.tokenize source
  (compileTokens options tokens).after (.tokenized tokens.length)

/-! ### Reports -/

/-- **What the user is told when work fails:** a diagnostic with its place, or any other message. -/
inductive Report where
  | diagnostic (d : Diagnostic)
  | plain (message : Text)

namespace Report

/-- The text that the report writes. -/
def text : Report → Text
  | diagnostic d => d.report
  | plain message => message ++ "\n"

/-- The report of a fault. -/
def ofFault : Fault → Report
  | .refused d => .diagnostic d
  | fault => .plain fault.message

end Report

end Guwen
