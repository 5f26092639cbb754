/-
**The target of a build: the file beside the source.**

A build that names no target writes next to its source, under the name of the source with another
extension. That is the source itself when it has this extension already, and then the code takes the
place of what it was made from.

* `Path.Beside` — a file of the same directory whose name differs in the extension at most.
* `Directory.Call.after_cases` — a build leaves the files alone, or has code to write.
* **`Directory.build_changes_beside`** — a build changes one file at most, the one beside its
  source, and keeps the source unless that is the same file.
* `Directory.build_destroys_source` — so a source can be lost.
-/
import Guwen.Proofs.Command.Agreement
import Guwen.Proofs.Command.Paths

namespace Guwen

namespace Path

/-- **The file beside another,** in the same directory: the extension of the name is replaced, or
added when there is none. -/
def Beside (extension : Text) (path other : List Text) : Prop :=
  ∃ front name stem old, path = front ++ [name] ∧ Splits name stem old ∧
    other = front ++ [stem ++ extension]

theorem exists_beside (extension : Text) {path : List Text} (given : path ≠ []) :
    ∃ other, Beside extension path other := by
  obtain ⟨stem, old, splits⟩ := exists_splits (path.getLast given)
  exact ⟨_, _, _, stem, old, (List.dropLast_append_getLast given).symm, splits, rfl⟩

/-- **A file lies beside itself just when it has the extension already.** -/
theorem beside_self_iff {path : List Text} : Beside ".cs" path path ↔
    ∃ front stem, path = front ++ [stem ++ (".cs" : Text)] := by
  constructor
  · rintro ⟨front, -, stem, -, -, -, same⟩
    exact ⟨front, stem, same⟩
  · rintro ⟨front, stem, rfl⟩
    exact ⟨front, _, stem, _, rfl, .dotted (by decide), rfl⟩

/-- Beside a clean path lies the clean path that it becomes by the other extension. -/
theorem Beside.clean {path other : List Text} (beside : Beside ".cs" path other)
    (clean : ∀ name ∈ path, IsName name) :
    withExtension (ofElements path) ".cs" = ofElements other ∧
      ∀ name ∈ other, IsName name := by
  obtain ⟨front, name, stem, old, rfl, splits, rfl⟩ := beside
  obtain ⟨names, last⟩ := List.forall_mem_append.mp clean
  have whole := last name List.mem_cons_self
  refine ⟨withExtension_ofElements splits whole.no_slash front _,
    List.forall_mem_append.mpr ⟨names, fun added member => ?_⟩⟩
  rw [List.mem_singleton.mp member]
  have kept : slash ∉ stem := by
    intro inside
    exact whole.no_slash (splits.eq_append ▸ List.mem_append_left old inside)
  have long : 2 < (stem ++ (".cs" : Text)).length := by
    rw [List.length_append]
    exact Nat.le_add_left 3 stem.length
  refine ⟨?_, ?_, ?_, ?_⟩
  · exact List.append_ne_nil_of_right_ne_nil stem (by decide)
  · intro same
    rw [same] at long
    exact absurd long (by decide)
  · intro same
    rw [same] at long
    exact absurd long (by decide)
  · rw [List.mem_append, not_or]
    exact ⟨kept, by decide⟩

end Path

namespace Directory

variable {d : Directory} {content : Text}

/-- **A build leaves the files alone,** or has code and writes it to its target. -/
theorem Call.after_cases (call : Call .build d content) :
    call.after = d ∨ ∃ code, call.compilation.outcome = .ok code ∧
      d.write call.target code = .ok call.after := by
  cases verdict content with
  | refused refusal compiled =>
    left
    rw [Call.after, call.execute_eq, show Command.task _ _ _ _ .build = _ from
      Task.build_of_refused (compiled _)]
    rfl
  | accepted compiled =>
    obtain ⟨code, compiled⟩ := compiled call.settings.wanted
    obtain ⟨output, log, writes⟩ := Task.build_of_ok compiled
    have run := call.execute_eq
    rw [show Command.task _ _ _ _ .build = _ from writes, perform] at run
    cases written : d.write call.target code with
    | error e =>
      left
      rw [show d.write (Task.target _ _) code = _ from written] at run
      rw [Call.after, run]
    | ok after =>
      right
      rw [show d.write (Task.target _ _) code = _ from written] at run
      have left : call.after = after := by rw [Call.after, run]
      exact ⟨code, compiled, left ▸ written⟩

/-- The names on the way to a source. -/
def locate (d : Directory) (source : Text) : List Text :=
  Path.elements (if Path.isAbsolute source then source
    else Path.ofElements d.home ++ [Path.slash] ++ source)

theorem isName_locate (d : Directory) (source : Text) :
    ∀ name ∈ d.locate source, Path.IsName name := fun _ => Path.isName_of_mem

/-- **The target of a build that names none lies beside the source.** -/
theorem Call.exists_target (call : Call .build d content) (usual : call.settings.out = []) :
    ∃ target, Path.Beside ".cs" (d.locate call.source) target ∧
      call.target = Path.ofElements target ∧ ∀ name ∈ target, Path.IsName name := by
  have clean := d.isName_locate call.source
  obtain ⟨given, -, -⟩ := file?_of_read clean call.reads
  obtain ⟨target, beside⟩ := Path.exists_beside ".cs" given
  obtain ⟨written, names⟩ := beside.clean clean
  refine ⟨target, beside, ?_, names⟩
  rw [Call.target, Task.target, usual]
  exact written

/-- **What a build on a source does to the files.** -/
structure Built (d : Directory) (settings : Settings) (path : List Text) (after : Directory) :
    Prop where
  /-- Nothing changes, or just the file beside the source, and that only if the source compiles. -/
  changes : after = d ∨ ∃ content code target, d.file? path = some content ∧
    (compile settings.wanted content).outcome = .ok code ∧
    Path.Beside ".cs" path target ∧ d.Puts target code after
  /-- A source that does not lie beside itself keeps its content. -/
  keeps : ¬ Path.Beside ".cs" path path → after.file? path = d.file? path
  /-- A source that does is replaced by its code. -/
  loses : Path.Beside ".cs" path path → ∀ content code,
    d.read (Path.ofElements path) = .ok content →
    (compile settings.wanted content).outcome = .ok code → after.file? path = some code
  /-- These are the sources whose name ends with the extension. -/
  itself : Path.Beside ".cs" path path ↔ ∃ front stem, path = front ++ [stem ++ (".cs" : Text)]

/-- A build that can read its source. -/
theorem Call.built (call : Call .build d content) (usual : call.settings.out = []) :
    d.Built call.settings (d.locate call.source) call.after := by
  have clean := d.isName_locate call.source
  obtain ⟨-, held, leads⟩ := file?_of_read clean call.reads
  obtain ⟨target, beside, written, names⟩ := call.exists_target usual
  have changes : call.after = d ∨ ∃ code, call.compilation.outcome = .ok code ∧
      d.Puts target code call.after := by
    refine call.after_cases.imp_right fun ⟨code, compiled, writes⟩ => ⟨code, compiled, ?_⟩
    rw [written] at writes
    obtain ⟨path, arrives, puts⟩ := puts_write writes
    exact eq_of_leads names arrives ▸ puts
  refine ⟨?_, fun other => ?_, fun same found code reads compiled => ?_, Path.beside_self_iff⟩
  · exact changes.imp_right fun ⟨code, compiled, puts⟩ =>
      ⟨content, code, target, held, compiled, beside, puts⟩
  · rcases changes with same | ⟨code, -, puts⟩
    · rw [same]
    · exact puts.elsewhere _ fun same => other (same ▸ beside)
  · obtain rfl : content = found := Except.ok.inj (call.reads.symm.trans reads)
    -- The same path leads to the source, so it can be written.
    have itself : call.target = Path.ofElements (d.locate call.source) := by
      rw [Call.target, Task.target, usual]
      exact (same.clean clean).1
    obtain ⟨-, writes⟩ := call.after_build compiled
      ⟨code, _, write_eq_ok_iff.mpr ⟨_, itself ▸ leads, rfl⟩⟩
    rw [itself] at writes
    obtain ⟨path, arrives, puts⟩ := puts_write writes
    exact eq_of_leads clean arrives ▸ puts.here

/-- **A build changes one file at most, the one beside its source.** Whatever files there are and
wherever the source lies, a build that names no target either leaves all files alone or writes the
code of the source to the file of the same directory whose name has the extension `.cs` in place of
that of the source. The source keeps its content, whether or not it compiles, unless its own name
ends with `.cs`; then the code takes its place. -/
theorem build_changes_beside (wording : Wording) {settings : Settings} (usual : settings.out = [])
    (source : Text) :
    d.Built settings (d.locate source) (d.execute wording .build settings source).2 := by
  cases reads : d.read (Path.absolute (Path.ofElements d.home) source) with
  | ok content =>
    let call : Call .build d content := ⟨wording, settings, source, reads⟩
    exact call.built usual
  | error e =>
    have same : (d.execute wording .build settings source).2 = d := by
      unfold execute
      dsimp only
      rw [reads]
    rw [same]
    refine ⟨.inl rfl, fun _ => rfl, fun _ content code found => ?_, Path.beside_self_iff⟩
    cases reads.symm.trans found

/-- The dots of a directory and the first dot of a name do not count. -/
theorem build_changes_beside_dotted :
    let path : List Text := ["w", "v.1", "a.b.wy"]
    let d : Directory := ⟨["w"], [(path, "云一")]⟩
    let wording : Wording := ⟨Text.ofNat, fun file _ => file⟩
    let settings : Settings := ⟨false, false, [], [], [], 2⟩
    settings.out = [] ∧ d.locate "v.1/./a.b.wy" = path ∧
      Path.Beside ".cs" path ["w", "v.1", "a.b.cs"] ∧
      d.Built settings path (d.execute wording .build settings "v.1/./a.b.wy").2 := by
  intro path d wording settings
  have lies : d.locate "v.1/./a.b.wy" = path := by decide +kernel
  have splits : Path.Splits "a.b.wy" "a.b" ".wy" := @Path.Splits.dotted "a.b" "wy" (by decide)
  exact ⟨rfl, lies, ⟨["w", "v.1"], _, _, _, rfl, splits, rfl⟩,
    lies ▸ build_changes_beside wording rfl _⟩

/-- **A build that destroys its source:** the source is a file with the extension `.cs`. -/
theorem build_destroys_source :
    ∃ (d : Directory) (settings : Settings) (source : Text), settings.out = [] ∧
      ∀ wording, (d.execute wording .build settings source).2.file? (d.locate source) ≠
        d.file? (d.locate source) := by
  let d : Directory := ⟨["w"], [(["w", "a.cs"], "云一")]⟩
  refine ⟨d, .standard, "a.cs", rfl, fun wording kept => ?_⟩
  let call : Call .build d "云一" := ⟨wording, .standard, "a.cs", by decide +kernel⟩
  have lies : d.locate "a.cs" = (["w", "a.cs"] : List Text) := by decide +kernel
  have scanned : Token.tokenize "云一" =
      [⟨.print, "云", 1, 1⟩, ⟨.number, "一", 1, 2⟩, ⟨.eof, [], 1, 3⟩] := by
    decide +kernel
  have read : Program.ofSource "云一" =
      .ok [.print ⟨.print, "云", 1, 1⟩ (.literal ⟨.number, "一", 1, 2⟩ .number "1")] := by
    rw [Program.ofSource, scanned]
    with_unfolding_all rfl
  obtain ⟨code, accepted⟩ := exists_compile Settings.standard.wanted read (by decide)
  have lost := (call.built rfl).loses (Path.beside_self_iff.mpr ⟨["w"], "a", lies⟩) "云一" code
    call.reads accepted
  -- The code starts with `using`, the source does not.
  obtain ⟨p, -, -, written⟩ := compile_eq_ok_iff.mp accepted
  obtain ⟨inner, -, written⟩ := bind_eq_ok.mp written
  cases written
  have same := lost.symm.trans kept
  rw [show d.locate call.source = _ from lies] at same
  cases congrArg (Option.map List.head?) same

end Directory

end Guwen
