/-
**Names of the program and names of the library.**

The code prints, and calls the builtin functions, through classes of the C# library. A name that the
program declares takes the place of such a class where it is in scope, if it is written like it.
Hashed names and reserved words never are; a plain name is written as it stands, so the class is
hidden by a declaration of the same spelling, and by no other.

* `Builtin.owner`, `libraryNames` — the classes that the code goes through.
* `Code.identifier_eq_iff_of_plain` — a plain word is the identifier of one name, itself.
* `declared_fold_replay`, `lexemes_declared` — the code declares what the tree declares.
* **`compile_hides_library_iff`** — the identifiers that the code declares, and when one of them is
  the name of a class.
* `compile_hides_library` — so a class of the library can be hidden.
-/
import Guwen.Proofs.Code.Delimiters
import Guwen.Proofs.Compilation.Nesting
import Guwen.Proofs.Resolution.Declarations

namespace Guwen

open Code

/-! ### Classes of the library -/

/-- The class through which the code of a builtin function goes: what stands before the first
dot. -/
def Builtin.owner (b : Builtin) : Text := b.word.takeWhile (· != 46)

/-- **The classes that the code goes through.** Printing goes through that of 輸出. -/
def libraryNames : List Text := (Builtin.all.filter (·.kind == .function)).map Builtin.owner

example : libraryNames = ["Console", "Console", "Convert", "Convert"] := by decide

/-- A plain word that is not reserved is the identifier of one name, itself. -/
theorem Code.identifier_eq_iff_of_plain {word : Text} (plain : isPlain word = true)
    (free : isReserved word = false) (name : Text) : identifier name = word ↔ name = word := by
  have itself : identifier word = word := by
    rw [identifier, if_pos plain, if_neg (by simp [free])]
  rw [← itself, identifier_eq_iff, itself]
  simp [plain]

theorem plain_of_mem_libraryNames {word : Text} (member : word ∈ libraryNames) :
    isPlain word = true ∧ isReserved word = false := by
  have each : libraryNames.all (fun word => isPlain word && !isReserved word) = true := by
    decide +kernel
  simpa using List.all_eq_true.mp each word member

/-! ### What the code declares -/

theorem declared_refer (names : Names) (xs : List Text) :
    (xs.foldl Names.refer names).declared = names.declared := by
  induction xs generalizing names with
  | nil => rfl
  | cons x xs ih => exact ih (names.refer x)

/-- **Reading the code of some acts finds the identifiers that they declare,** in order. -/
theorem declared_fold_replay (acts : List Act) (names : Names) :
    (acts.foldl Act.replay names).declared =
      names.declared ++ (acts.filterMap Act.declared?).map fun name => identifier name.lexeme := by
  induction acts generalizing names with
  | nil => exact (List.append_nil _).symm
  | cons act acts ih =>
    rw [List.foldl_cons, ih]
    cases act with
    | enter | leave => rfl
    | declare name type kind =>
      exact List.append_assoc names.declared [identifier name.lexeme] _
    | use | target | call => exact congrArg (· ++ _) (declared_refer names _)

/-- The acts of a tree declare the names of its declarations. -/
theorem lexemes_declaredFrom (depth : Nat) (acts : List Act) :
    (declaredFrom depth acts).map Symbol.name =
      (acts.filterMap Act.declared?).map Token.lexeme := by
  induction acts generalizing depth with
  | nil => rfl
  | cons act acts ih =>
    rw [declaredFrom, List.map_append, ih]
    cases act with
    | enter | leave | declare | use | target | call => rfl

theorem declared?_bare (act : Act) : act.bare.declared? = act.declared? := by
  cases act <;> rfl

/-- Resolution leaves the declarations of a tree as they are. -/
theorem lexemes_resolve (p : Program) :
    ((stmtActs p.resolve.tree).filterMap Act.declared?).map Token.lexeme =
      p.declarations.map fun d => d.name.lexeme := by
  have same : (stmtActs p.resolve.tree).map Act.bare = (stmtActs p).map Act.bare := by
    rw [← stmtActs_bare, ← stmtActs_bare]
    exact congrArg stmtActs (bare_resolveStmts .initial p)
  have bare : ∀ acts : List Act, acts.filterMap Act.declared? =
      (acts.map Act.bare).filterMap Act.declared? := by
    intro acts
    rw [List.filterMap_map]
    exact congrArg (List.filterMap · acts) (funext fun act => (declared?_bare act).symm)
  have acts := declaredFrom_stmtActs [] [] p
  rw [List.append_nil] at acts
  rw [bare, same, ← bare, ← lexemes_declaredFrom 0, show declaredFrom 0 _ = _ from acts,
    List.map_append, List.map_map]
  exact List.append_nil _

/-- **The code of an accepted source declares the identifiers of its declarations,** line by line
whatever the options are, and read as a whole where they keep the lines apart. -/
theorem exists_declared {options : Options} {source code : Text}
    (accepted : (compile options source).outcome = .ok code) :
    ∃ p inner, Program.ofSource source = .ok p ∧ stmtMarks p.resolve.tree = .ok inner ∧
      code = Mark.layout options.withDefaults.indent 0 (wrap options.withDefaults inner) ∧
      (inner.foldl readMark .none).declared =
        p.declarations.map (fun d => identifier d.name.lexeme) ∧
      (options.Tidy →
        (readUnit code).declared = p.declarations.map fun d => identifier d.name.lexeme) := by
  obtain ⟨p, inner, read, resolved, written, -, rfl⟩ := exists_marks accepted
  have complete := Grammar.complete_of_derives (Grammar.ofTokens_eq_ok_iff.mp read)
  have legible : stmtsLegible p.resolve.tree := by
    rw [legible_resolve]
    exact legible_of_ofSource read
  have fit := fits_of_resolve complete resolved
  have identifiers : ((stmtActs p.resolve.tree).filterMap Act.declared?).map
      (fun name => identifier name.lexeme) =
        p.declarations.map fun d => identifier d.name.lexeme := by
    have spelt := congrArg (List.map identifier) (lexemes_resolve p)
    rwa [List.map_map, List.map_map] at spelt
  refine ⟨p, inner, read, written, rfl, ?_, fun tidy => ?_⟩
  · rw [(replays_stmtMarks _ legible fit inner written).reads .none rfl, declared_fold_replay,
      identifiers]
    rfl
  · have whole : Program.code options p.resolve.tree =
        .ok (Mark.layout options.withDefaults.indent 0 (wrap options.withDefaults inner)) := by
      rw [Program.code, written]
      rfl
    rw [readUnit_code tidy legible fit whole, ← identifiers]
    exact declared_fold_replay _ Names.none.enter.enter.enter

/-! ### The main result -/

/-- **The code declares the identifiers of the source's declarations, and hides a class of the
library just when the source declares a name of its spelling.** For every accepted source, whatever
the options are, the lines of its statements declare in order one identifier for each variable,
function and parameter of the source. One of them is the name of a class that the code goes through
just when a declaration has that very name: no reserved word and no hashed name can hide a class. -/
theorem compile_hides_library_iff {options : Options} {source code : Text}
    (accepted : (compile options source).outcome = .ok code) :
    ∃ p inner, Program.ofSource source = .ok p ∧ stmtMarks p.resolve.tree = .ok inner ∧
      code = Mark.layout options.withDefaults.indent 0 (wrap options.withDefaults inner) ∧
      (inner.foldl readMark .none).declared =
        p.declarations.map (fun d => identifier d.name.lexeme) ∧
      (options.Tidy → (readUnit code).declared = (inner.foldl readMark .none).declared) ∧
      ∀ word ∈ libraryNames, word ∈ (inner.foldl readMark .none).declared ↔
        ∃ d ∈ p.declarations, d.name.lexeme = word := by
  obtain ⟨p, inner, read, written, laid, declares, whole⟩ := exists_declared accepted
  refine ⟨p, inner, read, written, laid, declares,
    fun tidy => (whole tidy).trans declares.symm, fun word member => ?_⟩
  obtain ⟨plain, free⟩ := plain_of_mem_libraryNames member
  rw [declares, List.mem_map]
  simp only [identifier_eq_iff_of_plain plain free]

/-- A function named like a class, with a reserved word and a hashed name as its parameters, hides
that class and no other. -/
theorem compile_hides_library_iff_convert :
    let source : Text := "有術曰「Convert」必先得一數曰「class」、一數曰「甲」乃得一之術也"
    ∃ code, (compile .blank source).outcome = .ok code ∧
      (readUnit code).declared = (["Convert", "@class", identifier "甲"] : List Text) ∧
      ("Convert" : Text) ∈ (readUnit code).declared ∧
      ("Console" : Text) ∈ libraryNames ∧ ("Console" : Text) ∉ (readUnit code).declared := by
  intro source
  have scanned : Token.tokenize source =
      [⟨.function, "有術", 1, 1⟩, ⟨.named, "曰", 1, 3⟩, ⟨.string, "Convert", 1, 4⟩,
       ⟨.params, "必先得", 1, 13⟩, ⟨.numberType, "一數", 1, 16⟩, ⟨.named, "曰", 1, 18⟩,
       ⟨.string, "class", 1, 19⟩, ⟨.comma, "、", 1, 26⟩, ⟨.numberType, "一數", 1, 27⟩,
       ⟨.named, "曰", 1, 29⟩, ⟨.string, "甲", 1, 30⟩, ⟨.returns, "乃得", 1, 33⟩,
       ⟨.number, "一", 1, 35⟩, ⟨.functionEnd, "之術也", 1, 36⟩, ⟨.eof, [], 1, 39⟩] := by
    decide +kernel
  obtain ⟨p, read, resolved, names⟩ : ∃ p, Program.ofSource source = .ok p ∧
      p.resolve.fault = none ∧
      p.declarations.map (fun d => d.name.lexeme) = (["Convert", "class", "甲"] : List Text) := by
    refine ⟨[
      .function ⟨.function, "有術", 1, 1⟩ ⟨.string, "Convert", 1, 4⟩
        [⟨⟨.numberType, "一數", 1, 16⟩, ⟨.string, "class", 1, 19⟩⟩,
         ⟨⟨.numberType, "一數", 1, 27⟩, ⟨.string, "甲", 1, 30⟩⟩]
        [.returns ⟨.returns, "乃得", 1, 33⟩
          (some (.literal ⟨.number, "一", 1, 35⟩ .number "1"))]], ?_, ?_, ?_⟩
    · rw [Program.ofSource, scanned]
      with_unfolding_all rfl
    · decide
    · decide
  obtain ⟨code, accepted⟩ := exists_compile .blank read resolved
  obtain ⟨p', inner, read', -, -, declares, whole, hides⟩ := compile_hides_library_iff accepted
  obtain rfl : p = p' := Except.ok.inj (read.symm.trans read')
  have identifiers := congrArg (List.map identifier) names
  rw [List.map_map] at identifiers
  have member : ("Console" : Text) ∈ libraryNames := by decide
  refine ⟨code, accepted, ?_⟩
  rw [whole Options.tidy_blank]
  refine ⟨declares.trans identifiers, (hides _ (by decide)).mpr ?_, member,
    fun hidden => ?_⟩
  · exact List.mem_map.mp (names ▸ by decide : ("Convert" : Text) ∈ p.declarations.map _)
  · exact absurd (List.mem_map.mpr ((hides _ member).mp hidden)) (by rw [names]; decide)

/-- **An accepted source whose code declares the name of a class that it goes through:** the print
behind the declaration is no longer that of the library. -/
theorem compile_hides_library :
    ¬ ∀ source code : Text, (compile .blank source).outcome = .ok code →
      ∀ word ∈ libraryNames, word ∉ (readUnit code).declared := by
  intro never
  have scanned : Token.tokenize "吾有一數曰「Console」也云一" =
      [⟨.declare, "吾有", 1, 1⟩, ⟨.numberType, "一數", 1, 3⟩, ⟨.named, "曰", 1, 5⟩,
       ⟨.string, "Console", 1, 6⟩, ⟨.close, "也", 1, 15⟩, ⟨.print, "云", 1, 16⟩,
       ⟨.number, "一", 1, 17⟩, ⟨.eof, [], 1, 18⟩] := by
    decide +kernel
  obtain ⟨p, read, resolved, names⟩ : ∃ p,
      Program.ofSource "吾有一數曰「Console」也云一" = .ok p ∧ p.resolve.fault = none ∧
        p.declarations.map (fun d => identifier d.name.lexeme) = (["Console"] : List Text) := by
    refine ⟨[
      .declare ⟨.declare, "吾有", 1, 1⟩ ⟨.numberType, "一數", 1, 3⟩ ⟨.string, "Console", 1, 6⟩ none,
      .print ⟨.print, "云", 1, 16⟩ (.literal ⟨.number, "一", 1, 17⟩ .number "1")], ?_, ?_, ?_⟩
    · rw [Program.ofSource, scanned]
      with_unfolding_all rfl
    · decide
    · decide
  obtain ⟨code, accepted⟩ := exists_compile .blank read resolved
  obtain ⟨p', inner, read', -, -, -, whole⟩ := exists_declared accepted
  obtain rfl : p = p' := Except.ok.inj (read.symm.trans read')
  refine never _ code accepted "Console" (by decide) ?_
  rw [whole Options.tidy_blank, names]
  decide

end Guwen
