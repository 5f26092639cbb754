/-
**Names keep their meaning from the source to the code.**

The code of an accepted source, read for its names alone, declares what the source declares, in the
same order; and each name in use stands there for the declaration that resolution found for it.

* `Options.Tidy` — the options keep the lines of the code apart.
* `HashesApart` — names that are hashed have different hashes.
* `readUnit_code` — the code of a program replays the acts of its tree.
* `nodup_declared` — the declared symbols of a source differ, for they stand at different places.
* **`compile_preserves_names`** — the whole of it.
-/
import Guwen.Proofs.Code.Mirror
import Guwen.Proofs.Compilation.Safety
import Guwen.Proofs.Grammar.Provenance
import Mathlib.Data.List.Nodup

namespace Guwen

open Code

/-! ### Accepted sources -/

/-- **A source is accepted when each stage succeeds.** -/
theorem compile_eq_ok_iff {options : Options} {source code : Text} :
    (compile options source).outcome = .ok code ↔
      ∃ p, Program.ofSource source = .ok p ∧ p.resolve.fault = none ∧
        Program.code options p.resolve.tree = .ok code := by
  rw [outcome_eq]
  cases read : Program.ofSource source with
  | error d => simp
  | ok p => cases stopped : p.resolve.fault <;> simp [stopped]

/-- **A source that can be read and resolved is accepted,** whatever the options are. -/
theorem exists_compile (options : Options) {source : Text} {p : Program}
    (read : Program.ofSource source = .ok p) (resolved : p.resolve.fault = none) :
    ∃ code, (compile options source).outcome = .ok code := by
  have complete := Grammar.complete_of_derives (Grammar.ofTokens_eq_ok_iff.mp read)
  obtain ⟨code, written, -⟩ :=
    Program.exists_code options p.resolve.tree ((complete_resolve p).trans complete)
  exact ⟨code, compile_eq_ok_iff.mpr ⟨p, read, resolved, written⟩⟩

/-! ### The unit around a program -/

/-- **The options keep the lines of the code apart:** each name is on one line, and the indentation
is blank. -/
structure Options.Tidy (options : Options) : Prop where
  space : 10 ∉ options.space
  className : 10 ∉ options.className
  indent : ∀ b ∈ options.indent, isBlankByte b = true

theorem Options.Tidy.withDefaults {options : Options} (tidy : options.Tidy) :
    options.withDefaults.Tidy := by
  unfold Options.withDefaults
  refine ⟨?_, ?_, ?_⟩
  · show 10 ∉ if options.space.isEmpty then standard.space else options.space
    split
    · decide
    · exact tidy.space
  · show 10 ∉ if options.className.isEmpty then standard.className else options.className
    split
    · decide
    · exact tidy.className
  · show ∀ b ∈ if options.indent.isEmpty then standard.indent else options.indent,
      isBlankByte b = true
    split
    · exact List.all_eq_true.mp (by decide)
    · exact tidy.indent

theorem Options.tidy_blank : Options.blank.Tidy :=
  ⟨by decide, by decide, fun _ member => absurd member List.not_mem_nil⟩

/-- A line around the program. -/
theorem replays_frame {code : Text} (line : 10 ∉ code)
    (frame : ∀ names, readLine names code = names) : Replays [.line code] [] := by
  refine ⟨fun code' member => ?_, fun names _ => frame names⟩
  cases List.mem_singleton.mp member
  exact line

theorem replays_wrap {options : Options} (tidy : options.Tidy) {inner : List Mark} {acts : List Act}
    (inside : Replays inner acts) :
    Replays (wrap options inner) (blockActs (blockActs (blockActs acts))) := by
  have main : Replays [.line "public static void Main()"] [] :=
    replays_frame (by decide) fun _ => rfl
  have unit : Replays [.line ("public class " ++ options.className)] [] :=
    replays_frame (not_mem_append (by decide) tidy.className) fun _ => rfl
  have space : Replays [.line ("namespace " ++ options.space)] [] :=
    replays_frame (not_mem_append (by decide) tidy.space) fun _ => rfl
  have blank : Replays [.line ""] [] := replays_frame (by decide) fun _ => rfl
  have first : Replays [.line "using System;"] [] := replays_frame (by decide) fun _ => rfl
  have second : Replays [.line "using System.Collections.Generic;"] [] :=
    replays_frame (by decide) fun _ => rfl
  exact first.append (second.append (blank.append (space.append
    (unit.append (main.append inside.block).block).block)))

/-- **The code of a legible program replays the acts of its tree,** inside three blocks. -/
theorem readUnit_code {options : Options} (tidy : options.Tidy) {p : Program} {code : Text}
    (legible : stmtsLegible p) (fit : ∀ act ∈ stmtActs p, act.Fits)
    (written : Program.code options p = .ok code) :
    readUnit code =
      ((stmtActs p).foldl Act.replay Names.none.enter.enter.enter).leave.leave.leave := by
  unfold Program.code at written
  obtain ⟨inner, innerWritten, written⟩ := bind_eq_ok.mp written
  cases written
  have whole := replays_wrap tidy.withDefaults (replays_stmtMarks p legible fit inner innerWritten)
  unfold readUnit
  rw [fold_layout tidy.withDefaults.indent whole.oneLine, whole.reads _ rfl]
  simp only [blockActs, List.foldl_cons, List.foldl_append, List.cons_append, List.foldl_nil]
  rfl

/-! ### Declared symbols -/

/-- What an act gives is among what all acts give. -/
theorem mem_along {α : Type} {give : Scope → Act → Option α} {scope middle : Scope}
    {before : List Act} (start : walk scope before = .ok middle) {act : Act} {a : α}
    (given : give middle act = some a) (after : List Act) :
    a ∈ along give scope (before ++ act :: after) := by
  rw [along_append, start]
  refine List.mem_append_right _ ?_
  show a ∈ along give middle (act :: after)
  rw [along, given]
  exact List.mem_append_left _ (List.mem_singleton_self a)

/-- The symbol of a declaration that runs has the name and the place of its token. -/
theorem symbol?_of_run {scope next : Scope} {act : Act} {token : Token}
    (declares : act.declared? = some token) (ran : act.run scope = .ok next) :
    ∃ symbol, act.symbol? scope = some symbol ∧ symbol.name = token.lexeme ∧
      symbol.position = token.position := by
  cases act with
  | declare name type kind =>
    cases declares
    obtain ⟨-, -, symbol⟩ := Act.eq_of_run_declare ran
    exact ⟨_, symbol, rfl, rfl⟩
  | enter | leave | use | target | call => cases declares

/-- The symbols of a run stand at the places of the names that are declared. -/
theorem positions_along {scope next : Scope} {acts : List Act} (ran : walk scope acts = .ok next) :
    (along Act.symbol? scope acts).map Symbol.position =
      (acts.filterMap Act.declared?).map Token.position := by
  induction acts generalizing scope with
  | nil => rfl
  | cons act acts ih =>
    rw [walk_cons, bind_eq_ok] at ran
    obtain ⟨middle, one, ran⟩ := ran
    rw [along, one]
    cases declares : act.declared? with
    | none =>
      have nothing : act.symbol? scope = none := by
        cases act with
        | declare => cases declares
        | enter | leave | use | target | call => rfl
      rw [nothing, List.filterMap_cons_none declares]
      exact ih ran
    | some token =>
      obtain ⟨symbol, given, -, place⟩ := symbol?_of_run declares one
      rw [given, List.filterMap_cons_some declares, List.map_cons, ← ih ran, ← place]
      rfl

section Program

variable {source : Text} {p : Program}

/-- The acts of a program come from the tokens of its source. -/
theorem yields_of_ofSource (read : Program.ofSource source = .ok p) :
    Grammar.Yields (stmtActs p) (Grammar.body (Token.tokenize source)) :=
  Grammar.yields_of_forms (Grammar.ofTokens_eq_ok_iff.mp read)

theorem legible_of_ofSource (read : Program.ofSource source = .ok p) : stmtsLegible p :=
  Grammar.legible_of_forms (Grammar.ofTokens_eq_ok_iff.mp read) (body_tokenize source).1

theorem apt_of_ofSource (read : Program.ofSource source = .ok p) : ∀ act ∈ stmtActs p, act.Apt := by
  intro act member name mark same b known named
  subst same
  obtain ⟨inside, identifier⟩ := (yields_of_ofSource read).uses name mark member
  exact Grammar.value_of_spelt ((body_tokenize source).1 name inside) identifier known named

/-- **The declared symbols of a source differ,** for they stand at different places. -/
theorem nodup_declared (read : Program.ofSource source = .ok p)
    (resolved : p.resolve.fault = none) : p.resolve.declared.Nodup := by
  have complete := Grammar.complete_of_derives (Grammar.ofTokens_eq_ok_iff.mp read)
  have symbols : p.resolve.declared = along Act.symbol? .initial (stmtActs p) :=
    (runs_stmtActs .initial p complete).symbols
  have places : ((Grammar.body (Token.tokenize source)).map Token.position).Nodup := by
    rw [List.Nodup, List.pairwise_map]
    have ordered := Token.places_tokenize source
    rw [(body_tokenize source).2] at ordered
    exact (List.pairwise_append.mp ordered).1.imp Position.Before.ne
  refine List.Nodup.of_map Symbol.position ?_
  rw [symbols, positions_along (walk_of_resolve complete resolved)]
  exact places.sublist ((yields_of_ofSource read).declares.map Token.position)

/-! ### Names of the program -/

/-- **Names that are hashed have different hashes.** -/
def HashesApart (p : Program) : Prop :=
  ∀ s ∈ p.resolve.declared, ∀ t ∈ p.resolve.declared, isPlain s.name = false →
    isPlain t.name = false → Code.hash s.name = Code.hash t.name → s.name = t.name

/-- The name of a declared symbol. -/
def IsDeclared (p : Program) (name : Text) : Prop := ∃ s ∈ p.resolve.declared, s.name = name

theorem distinct_of_hashesApart (apart : HashesApart p) : Distinct (IsDeclared p) := by
  intro a b ⟨s, declared, named⟩ ⟨t, declared', named'⟩ same
  subst named named'
  rcases (identifier_eq_iff s.name t.name).mp same with equal | ⟨hashed, hashed', collide⟩
  · exact equal
  · exact apart s declared t declared' hashed hashed' collide

/-- The names a program refers to and what they stand for, builtins apart, in the order of the
walk. -/
def Program.references (p : Program) : List (Token × Symbol) :=
  along Act.userReference? .initial (stmtActs p)

theorem mirrors_initial (Good : Text → Prop) :
    Mirrors Good [] .initial Names.none.enter.enter.enter := by
  have builtins : Shows [] Scope.initial.globals [] := .nil
  refine ⟨⟨[[]], [[], []], rfl, ?_, .cons builtins .nil⟩, rfl, rfl, rfl, ?_⟩
  · simp
  · exact fun _ member => absurd member List.not_mem_nil

/-- In a run that succeeds every mark comes from the scope at its place. -/
theorem split_of_mem_markActs {scope next : Scope} {acts : List Act}
    (ran : walk scope acts = .ok next) {marked : Act} (member : marked ∈ markActs scope acts) :
    ∃ before act after middle behind, acts = before ++ act :: after ∧
      walk scope before = .ok middle ∧ act.run middle = .ok behind ∧
      marked = act.marked middle := by
  induction acts generalizing scope with
  | nil => cases member
  | cons act acts ih =>
    rw [walk_cons, bind_eq_ok] at ran
    obtain ⟨middle, one, ran⟩ := ran
    rw [markActs, one] at member
    rcases List.mem_cons.mp member with rfl | later
    · exact ⟨[], act, acts, scope, middle, rfl, rfl, one, rfl⟩
    · obtain ⟨before, other, after, inner, behind, rfl, start, stop, same⟩ := ih ran later
      refine ⟨act :: before, other, after, inner, behind, rfl, ?_, stop, same⟩
      rw [walk_cons, one]
      exact start

/-- **The acts of a resolved tree are those of the program,** each with the mark that it gets at its
place. -/
theorem forall_acts_resolve {P : Act → Prop} (complete : stmtsComplete p = true)
    (resolved : p.resolve.fault = none)
    (each : ∀ before act scope next, act ∈ stmtActs p → Pictures before scope → StaysOpen before →
      act.run scope = .ok next → P (act.marked scope)) :
    ∀ act ∈ stmtActs p.resolve.tree, P act := by
  have marks : stmtActs p.resolve.tree = markActs .initial (stmtActs p) :=
    (runs_stmtActs .initial p complete).marks
  have inside := (balanced_stmtActs p).inside
  intro marked member
  rw [marks] at member
  obtain ⟨before, act, after, middle, behind, split, start, one, rfl⟩ :=
    split_of_mem_markActs (walk_of_resolve complete resolved) member
  rw [split] at inside
  have within := inside.of_prefix (List.prefix_append before _)
  exact each before act middle behind (by simp [split]) (pictures_initial.walk within start) within
    one

/-- In a program without a fault no builtin gets more arguments than it takes. -/
theorem fits_of_resolve (complete : stmtsComplete p = true) (resolved : p.resolve.fault = none) :
    ∀ act ∈ stmtActs p.resolve.tree, act.Fits :=
  forall_acts_resolve complete resolved fun _ _ _ _ _ pictures within ran =>
    pictures.fits_marked within ran

/-- The names that the acts declare are those of the declared symbols. -/
theorem isDeclared_of_mem (complete : stmtsComplete p = true) (resolved : p.resolve.fault = none)
    {act : Act} (member : act ∈ stmtActs p) {token : Token}
    (declares : act.declared? = some token) : IsDeclared p token.lexeme := by
  have symbols : p.resolve.declared = along Act.symbol? .initial (stmtActs p) :=
    (runs_stmtActs .initial p complete).symbols
  have ran := walk_of_resolve complete resolved
  obtain ⟨before, after, split⟩ := List.append_of_mem member
  rw [split] at ran
  obtain ⟨middle, behind, start, one⟩ := walk_split ran
  obtain ⟨symbol, given, same, -⟩ := symbol?_of_run declares one
  refine ⟨symbol, ?_, same⟩
  rw [symbols, split]
  exact mem_along start given after

/-- **The code of an accepted program, read for its names:** it declares the symbols of the program,
none twice in one block, and each name in use meets the declaration that resolution found. -/
theorem names_readUnit (read : Program.ofSource source = .ok p) (resolved : p.resolve.fault = none)
    {options : Options} (tidy : options.Tidy) (apart : HashesApart p) {code : Text}
    (written : Program.code options p.resolve.tree = .ok code) :
    (readUnit code).declared = p.resolve.declared.map (fun symbol => identifier symbol.name) ∧
      (readUnit code).doubles = [] ∧
      List.Forall₂ (Meets p.resolve.declared) p.references (readUnit code).resolved := by
  have complete := Grammar.complete_of_derives (Grammar.ofTokens_eq_ok_iff.mp read)
  have runs := runs_stmtActs .initial p complete
  have marks : stmtActs p.resolve.tree = markActs .initial (stmtActs p) := runs.marks
  have symbols : p.resolve.declared = along Act.symbol? .initial (stmtActs p) := runs.symbols
  have legible : stmtsLegible p.resolve.tree := by
    rw [legible_resolve]
    exact legible_of_ofSource read
  obtain ⟨mirrors, uses, used, met⟩ := (mirrors_initial (IsDeclared p)).run
    (distinct_of_hashesApart apart) pictures_initial (balanced_stmtActs p).inside
    (apt_of_ofSource read) (fun _ member _ => isDeclared_of_mem complete resolved member)
    (walk_of_resolve complete resolved)
  rw [readUnit_code tidy legible (fits_of_resolve complete resolved) written, marks]
  rw [← symbols] at mirrors met
  refine ⟨mirrors.declared, mirrors.doubles, ?_⟩
  rw [show uses = _ from used.symm] at met
  exact met

end Program

/-! ### How names are written -/

/-- **The code of the builtins,** whatever the codes of their arguments are. -/
theorem map_render_all (values : List Text) :
    Builtin.all.map (fun b => (b.name, b.render values)) =
      ([("輸出", "Console.WriteLine(" ++ Text.join ", " values ++ ")"),
        ("輸入", "Console.ReadLine()"),
        ("長度", values.head?.elim "0" fun first => "Convert.ToString(" ++ first ++ ").Length"),
        ("轉換", values.head?.elim "0.0" fun first => "Convert.ToDouble(" ++ first ++ ")"),
        ("真", "true"), ("假", "false"), ("空", "null")] : List (Text × Text)) := by
  cases values <;> rfl

namespace Act

/-- The node of the act is written as a builtin, with its arguments. -/
def WrittenAsBuiltin (b : Builtin) : Act → Prop
  | use name mark => (Expr.use name mark).code = .ok (b.render [])
  | call callee _ mark => ∀ keyword arguments values, exprCodes arguments = .ok values →
      (Expr.call keyword callee arguments mark).code = .ok (b.render values)
  | _ => False

/-- The node of the act is written with the identifier of its name. -/
def WrittenAsIdentifier : Act → Prop
  | use name mark => (Expr.use name mark).code = .ok (identifier name.lexeme)
  | call callee _ mark => ∀ keyword arguments values, exprCodes arguments = .ok values →
      (Expr.call keyword callee arguments mark).code =
        .ok (identifier callee.lexeme ++ "(" ++ Text.join ", " values ++ ")")
  | target name => ∀ value code, value.code = .ok code →
      (Stmt.assign name value).marks = .ok [.line (identifier name.lexeme ++ " = " ++ code ++ ";")]
  | _ => False

theorem writtenAsBuiltin_of_some {act : Act} {b : Builtin} (found : act.builtin? = some b) :
    act.WrittenAsBuiltin b := by
  cases act with
  | enter | leave | declare | target => cases found
  | use name mark =>
    have stands : Builtin.standsFor? name.lexeme mark .value = some b := found
    show (Expr.use name mark).code = .ok (b.render [])
    rw [Expr.code, stands]
    rfl
  | call callee count mark =>
    have stands : Builtin.standsFor? callee.lexeme mark .function = some b := found
    intro keyword arguments values written
    rw [Expr.code, written, stands]
    rfl

theorem writtenAsIdentifier_of_none {act : Act} {name : Token} (plain : act.builtin? = none)
    (refers : act.reference? = some name) : act.WrittenAsIdentifier := by
  cases act with
  | enter | leave | declare => cases refers
  | use name mark =>
    have stands : Builtin.standsFor? name.lexeme mark .value = none := plain
    show (Expr.use name mark).code = .ok (identifier name.lexeme)
    rw [Expr.code, stands]
    rfl
  | target name =>
    intro value code written
    rw [Stmt.marks, written]
    rfl
  | call callee count mark =>
    have stands : Builtin.standsFor? callee.lexeme mark .function = none := plain
    intro keyword arguments values written
    rw [Expr.code, written, stands]
    rfl

end Act

/-- **A name is written as a builtin just when it stands for it,** and with its identifier
otherwise. -/
theorem written_of_reference {source : Text} {p : Program} (read : Program.ofSource source = .ok p)
    (resolved : p.resolve.fault = none) {before after : List Act} {act : Act} {name : Token}
    (split : stmtActs p = before ++ act :: after) (refers : act.reference? = some name) :
    ∃ symbol, Innermost before name.lexeme symbol ∧
      (stmtActs p.resolve.tree)[before.length]? = some (act.withMark symbol) ∧
      if symbol.builtin then
        ∃ b ∈ Builtin.all, b.symbol = symbol ∧ (act.withMark symbol).WrittenAsBuiltin b
      else (act.withMark symbol).WrittenAsIdentifier := by
  have complete := Grammar.complete_of_derives (Grammar.ofTokens_eq_ok_iff.mp read)
  have inside := (balanced_stmtActs p).inside
  have ran := walk_of_resolve complete resolved
  have marks : stmtActs p.resolve.tree = markActs .initial (stmtActs p) :=
    (runs_stmtActs .initial p complete).marks
  have apt : act.Apt := apt_of_ofSource read act (by rw [split]; simp)
  rw [split] at ran inside
  obtain ⟨middle, behind, start, one⟩ := walk_split ran
  have within := inside.of_prefix (List.prefix_append before _)
  have pictures := pictures_initial.walk within start
  obtain ⟨symbol, found, marked, rendering⟩ := pictures.rendered within one refers apt
  refine ⟨symbol, (pictures.find?_eq_some_iff within _ _).mp found, ?_, ?_⟩
  · rw [marks, split, getElem?_markActs start, marked]
  · by_cases builtin : symbol.builtin = true
    · rw [if_pos builtin, Option.map_eq_some_iff] at rendering
      obtain ⟨b, stands, same⟩ := rendering
      rw [if_pos builtin]
      exact ⟨b, Act.mem_of_builtin? stands, same, Act.writtenAsBuiltin_of_some stands⟩
    · rw [if_neg builtin, Option.map_eq_none_iff] at rendering
      rw [if_neg builtin]
      exact Act.writtenAsIdentifier_of_none rendering (Act.reference?_withMark refers symbol)

/-! ### The main result -/

/-- **Names keep their meaning from the source to the code.** The code of an accepted source, read
for its names alone, declares the symbols of the source in order, all of them different; no block
declares an identifier twice; and the names in use are those the source refers to, in order, each
standing for the declaration of the symbol that resolution found. A name is written as a builtin
just when its innermost declaration is that builtin, and with its identifier otherwise. -/
theorem compile_preserves_names {options : Options} {source code : Text} (tidy : options.Tidy)
    (accepted : (compile options source).outcome = .ok code)
    (apart : ∀ p, Program.ofSource source = .ok p → HashesApart p) :
    ∃ p, Program.ofSource source = .ok p ∧ p.resolve.fault = none ∧ p.resolve.declared.Nodup ∧
      (readUnit code).declared = p.resolve.declared.map (fun symbol => identifier symbol.name) ∧
      (readUnit code).doubles = [] ∧
      List.Forall₂ (Meets p.resolve.declared) p.references (readUnit code).resolved ∧
      ∀ before act after name, stmtActs p = before ++ act :: after → act.reference? = some name →
        ∃ symbol, Innermost before name.lexeme symbol ∧
          (stmtActs p.resolve.tree)[before.length]? = some (act.withMark symbol) ∧
          if symbol.builtin then
            ∃ b ∈ Builtin.all, b.symbol = symbol ∧ (act.withMark symbol).WrittenAsBuiltin b
          else (act.withMark symbol).WrittenAsIdentifier := by
  obtain ⟨p, read, resolved, written⟩ := compile_eq_ok_iff.mp accepted
  obtain ⟨declared, doubles, met⟩ := names_readUnit read resolved tidy (apart p read) written
  refine ⟨p, read, resolved, nodup_declared read resolved, declared, doubles, met,
    fun _ _ _ _ => written_of_reference read resolved⟩

/-- The inner 甲 takes its value from 乙, which takes its own from the outer 甲; what is printed is the
inner one. Both names are hashed. -/
theorem compile_preserves_names_shadowing :
    let source : Text := "吾有一數曰「甲」也恆為是吾有一言曰「乙」其值甲也吾有一言曰「甲」其值乙也云甲云云"
    ∃ code p, (compile .blank source).outcome = .ok code ∧ Program.ofSource source = .ok p ∧
      Options.blank.Tidy ∧ HashesApart p ∧ (readUnit code).doubles = [] ∧
      List.Forall₂ (Meets p.resolve.declared) p.references (readUnit code).resolved := by
  intro source
  have scanned : Token.tokenize source =
      [⟨.declare, "吾有", 1, 1⟩, ⟨.numberType, "一數", 1, 3⟩, ⟨.named, "曰", 1, 5⟩,
       ⟨.string, "甲", 1, 6⟩, ⟨.close, "也", 1, 9⟩, ⟨.loop, "恆為是", 1, 10⟩,
       ⟨.declare, "吾有", 1, 13⟩, ⟨.stringType, "一言", 1, 15⟩, ⟨.named, "曰", 1, 17⟩,
       ⟨.string, "乙", 1, 18⟩, ⟨.value, "其值", 1, 21⟩, ⟨.identifier, "甲", 1, 23⟩,
       ⟨.close, "也", 1, 24⟩, ⟨.declare, "吾有", 1, 25⟩, ⟨.stringType, "一言", 1, 27⟩,
       ⟨.named, "曰", 1, 29⟩, ⟨.string, "甲", 1, 30⟩, ⟨.value, "其值", 1, 33⟩,
       ⟨.identifier, "乙", 1, 35⟩, ⟨.close, "也", 1, 36⟩, ⟨.print, "云", 1, 37⟩,
       ⟨.identifier, "甲", 1, 38⟩, ⟨.blockEnd, "云云", 1, 39⟩, ⟨.eof, [], 1, 41⟩] := by
    decide +kernel
  obtain ⟨p, read, resolved, apart⟩ : ∃ p, Program.ofSource source = .ok p ∧
      p.resolve.fault = none ∧ HashesApart p := by
    refine ⟨[
      .declare ⟨.declare, "吾有", 1, 1⟩ ⟨.numberType, "一數", 1, 3⟩ ⟨.string, "甲", 1, 6⟩ none,
      .loop ⟨.loop, "恆為是", 1, 10⟩
        [.declare ⟨.declare, "吾有", 1, 13⟩ ⟨.stringType, "一言", 1, 15⟩ ⟨.string, "乙", 1, 18⟩
          (some (.use ⟨.identifier, "甲", 1, 23⟩ none)),
         .declare ⟨.declare, "吾有", 1, 25⟩ ⟨.stringType, "一言", 1, 27⟩ ⟨.string, "甲", 1, 30⟩
          (some (.use ⟨.identifier, "乙", 1, 35⟩ none)),
         .print ⟨.print, "云", 1, 37⟩ (.use ⟨.identifier, "甲", 1, 38⟩ none)]], ?_, ?_, ?_⟩
    · rw [Program.ofSource, scanned]
      with_unfolding_all rfl
    · decide
    · unfold HashesApart
      decide +kernel
  obtain ⟨code, accepted⟩ := exists_compile .blank read resolved
  have only : ∀ q, Program.ofSource source = .ok q → q = p := by
    intro q read'
    exact Except.ok.inj (read'.symm.trans read)
  obtain ⟨q, read', -, -, -, doubles, met, -⟩ := compile_preserves_names Options.tidy_blank accepted
    fun q read' => by rw [only q read']; exact apart
  rw [only q read'] at met
  exact ⟨code, p, accepted, read, Options.tidy_blank, apart, doubles, met⟩

end Guwen
