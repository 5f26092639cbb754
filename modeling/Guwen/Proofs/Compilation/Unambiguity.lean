/-
**The code of an expression is unambiguous.**

Two expressions of accepted programs with the same code are the same expression, but for what code
does not show (`Expr.outline`). Two things have to be ruled out: names whose hashes agree, and a
call of 長度 or 轉換 without an argument, which is written like a number.

* `marked_of_resolve` — after resolution every mark is the builtin that the name is written as.
* `Expr.hashedNames` — the names of an expression that are written by their hash.
* **`outline_of_code`** — the whole of it.
-/
import Guwen.Proofs.Compilation.Preservation
import Guwen.Proofs.Grammar.Occurrences

namespace Guwen

open Code

section Program

variable {source : Text} {p : Program}

/-- **After resolution every mark is the builtin that the name is written as,** or a declaration of
the program. -/
theorem marked_of_resolve (read : Program.ofSource source = .ok p)
    (resolved : p.resolve.fault = none) : ∀ act ∈ stmtActs p.resolve.tree,
      act.mark?.filter (·.builtin) = act.builtin?.map Builtin.symbol := by
  have complete := Grammar.complete_of_derives (Grammar.ofTokens_eq_ok_iff.mp read)
  refine forall_acts_resolve complete resolved
    fun before act scope next member pictures within ran => ?_
  cases refers : act.reference? with
  | none =>
    cases act with
    | enter | leave | declare => rfl
    | use | target | call => cases refers
  | some name =>
    obtain ⟨symbol, -, marked, rendering⟩ :=
      pictures.rendered within ran refers (apt_of_ofSource read act member)
    rw [marked]
    cases act with
    | enter | leave | declare => cases refers
    | target => rfl
    | use | call => exact (Option.filter_some).trans rendering.symm

end Program

/-- **An expression of an accepted source,** with its names resolved. -/
def Expr.OccursIn (source : Text) (e : Expr) : Prop :=
  ∃ p, Program.ofSource source = .ok p ∧ p.resolve.fault = none ∧ Program.Holds p.resolve.tree e

/-! ### Names of the program -/

/-- The name that an act refers to, unless it is marked as a builtin. -/
def Act.userName? (act : Act) : Option Text :=
  if act.mark?.any (·.builtin) then none else act.reference?.map Token.lexeme

/-- The names of an expression that are not marked as builtins. -/
def Expr.userNames (e : Expr) : List Text := e.acts.filterMap Act.userName?

/-- **The names of an expression that are written by their hash.** -/
def Expr.hashedNames (e : Expr) : List Text := e.userNames.filter (!isPlain ·)

/-- Names have different hashes. -/
def DistinctHashes (names : List Text) : Prop :=
  ∀ a ∈ names, ∀ b ∈ names, Code.hash a = Code.hash b → a = b

/-- Names are told apart by their identifiers when the hashed ones have different hashes. -/
theorem distinct_of_hashes {names : List Text}
    (apart : DistinctHashes (names.filter (!isPlain ·))) : Distinct (· ∈ names) := by
  intro a b first second same
  rcases (identifier_eq_iff a b).mp same with equal | ⟨hashed, hashed', collide⟩
  · exact equal
  · exact apart a (List.mem_filter.mpr ⟨first, by simp [hashed]⟩) b
      (List.mem_filter.mpr ⟨second, by simp [hashed']⟩) collide

/-- **The acts of an expression of an accepted source are clear,** when no builtin lacks its
argument and all names of the program are good ones. -/
theorem clear_of_occursIn {source : Text} {e : Expr} (occurs : e.OccursIn source)
    {Good : Text → Prop} (good : ∀ name ∈ e.userNames, Good name)
    (supplied : ∀ act ∈ e.acts, act.isBare = false) : ∀ act ∈ e.acts, act.Clear Good := by
  obtain ⟨p, read, resolved, holds⟩ := occurs
  have complete := Grammar.complete_of_derives (Grammar.ofTokens_eq_ok_iff.mp read)
  intro act member
  have inside := holds.mem_acts act member
  have marked := marked_of_resolve read resolved act inside
  refine ⟨fits_of_resolve complete resolved act inside, marked, supplied act member, ?_⟩
  intro absent name refers
  rw [absent, Option.map_none, Option.filter_eq_none_iff] at marked
  have user : act.mark?.any (·.builtin) = false := by
    cases mark : act.mark? with
    | none => rfl
    | some symbol => simpa [mark] using marked
  refine good name.lexeme (List.mem_filterMap.mpr ⟨act, member, ?_⟩)
  rw [Act.userName?, user, Option.mem_def.mp refers]
  rfl

/-! ### The main result -/

/-- **The code of an expression is unambiguous.** Any two expressions of accepted sources have code;
and when it is the same they are the same expression: the same operators, literals, names, arguments
and elements in the same order, with the same names standing for builtins. Names that are written by
their hash need different hashes, and neither 長度 nor 轉換 may lack its argument. -/
theorem outline_of_code {source source' : Text} {e e' : Expr} (occurs : e.OccursIn source)
    (occurs' : e'.OccursIn source') (apart : DistinctHashes (e.hashedNames ++ e'.hashedNames))
    (supplied : ∀ act ∈ e.acts ++ e'.acts, act.isBare = false) :
    ∃ code code', e.code = .ok code ∧ e'.code = .ok code' ∧
      (code = code' → e.outline = e'.outline) := by
  obtain ⟨supplied, supplied'⟩ := List.forall_mem_append.mp supplied
  rw [Expr.hashedNames, Expr.hashedNames, ← List.filter_append] at apart
  have clear : ∀ act ∈ e.acts, act.Clear (· ∈ e.userNames ++ e'.userNames) :=
    clear_of_occursIn occurs (fun _ => List.mem_append_left _) supplied
  have clear' : ∀ act ∈ e'.acts, act.Clear (· ∈ e.userNames ++ e'.userNames) :=
    clear_of_occursIn occurs' (fun _ => List.mem_append_right _) supplied'
  obtain ⟨p, read, -, holds⟩ := occurs
  obtain ⟨p', read', -, holds'⟩ := occurs'
  obtain ⟨legible, genuine⟩ := sound_of_ofSource read holds
  obtain ⟨legible', genuine'⟩ := sound_of_ofSource read' holds'
  obtain ⟨code, written, renders⟩ := e.exists_renders legible genuine clear
  obtain ⟨code', written', renders'⟩ := e'.exists_renders legible' genuine' clear'
  refine ⟨code, code', written, written', ?_⟩
  rintro rfl
  exact (renders.told (distinct_of_hashes apart) e' code [] [] renders' stops_nil stops_nil rfl).1

/-- The first source has the callee without quotes and the number as a glyph, the second does
not: the two calls differ, but not in their outlines. -/
theorem outline_of_code_quoted :
    let source : Text := "有術曰「乙」必先得一數曰「甲」乃得甲之術也云施乙以十加真"
    let source' : Text := "有術曰「乙」必先得一數曰「甲」乃得甲之術也云施「乙」以10加真"
    ∃ e e' : Expr, e.OccursIn source ∧ e'.OccursIn source' ∧ e ≠ e' ∧
      DistinctHashes (e.hashedNames ++ e'.hashedNames) ∧
      (∀ act ∈ e.acts ++ e'.acts, act.isBare = false) ∧ e.code = e'.code ∧
      e.outline = e'.outline := by
  intro source source'
  have scanned : Token.tokenize source =
      [⟨.function, "有術", 1, 1⟩, ⟨.named, "曰", 1, 3⟩, ⟨.string, "乙", 1, 4⟩,
       ⟨.params, "必先得", 1, 7⟩, ⟨.numberType, "一數", 1, 10⟩, ⟨.named, "曰", 1, 12⟩,
       ⟨.string, "甲", 1, 13⟩, ⟨.returns, "乃得", 1, 16⟩, ⟨.identifier, "甲", 1, 18⟩,
       ⟨.functionEnd, "之術也", 1, 19⟩, ⟨.print, "云", 1, 22⟩, ⟨.apply, "施", 1, 23⟩,
       ⟨.identifier, "乙", 1, 24⟩, ⟨.taking, "以", 1, 25⟩, ⟨.number, "十", 1, 26⟩,
       ⟨.plus, "加", 1, 27⟩, ⟨.identifier, "真", 1, 28⟩, ⟨.eof, [], 1, 29⟩] := by
    decide +kernel
  have scanned' : Token.tokenize source' =
      [⟨.function, "有術", 1, 1⟩, ⟨.named, "曰", 1, 3⟩, ⟨.string, "乙", 1, 4⟩,
       ⟨.params, "必先得", 1, 7⟩, ⟨.numberType, "一數", 1, 10⟩, ⟨.named, "曰", 1, 12⟩,
       ⟨.string, "甲", 1, 13⟩, ⟨.returns, "乃得", 1, 16⟩, ⟨.identifier, "甲", 1, 18⟩,
       ⟨.functionEnd, "之術也", 1, 19⟩, ⟨.print, "云", 1, 22⟩, ⟨.apply, "施", 1, 23⟩,
       ⟨.string, "乙", 1, 24⟩, ⟨.taking, "以", 1, 27⟩, ⟨.number, "10", 1, 28⟩,
       ⟨.plus, "加", 1, 30⟩, ⟨.identifier, "真", 1, 31⟩, ⟨.eof, [], 1, 32⟩] := by
    decide +kernel
  let call (callee number plus value : Token) (function truth : Option Symbol) : Expr :=
    .call ⟨.apply, "施", 1, 23⟩ callee
      [.binary plus .add (.literal number .number "10") (.use value truth)] function
  let tree (callee number plus value : Token) : Program :=
    [.function ⟨.function, "有術", 1, 1⟩ ⟨.string, "乙", 1, 4⟩
      [⟨⟨.numberType, "一數", 1, 10⟩, ⟨.string, "甲", 1, 13⟩⟩]
      [.returns ⟨.returns, "乃得", 1, 16⟩ (some (.use ⟨.identifier, "甲", 1, 18⟩ none))],
     .print ⟨.print, "云", 1, 22⟩ (call callee number plus value none none)]
  let function : Symbol := ⟨"乙", Builtin.functionType, .function, 0, false, 1, 4⟩
  let truth : Symbol := ⟨"真", "布爾", .value, 0, true, .nowhere⟩
  let e := call ⟨.identifier, "乙", 1, 24⟩ ⟨.number, "十", 1, 26⟩ ⟨.plus, "加", 1, 27⟩
    ⟨.identifier, "真", 1, 28⟩ (some function) (some truth)
  let e' := call ⟨.string, "乙", 1, 24⟩ ⟨.number, "10", 1, 28⟩ ⟨.plus, "加", 1, 30⟩
    ⟨.identifier, "真", 1, 31⟩ (some function) (some truth)
  have occurs : e.OccursIn source := by
    refine ⟨tree ⟨.identifier, "乙", 1, 24⟩ ⟨.number, "十", 1, 26⟩ ⟨.plus, "加", 1, 27⟩
      ⟨.identifier, "真", 1, 28⟩, ?_, by decide, e, ?_, .self e⟩
    · rw [Program.ofSource, scanned]
      with_unfolding_all rfl
    · exact List.mem_cons_of_mem _ List.mem_cons_self
  have occurs' : e'.OccursIn source' := by
    refine ⟨tree ⟨.string, "乙", 1, 24⟩ ⟨.number, "10", 1, 28⟩ ⟨.plus, "加", 1, 30⟩
      ⟨.identifier, "真", 1, 31⟩, ?_, by decide, e', ?_, .self e'⟩
    · rw [Program.ofSource, scanned']
      with_unfolding_all rfl
    · exact List.mem_cons_of_mem _ List.mem_cons_self
  have apart : DistinctHashes (e.hashedNames ++ e'.hashedNames) := by
    unfold DistinctHashes
    decide +kernel
  have supplied : ∀ act ∈ e.acts ++ e'.acts, act.isBare = false := by decide
  have same : e.code = e'.code := rfl
  obtain ⟨code, code', written, written', outline⟩ :=
    outline_of_code occurs occurs' apart supplied
  rw [written, written'] at same
  have differ : e ≠ e' := fun equal => absurd (congrArg Expr.acts equal) (by decide)
  exact ⟨e, e', occurs, occurs', differ, apart, supplied, rfl, outline (Except.ok.inj same)⟩

end Guwen
