/-
**Jumps: where the code leaves loops and functions.**

A source can leave a loop only inside a loop of the same function, and can return only inside a
function. The tree keeps that (`Stmt.placed`), and so do the blocks of the code, since each loop and
each function has a block of its own.

* `Inside` says where a node stands: inside which blocks, by their heads.
* `placed_of_derives` — the jumps of a tree that was read stand where they may.
* `JumpsWell` — the jumps of nodes stand where they may, at a place in the code.
* **`compile_places_jumps`** — so they do in the code of every accepted source, and every function
  ends in a return.
-/
import Guwen.Proofs.Code.Blocks

namespace Guwen

open Code Grammar

/-! ### Jumps of a tree -/

mutual

/-- **The jumps of a statement stand where they may,** when it stands at a place. -/
def Stmt.placed (place : Place) : Stmt → Bool
  | .function _ _ _ body => stmtsPlaced .insideFunction body
  | .conditional _ _ yes no => stmtsPlaced place yes && stmtsPlaced place no
  | .loop _ body => stmtsPlaced place.insideLoop body
  | .returns _ _ => place.inFunction
  | .breaks _ => place.inLoop
  | _ => true

/-- The jumps of statements stand where they may. -/
def stmtsPlaced (place : Place) : List Stmt → Bool
  | [] => true
  | s :: ss => s.placed place && stmtsPlaced place ss

end

/-- The jumps of a clause stand where they may. -/
def Grammar.Clause.placed (place : Place) : Clause → Bool
  | statement s => s.placed place
  | statements ss => stmtsPlaced place ss

theorem placed_of_forms {clause : Clause} {place : Place} {ts after : List Token}
    (formed : Forms clause place ts after) : clause.placed place = true := by
  induction formed with
  | declare | print | perform | assign | none => rfl
  | conditional _ _ _ _ _ _ _ yes no => exact Bool.and_eq_true_iff.mpr ⟨yes, no⟩
  | loop _ _ _ inner => exact inner
  | function _ _ _ _ _ _ _ inner => exact inner
  | returnValue _ inside => exact inside
  | returnNothing _ inside => exact inside
  | breaks _ inside => exact inside
  | more _ _ first rest => exact Bool.and_eq_true_iff.mpr ⟨first, rest⟩

mutual

theorem Stmt.placed_bare : ∀ (place : Place) (s : Stmt), s.bare.placed place = s.placed place
  | _, .function _ _ _ body => stmtsPlaced_bare .insideFunction body
  | place, .conditional _ _ yes no => by
    rw [Stmt.bare, Stmt.placed, stmtsPlaced_bare place yes, stmtsPlaced_bare place no, Stmt.placed]
  | place, .loop _ body => stmtsPlaced_bare place.insideLoop body
  | _, .declare .. => rfl
  | _, .param _ => rfl
  | _, .print .. => rfl
  | _, .returns .. => rfl
  | _, .assign .. => rfl
  | _, .breaks _ => rfl
  | _, .perform .. => rfl
  | _, .missing => rfl

theorem stmtsPlaced_bare : ∀ (place : Place) (ss : List Stmt),
    stmtsPlaced place (bareStmts ss) = stmtsPlaced place ss
  | _, [] => rfl
  | place, s :: ss => by
    rw [bareStmts, stmtsPlaced, s.placed_bare place, stmtsPlaced_bare place ss, stmtsPlaced]

end

/-- **The jumps of a source that was read stand where they may,** and resolution moves none. -/
theorem placed_of_ofSource {source : Text} {p : Program} (read : Program.ofSource source = .ok p) :
    stmtsPlaced .top p.resolve.tree = true := by
  have same : bareStmts p.resolve.tree = bareStmts p := bare_resolveStmts .initial p
  rw [← stmtsPlaced_bare, same, stmtsPlaced_bare]
  exact placed_of_forms (ofTokens_eq_ok_iff.mp read)

/-! ### Where a node stands -/

namespace Code

/-- **A node stands in a list of nodes,** inside blocks with these heads, the innermost first. -/
inductive Inside : List Node → List Text → Node → Prop where
  | here {nodes : List Node} {node : Node} (member : node ∈ nodes) : Inside nodes [] node
  | deeper {nodes inner : List Node} {head : Text} {heads : List Text} {node : Node}
      (member : .block head inner ∈ nodes) (inside : Inside inner heads node) :
      Inside nodes (heads ++ [head]) node

variable {nodes more inner : List Node} {heads : List Text} {head code : Text} {node : Node}

theorem not_inside_nil : ¬ Inside [] heads node := by
  intro inside
  cases inside with
  | here member => cases member
  | deeper member _ => cases member

theorem inside_append (inside : Inside (nodes ++ more) heads node) :
    Inside nodes heads node ∨ Inside more heads node := by
  cases inside with
  | here member => exact (List.mem_append.mp member).imp .here .here
  | deeper member inside =>
    exact (List.mem_append.mp member).imp (fun found => .deeper found inside)
      fun found => .deeper found inside

theorem inside_line (inside : Inside [.line code] heads node) : heads = [] ∧ node = .line code := by
  cases inside with
  | here member => exact ⟨rfl, List.mem_singleton.mp member⟩
  | deeper member _ => cases List.mem_singleton.mp member

theorem inside_headed (inside : Inside (Node.headed head inner) heads node) :
    node = .line head ∨ (heads = [] ∧ node = .block head inner) ∨
      ∃ within, heads = within ++ [head] ∧ Inside inner within node := by
  unfold Node.headed at inside
  cases inside with
  | here member =>
    rcases List.mem_pair.mp member with same | same
    · exact .inl same
    · exact .inr (.inl ⟨rfl, same⟩)
  | deeper member inside =>
    rcases List.mem_pair.mp member with same | same
    · cases same
    · cases same
      exact .inr (.inr ⟨_, rfl, inside⟩)

/-! ### Lines that jump -/

/-- A line that returns. -/
def isReturnLine (code : Text) : Bool :=
  ("return " : Text).isPrefixOf code && (";" : Text).isSuffixOf code

/-- **A line that does not start as a jump.** -/
def Stays (code : Text) : Prop :=
  ∀ word, (lex code).head? = some (.word word) → word ≠ ("break" : Text) ∧ word ≠ ("return" : Text)

theorem Stays.ne_break (stays : Stays code) : code ≠ ("break;" : Text) := by
  rintro rfl
  exact (stays "break" rfl).1 rfl

theorem Stays.not_return (stays : Stays code) : isReturnLine code = false := by
  have start : Sealed "return " [.word "return"] := fun _ => rfl
  refine (Bool.not_eq_true _).mp fun returns => ?_
  obtain ⟨rest, rfl⟩ := List.isPrefixOf_iff_prefix.mp (Bool.and_eq_true_iff.mp returns).1
  exact (stays "return" (by rw [start]; rfl)).2 rfl

theorem isReturnLine_return (value : Text) : isReturnLine ("return " ++ value ++ ";") = true := by
  refine Bool.and_eq_true_iff.mpr ⟨?_, List.isSuffixOf_iff_suffix.mpr (List.suffix_append _ _)⟩
  rw [List.append_assoc]
  exact List.isPrefixOf_iff_prefix.mpr (List.prefix_append _ _)

/-- A line is known by its first piece. -/
theorem stays_of_first {first : Piece} (found : (lex code).head? = some first)
    (other : first ≠ .word "break" ∧ first ≠ .word "return") : Stays code := by
  intro word same
  obtain rfl : first = .word word := Option.some.inj (found.symm.trans same)
  exact ⟨fun here => other.1 (here ▸ rfl), fun here => other.2 (here ▸ rfl)⟩

theorem stays_identifier (name : Text) {rest : Text} (start : Apart rest) :
    Stays (identifier name ++ rest) := by
  have free := isReserved_identifier name
  refine stays_of_first (by rw [lexes_identifier name rest start]; rfl) ⟨?_, ?_⟩
  · intro same
    rw [Piece.word.inj same] at free
    exact absurd free (by decide)
  · intro same
    rw [Piece.word.inj same] at free
    exact absurd free (by decide)

theorem stays_number {t : Text} (number : IsNumber t) (rest : Text) (start : Apart rest) :
    Stays (t ++ rest) := by
  have apart : ∀ digits, IsDigits digits →
      Piece.word digits ≠ .word "break" ∧ Piece.word digits ≠ .word "return" := by
    -- Both words have the letter r.
    intro digits all
    refine ⟨?_, ?_⟩ <;> intro same <;> cases same <;>
      exact absurd (all.2 114 (by decide)) (by decide)
  rcases number with digits | ⟨whole, part, before, -, rfl⟩
  · exact stays_of_first (by rw [digits.lexes rest start]; rfl) (apart t digits)
  · refine stays_of_first ?_ (apart whole before)
    rw [List.append_assoc, List.cons_append, before.lexes _ (apart_cons rfl)]
    rfl

theorem stays_render {b : Builtin} (known : b ∈ Builtin.all) (values : List Text) :
    Stays (b.render values ++ ";") := by
  simp only [Builtin.all, List.mem_cons, List.not_mem_nil, or_false] at known
  rcases known with rfl | rfl | rfl | rfl | rfl | rfl | rfl
  · simp only [Builtin.render, Builtin.Form.fill, List.append_assoc]
    exact stays_of_first rfl (by decide)
  · exact stays_of_first rfl (by decide)
  · cases values with
    | nil => exact stays_of_first rfl (by decide)
    | cons value values =>
      simp only [Builtin.render, Builtin.Form.fill, List.append_assoc]
      exact stays_of_first rfl (by decide)
  · cases values with
    | nil => exact stays_of_first rfl (by decide)
    | cons value values =>
      simp only [Builtin.render, Builtin.Form.fill, List.append_assoc]
      exact stays_of_first rfl (by decide)
  · exact stays_of_first rfl (by decide)
  · exact stays_of_first rfl (by decide)
  · exact stays_of_first rfl (by decide)

theorem stays_declaration (word name value : Text) :
    Stays (typeOf word ++ " " ++ identifier name ++ " = " ++ value ++ ";") := by
  have cut := lex_declaration word name value
  rcases typeOf_cases word with same | same | same | same
  all_goals
    rw [same] at cut ⊢
    exact stays_of_first (by rw [cut]; rfl) (by decide)

end Code

/-- An expression that stands for its effect does not jump. -/
theorem Expr.stays_code {e : Expr} (legible : e.Legible) {code : Text}
    (written : e.code = .ok code) : Stays (code ++ ";") := by
  cases e with
  | binary _ op left right =>
    rw [Expr.code] at written
    obtain ⟨leftCode, -, written⟩ := bind_eq_ok.mp written
    obtain ⟨rightCode, -, written⟩ := bind_eq_ok.mp written
    cases written
    simp only [List.append_assoc]
    exact stays_of_first rfl (by decide)
  | literal _ kind text =>
    rw [Expr.code] at written
    cases written
    by_cases string : kind = .string
    · rw [if_pos string]
      exact stays_of_first (by rw [sealed_quote]; rfl) (by decide)
    · rw [if_neg string]
      exact stays_number (legible.resolve_left string) _ (apart_cons rfl)
  | use name mark =>
    rw [Expr.code] at written
    cases found : Builtin.standsFor? name.lexeme mark .value with
    | some b =>
      rw [found] at written
      cases written
      exact stays_render (Builtin.eq_of_standsFor? found).1 []
    | none =>
      rw [found] at written
      cases written
      exact stays_identifier _ (apart_cons rfl)
  | call _ callee arguments mark =>
    rw [Expr.code] at written
    obtain ⟨values, -, written⟩ := bind_eq_ok.mp written
    cases found : Builtin.standsFor? callee.lexeme mark .function with
    | some b =>
      rw [found] at written
      cases written
      exact stays_render (Builtin.eq_of_standsFor? found).1 values
    | none =>
      rw [found] at written
      cases written
      simp only [List.append_assoc]
      exact stays_identifier _ (apart_cons rfl)
  | list _ elements =>
    rw [Expr.code] at written
    obtain ⟨values, -, written⟩ := bind_eq_ok.mp written
    cases written
    simp only [List.append_assoc]
    exact stays_of_first rfl (by decide)
  | missing => cases written

/-! ### Jumps of the code -/

namespace Code

/-- **There is a loop around,** and no function between. -/
def InLoop (heads : List Text) : Prop :=
  ∃ inner outer, heads = inner ++ ("while (true)" : Text) :: outer ∧
    ∀ head ∈ inner, functionHead? head = none

/-- There is a function around. -/
def InFunction (heads : List Text) : Prop := ∃ head ∈ heads, (functionHead? head).isSome

/-- The last of the nodes is a line that returns. -/
def EndsInReturn (nodes : List Node) : Prop :=
  ∃ line, nodes.getLast? = some (.line line) ∧ isReturnLine line = true

/-- **The jumps of nodes stand where they may,** when the nodes stand at a place: what is not around
them inside is around that place. -/
structure JumpsWell (place : Place) (nodes : List Node) : Prop where
  breaks : ∀ heads, Inside nodes heads (.line "break;") →
    InLoop heads ∨ (place.inLoop = true ∧ ∀ head ∈ heads, functionHead? head = none)
  returns : ∀ heads line, Inside nodes heads (.line line) → isReturnLine line = true →
    InFunction heads ∨ place.inFunction = true
  functions : ∀ heads head inner, Inside nodes heads (.block head inner) →
    (functionHead? head).isSome → EndsInReturn inner

namespace JumpsWell

variable {place within : Place} {nodes more inner : List Node} {head code : Text}

theorem nil : JumpsWell place [] where
  breaks _ inside := (not_inside_nil inside).elim
  returns _ _ inside := (not_inside_nil inside).elim
  functions _ _ _ inside := (not_inside_nil inside).elim

theorem append (first : JumpsWell place nodes) (second : JumpsWell place more) :
    JumpsWell place (nodes ++ more) where
  breaks heads inside := (inside_append inside).elim (first.breaks heads) (second.breaks heads)
  returns heads line inside :=
    (inside_append inside).elim (first.returns heads line) (second.returns heads line)
  functions heads head inner inside :=
    (inside_append inside).elim (first.functions heads head inner)
      (second.functions heads head inner)

/-- A line may jump where the place allows it. -/
theorem line (breaks : code = ("break;" : Text) → place.inLoop = true)
    (returns : isReturnLine code = true → place.inFunction = true) :
    JumpsWell place [.line code] where
  breaks heads inside := by
    obtain ⟨rfl, same⟩ := inside_line inside
    exact .inr ⟨breaks (Node.line.inj same).symm, fun _ member => absurd member List.not_mem_nil⟩
  returns heads line inside jumps := by
    obtain ⟨rfl, same⟩ := inside_line inside
    exact .inr (returns (Node.line.inj same ▸ jumps))
  functions heads head inner inside := by
    obtain ⟨-, same⟩ := inside_line inside
    cases same

theorem stays (stays : Stays code) : JumpsWell place [.line code] :=
  line (fun same => absurd same stays.ne_break) fun jumps => by
    rw [stays.not_return] at jumps
    cases jumps

/-- **A block with its head:** a loop or a function around the block is that of the head or is
around the head too. -/
theorem headed (stays : Stays head) (inside : JumpsWell within inner)
    (loops : within.inLoop = true →
      head = ("while (true)" : Text) ∨ (functionHead? head = none ∧ place.inLoop = true))
    (returns : within.inFunction = true → (functionHead? head).isSome ∨ place.inFunction = true)
    (ends : (functionHead? head).isSome → EndsInReturn inner) :
    JumpsWell place (Node.headed head inner) where
  breaks heads found := by
    rcases inside_headed found with same | ⟨-, same⟩ | ⟨between, rfl, deeper⟩
    · exact absurd (Node.line.inj same).symm stays.ne_break
    · cases same
    rcases inside.breaks between deeper with ⟨near, far, rfl, apart⟩ | ⟨around, apart⟩
    · exact .inl ⟨near, far ++ [head], by simp, apart⟩
    rcases loops around with rfl | ⟨plain, around⟩
    · exact .inl ⟨between, [], rfl, apart⟩
    · refine .inr ⟨around, fun other member => ?_⟩
      rcases List.mem_append.mp member with near | here
      · exact apart other near
      · rwa [List.mem_singleton.mp here]
  returns heads line found jumps := by
    rcases inside_headed found with same | ⟨-, same⟩ | ⟨between, rfl, deeper⟩
    · rw [Node.line.inj same, stays.not_return] at jumps
      cases jumps
    · cases same
    rcases inside.returns between line deeper jumps with ⟨other, member, function⟩ | around
    · exact .inl ⟨other, List.mem_append_left _ member, function⟩
    · exact (returns around).imp_left fun function =>
        ⟨head, List.mem_append_right _ (List.mem_singleton_self head), function⟩
  functions heads other nodes found function := by
    rcases inside_headed found with same | ⟨-, same⟩ | ⟨between, rfl, deeper⟩
    · cases same
    · cases same
      exact ends function
    · exact inside.functions between other nodes deeper function

/-- A block that is neither a loop nor a function. -/
theorem plain (stays : Stays head) (other : functionHead? head = none)
    (inside : JumpsWell place inner) : JumpsWell place (Node.headed head inner) :=
  inside.headed stays (fun around => .inr ⟨other, around⟩) .inr fun function => by
    rw [other] at function
    cases function

end JumpsWell

/-- A function whose last statement returns ends in the line of that statement. -/
theorem Writes.endsInReturn {ss : List Stmt} {nodes : List Node} (writes : Writes ss nodes)
    (last : ss.getLast?.any Stmt.isReturn = true) : EndsInReturn nodes := by
  -- A statement that is not the last, or does not return, leaves it to the others.
  have skip : ∀ {s : Stmt} {ss : List Stmt} (front : List Node) {nodes : List Node},
      s.isReturn = false → (ss.getLast?.any Stmt.isReturn = true → EndsInReturn nodes) →
      (s :: ss).getLast?.any Stmt.isReturn = true → EndsInReturn (front ++ nodes) := by
    intro s ss front nodes other rest last
    cases ss with
    | nil => cases other.symm.trans last
    | cons t ss =>
      obtain ⟨line, found, returns⟩ := rest last
      exact ⟨line, by rw [List.getLast?_append, found]; rfl, returns⟩
  induction writes with
  | nil => cases last
  | declare _ _ _ ih => exact skip [_] rfl ih last
  | function _ _ _ ih => exact skip _ rfl ih last
  | conditional _ _ _ _ _ _ ih =>
    rw [← List.append_assoc]
    exact skip _ rfl ih last
  | loop _ _ _ ih => exact skip _ rfl ih last
  | print _ _ ih => exact skip [_] rfl ih last
  | @returns _ _ code ss nodes _ rest ih =>
    cases ss with
    | nil =>
      cases rest
      exact ⟨_, rfl, isReturnLine_return code⟩
    | cons t ss =>
      obtain ⟨line, found, returns⟩ := ih last
      exact ⟨line, by rw [List.getLast?_cons, found]; rfl, returns⟩
  | assign _ _ ih => exact skip [_] rfl ih last
  | breaks _ ih => exact skip [_] rfl ih last
  | perform _ _ _ ih => exact skip [_] rfl ih last

theorem endsInReturn_closing {body : List Stmt} {inner : List Node} (writes : Writes body inner) :
    EndsInReturn (inner ++ closingNodes body) := by
  unfold closingNodes
  by_cases returns : body.getLast?.any Stmt.isReturn = true
  · rw [if_pos returns, List.append_nil]
    exact writes.endsInReturn returns
  · rw [if_neg returns]
    exact ⟨_, List.getLast?_concat, by decide⟩

/-- **The code of statements has its jumps where the statements have theirs.** -/
theorem Writes.jumpsWell {ss : List Stmt} {nodes : List Node} (writes : Writes ss nodes)
    (place : Place) (placed : stmtsPlaced place ss = true) : JumpsWell place nodes := by
  induction writes generalizing place with
  | nil => exact .nil
  | @declare _ type name _ code _ _ _ _ _ ih =>
    have line := stays_declaration type.lexeme name.lexeme code
    exact (JumpsWell.stays line).append (ih place placed)
  | @function _ name params body _ inner _ inside _ ihInner ih =>
    obtain ⟨here, rest⟩ := Bool.and_eq_true_iff.mp placed
    have head := functionHead?_functionHead name params
    have function : (functionHead? (functionHead name params)).isSome := by rw [head]; rfl
    have closes : JumpsWell .insideFunction (closingNodes body) := by
      unfold closingNodes
      split
      · exact .nil
      · exact .line (fun same => absurd same (by decide)) fun _ => rfl
    have stays : Stays (functionHead name params) := by
      unfold functionHead
      simp only [List.append_assoc]
      exact stays_of_first rfl (by decide)
    have block : JumpsWell place
        (Node.headed (functionHead name params) (inner ++ closingNodes body)) :=
      ((ihInner .insideFunction here).append closes).headed stays (fun loop => by cases loop)
        (fun _ => .inl function) fun _ => endsInReturn_closing inside
    exact block.append (ih place rest)
  | @conditional _ _ code _ no _ _ second _ _ _ _ _ ihYes ihNo ih =>
    obtain ⟨here, rest⟩ := Bool.and_eq_true_iff.mp placed
    obtain ⟨yes, otherwise⟩ := Bool.and_eq_true_iff.mp here
    have branch : JumpsWell place (Node.headed ("if (" ++ code ++ ")") _) :=
      (ihYes place yes).plain
        (by rw [List.append_assoc]; exact stays_of_first rfl (by decide))
        (by rw [List.append_assoc]; rfl)
    have other : JumpsWell place (elseNodes no second) := by
      unfold elseNodes
      split
      · exact .nil
      · exact (ihNo place otherwise).plain (stays_of_first rfl (by decide)) rfl
    exact branch.append (other.append (ih place rest))
  | loop _ _ ihInner ih =>
    obtain ⟨here, rest⟩ := Bool.and_eq_true_iff.mp placed
    have block : JumpsWell place (Node.headed "while (true)" _) :=
      (ihInner place.insideLoop here).headed (stays_of_first rfl (by decide)) (fun _ => .inl rfl)
        (fun function => .inr function) fun function => absurd function (by decide)
    exact block.append (ih place rest)
  | @print _ _ code _ _ _ _ ih =>
    have stays : Stays ("Console.WriteLine(" ++ code ++ ");") := by
      rw [List.append_assoc]
      exact stays_of_first rfl (by decide)
    exact (JumpsWell.stays stays).append (ih place placed)
  | @returns _ _ code _ _ _ _ ih =>
    obtain ⟨here, rest⟩ := Bool.and_eq_true_iff.mp placed
    have apart : "return " ++ code ++ ";" ≠ ("break;" : Text) := by
      intro same
      have first : (114 : UInt8) = 98 := by
        rw [List.append_assoc] at same
        exact Option.some.inj (congrArg List.head? same)
      exact absurd first (by decide)
    have line : JumpsWell place [.line ("return " ++ code ++ ";")] :=
      .line (fun same => absurd same apart) fun _ => here
    exact line.append (ih place rest)
  | @assign name _ code _ _ _ _ ih =>
    have stays : Stays (identifier name.lexeme ++ " = " ++ code ++ ";") := by
      simp only [List.append_assoc]
      exact stays_identifier _ (apart_cons rfl)
    exact (JumpsWell.stays stays).append (ih place placed)
  | breaks _ ih =>
    obtain ⟨here, rest⟩ := Bool.and_eq_true_iff.mp placed
    have line : JumpsWell place [.line "break;"] :=
      .line (fun _ => here) fun jumps => absurd jumps (by decide)
    exact line.append (ih place rest)
  | perform legible written _ ih =>
    exact (JumpsWell.stays (Expr.stays_code legible written)).append (ih place placed)

end Code

/-- **The code leaves loops and functions where it may.** Whatever an accepted source holds, the
braces of its code can be read, and there: a line that breaks stands in a loop, with no function
between; a line that returns stands in a function; and a function ends in a line that returns. -/
theorem compile_places_jumps {options : Options} {source code : Text} (plain : options.Braceless)
    (tidy : options.Tidy) (accepted : (compile options source).outcome = .ok code) :
    ∃ nodes, readBlocks code = some nodes ∧
      (∀ heads, Inside nodes heads (.line "break;") → InLoop heads) ∧
      (∀ heads line, Inside nodes heads (.line line) → isReturnLine line = true →
        InFunction heads) ∧
      ∀ heads head inner, Inside nodes heads (.block head inner) → (functionHead? head).isSome →
        EndsInReturn inner := by
  obtain ⟨p, nodes, read, writes, blocks⟩ := exists_nodes plain tidy accepted
  have unit : JumpsWell .top (unitNodes options.withDefaults nodes) := by
    have main : JumpsWell .top (Node.headed "public static void Main()" nodes) :=
      (writes.jumpsWell .top (placed_of_ofSource read)).plain (stays_of_first rfl (by decide)) rfl
    have type : JumpsWell .top
        (Node.headed ("public class " ++ options.withDefaults.className) _) :=
      main.plain (stays_of_first rfl (by decide)) rfl
    have space : JumpsWell .top (Node.headed ("namespace " ++ options.withDefaults.space) _) :=
      type.plain (stays_of_first rfl (by decide)) rfl
    have first : JumpsWell .top [.line "using System;"] := .stays (stays_of_first rfl (by decide))
    have second : JumpsWell .top [.line "using System.Collections.Generic;"] :=
      .stays (stays_of_first rfl (by decide))
    exact first.append (second.append space)
  refine ⟨_, blocks, fun heads inside => ?_, fun heads line inside returns => ?_, unit.functions⟩
  · exact (unit.breaks heads inside).resolve_right fun ⟨around, _⟩ => by cases around
  · exact (unit.returns heads line inside returns).resolve_right fun around => by cases around

/-- Functions in functions, a loop in a function in a loop, jumps in both branches of a conditional,
names that look like jumps, and a function without a return of its own. -/
theorem compile_places_jumps_nested :
    let source : Text :=
      "恆為是有術曰「return」有術曰「f」之術也恆為是若真者乃得一若非乃止云云云云乃得「break」之術也若假者乃止云云云云"
    ∃ code nodes, Options.blank.Braceless ∧ Options.blank.Tidy ∧
      (compile .blank source).outcome = .ok code ∧ readBlocks code = some nodes ∧
      (∀ heads, Inside nodes heads (.line "break;") → InLoop heads) ∧
      (∀ heads line, Inside nodes heads (.line line) → isReturnLine line = true →
        InFunction heads) ∧
      ∀ heads head inner, Inside nodes heads (.block head inner) → (functionHead? head).isSome →
        EndsInReturn inner := by
  intro source
  have scanned : Token.tokenize source =
      [⟨.loop, "恆為是", 1, 1⟩, ⟨.function, "有術", 1, 4⟩, ⟨.named, "曰", 1, 6⟩,
       ⟨.string, "return", 1, 7⟩, ⟨.function, "有術", 1, 15⟩, ⟨.named, "曰", 1, 17⟩,
       ⟨.string, "f", 1, 18⟩, ⟨.functionEnd, "之術也", 1, 21⟩, ⟨.loop, "恆為是", 1, 24⟩,
       ⟨.whether, "若", 1, 27⟩, ⟨.identifier, "真", 1, 28⟩, ⟨.thereupon, "者", 1, 29⟩,
       ⟨.returns, "乃得", 1, 30⟩, ⟨.number, "一", 1, 32⟩, ⟨.otherwise, "若非", 1, 33⟩,
       ⟨.breaks, "乃止", 1, 35⟩, ⟨.blockEnd, "云云", 1, 37⟩, ⟨.blockEnd, "云云", 1, 39⟩,
       ⟨.returns, "乃得", 1, 41⟩, ⟨.string, "break", 1, 43⟩, ⟨.functionEnd, "之術也", 1, 50⟩,
       ⟨.whether, "若", 1, 53⟩, ⟨.identifier, "假", 1, 54⟩, ⟨.thereupon, "者", 1, 55⟩,
       ⟨.breaks, "乃止", 1, 56⟩, ⟨.blockEnd, "云云", 1, 58⟩, ⟨.blockEnd, "云云", 1, 60⟩,
       ⟨.eof, [], 1, 62⟩] := by
    decide +kernel
  obtain ⟨p, read, resolved⟩ : ∃ p, Program.ofSource source = .ok p ∧
      p.resolve.fault = none := by
    refine ⟨[
      .loop ⟨.loop, "恆為是", 1, 1⟩
        [.function ⟨.function, "有術", 1, 4⟩ ⟨.string, "return", 1, 7⟩ []
          [.function ⟨.function, "有術", 1, 15⟩ ⟨.string, "f", 1, 18⟩ [] [],
           .loop ⟨.loop, "恆為是", 1, 24⟩
            [.conditional ⟨.whether, "若", 1, 27⟩ (.use ⟨.identifier, "真", 1, 28⟩ none)
              [.returns ⟨.returns, "乃得", 1, 30⟩ (some (.literal ⟨.number, "一", 1, 32⟩ .number "1"))]
              [.breaks ⟨.breaks, "乃止", 1, 35⟩]],
           .returns ⟨.returns, "乃得", 1, 41⟩
            (some (.literal ⟨.string, "break", 1, 43⟩ .string "break"))],
         .conditional ⟨.whether, "若", 1, 53⟩ (.use ⟨.identifier, "假", 1, 54⟩ none)
          [.breaks ⟨.breaks, "乃止", 1, 56⟩] []]], ?_, ?_⟩
    · rw [Program.ofSource, scanned]
      with_unfolding_all rfl
    · decide
  obtain ⟨code, accepted⟩ := exists_compile .blank read resolved
  obtain ⟨nodes, blocks, jumps⟩ :=
    compile_places_jumps Options.braceless_blank Options.tidy_blank accepted
  exact ⟨code, nodes, Options.braceless_blank, Options.tidy_blank, accepted, blocks, jumps⟩

end Guwen
