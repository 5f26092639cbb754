/-
**Which definitions have node source, and what it says.**

A definition is `name: field, field, …`. It is malformed when it has no colon, no name or no first
field, and nothing else goes wrong: what follows a second colon, fields that are missing further on
and blanks anywhere are all taken.

* `Malformed` — the definitions without source, said of their texts alone.
* `interfaceText` — what the source of any definitions starts with.
* `structText` — the declarations that a definition stands for, with its fields as they are cut at
  the commas and trimmed.
* `ofText_cases` — reading a definition fails just when it is malformed.
* `sections_cases` — so a list of definitions fails just when one of them is.
* **`source_writes_structs`** — the source of a list of definitions.
-/
import Guwen.NodeSource
import Guwen.Proofs.Text.Trim

namespace Guwen

namespace NodeSource

/-! ### What a definition says -/

/-- What stands before the first colon. -/
def nameText (t : Text) : Text := t.takeWhile (· != 0x3A)

/-- What stands between the first colon and the next one, or the end. -/
def fieldsText (t : Text) : Text := (t.dropWhile (· != 0x3A)).tail.takeWhile (· != 0x3A)

/-- The first of the fields, which ends at the first comma. -/
def firstField (t : Text) : Text := (fieldsText t).takeWhile (· != 0x2C)

/-- **A definition without a colon, without a name or without a first field.** -/
def Malformed (t : Text) : Prop :=
  0x3A ∉ t ∨ (nameText t).isBlank = true ∨ (firstField t).isBlank = true

instance : DecidablePred Malformed := fun _ => inferInstanceAs (Decidable (_ ∨ _))

/-- The name of the struct: the first byte of the definition's, taken for a character, is written in
lower case, and the base follows. -/
def structName (base t : Text) : Text :=
  match (nameText t).trim with
  | [] => base
  | initial :: rest => Text.ofChars [lowerChar (Char.ofNat initial.toNat)] ++ rest ++ base

/-- **What comes before the declarations:** a comment, the package, and the interface of the base
with the method that gives the token of a node and the marker method. -/
def interfaceText (base : Text) : Text :=
  "// Code generated by cmd/ast; DO NOT EDIT.\n\npackage internal\n\ntype " ++ base.lower
    ++ " interface \x7b\n\tat() *token\n\t" ++ base.lower ++ "Node()\n\x7d\n\n"

/-- **The declarations that a definition stands for:** a struct with a line for each field, the
method that gives its first field, and the marker method. -/
def structText (base t : Text) : Text :=
  "type " ++ structName base t ++ " struct \x7b\n"
    ++ (List.splitOn 0x2C (fieldsText t)).flatMap
        (fun field => ("\t" ++ Text.trim field ++ "\n" : Text))
    ++ "\x7d\n\nfunc (s *" ++ structName base t ++ ") at() *token \x7b\n\treturn s."
    ++ (firstField t).firstWord?.getD []
    ++ "\n\x7d\n\nfunc (s *" ++ structName base t ++ ") " ++ base.lower ++ "Node() \x7b\x7d\n\n"

example : structText "Stmt" "Print: keyword *token, value expr" =
    ("type printStmt struct \x7b\n\tkeyword *token\n\tvalue expr\n\x7d\n\n" ++
      "func (s *printStmt) at() *token \x7b\n\treturn s.keyword\n\x7d\n\n" ++
      "func (s *printStmt) stmtNode() \x7b\x7d\n\n" : String) := by decide +kernel

/-! ### Reading a definition -/

theorem split_of_colon {t : Text} (colon : 0x3A ∈ t) :
    ∃ more, List.splitOn 0x3A t = nameText t :: fieldsText t :: more := by
  rw [Text.splitOn_eq_takeWhile, if_pos colon, Text.splitOn_eq_takeWhile]
  exact ⟨_, rfl⟩

/-- The fields and the first word, as they are read from the trimmed text. -/
theorem fields_of_trim (t : Text) :
    (List.splitOn 0x2C (fieldsText t).trim).map Text.trim =
        (List.splitOn 0x2C (fieldsText t)).map Text.trim ∧
      (List.splitOn 0x2C (fieldsText t).trim).head?.bind Text.firstWord? =
        (firstField t).firstWord? := by
  have ascii : (0x2C : UInt8).toNat < 0x80 := by decide
  obtain ⟨fields, word⟩ := Text.map_trim_splitOn_trim ascii (by decide) (fieldsText t)
  refine ⟨fields, ?_⟩
  rw [word, Text.splitOn_eq_takeWhile]
  rfl

/-- **A definition is read unless it is malformed,** and then stands for its declarations. -/
theorem ofText_cases (t : Text) :
    (Malformed t ∧ ∃ index length, Definition.ofText t = .error (.outOfRange index length)) ∨
    (¬ Malformed t ∧ ∃ d, Definition.ofText t = .ok d ∧
      ∀ base, declarations id base d = structText base t) := by
  by_cases colon : 0x3A ∈ t
  · obtain ⟨more, pieces⟩ := split_of_colon colon
    obtain ⟨fields, word⟩ := fields_of_trim t
    cases name : (nameText t).trim with
    | nil =>
      refine .inl ⟨.inr (.inl ((Text.trim_eq_nil_iff _).mp name)), 0, 0, ?_⟩
      rw [Definition.ofText, pieces]
      dsimp only
      rw [name]
    | cons initial rest =>
      have named : ¬ (nameText t).isBlank = true := by
        rw [← Text.trim_eq_nil_iff, name]
        exact List.cons_ne_nil _ _
      cases first : (firstField t).firstWord? with
      | none =>
        refine .inl ⟨.inr (.inr ((Text.firstWord?_eq_none_iff _).mp first)), 0, 0, ?_⟩
        rw [Definition.ofText, pieces]
        dsimp only
        rw [name]
        dsimp only
        rw [word, first]
      | some start =>
        have given : ¬ (firstField t).isBlank = true := by
          rw [← Text.firstWord?_eq_none_iff, first]
          exact Option.some_ne_none start
        refine .inr ⟨by rintro (absent | blank | blank) <;> contradiction, ?_⟩
        refine ⟨⟨initial, rest, (List.splitOn 0x2C (fieldsText t)).map Text.trim, start⟩, ?_, ?_⟩
        · rw [Definition.ofText, pieces]
          dsimp only
          rw [name]
          dsimp only
          rw [word, first, fields]
        · intro base
          have struct : structName base t =
              Text.ofChars [lowerChar (Char.ofNat initial.toNat)] ++ rest ++ base := by
            unfold structName
            rw [name]
          rw [structText, struct, first, declarations, id, List.flatMap_map]
          rfl
  · refine .inl ⟨.inl colon, 1, 1, ?_⟩
    rw [Definition.ofText, List.splitOn_eq_singleton colon]
    rfl

/-! ### Definitions one behind another -/

/-- **Definitions have sections unless one of them is malformed.** -/
theorem sections_cases (base : Text) (definitions : List Text) :
    ((∃ t ∈ definitions, Malformed t) ∧
      ∃ index length, sections id base definitions = .error (.outOfRange index length)) ∨
    ((∀ t ∈ definitions, ¬ Malformed t) ∧
      sections id base definitions = .ok (definitions.flatMap (structText base))) := by
  induction definitions with
  | nil => exact .inr ⟨fun _ member => absurd member List.not_mem_nil, rfl⟩
  | cons t ts ih =>
    rcases ofText_cases t with ⟨bad, index, length, failed⟩ | ⟨good, d, read, written⟩
    · refine .inl ⟨⟨t, List.mem_cons_self, bad⟩, index, length, ?_⟩
      rw [sections, failed]
      rfl
    rcases ih with ⟨⟨u, member, bad⟩, index, length, failed⟩ | ⟨all, rest⟩
    · refine .inl ⟨⟨u, List.mem_cons_of_mem t member, bad⟩, index, length, ?_⟩
      rw [sections, read, failed]
      rfl
    · refine .inr ⟨List.forall_mem_cons.mpr ⟨good, all⟩, ?_⟩
      rw [sections, read, rest, List.flatMap_cons, ← written]
      rfl

/-- **The source of definitions.** It is refused, for an item that is not there, just when one of
them is malformed. Otherwise it is the interface of the base and, for each definition in order, a
struct with its trimmed fields, the method that gives the first word of the first field, and the
marker method. So further definitions only add their declarations at the end. -/
theorem source_writes_structs (base : Text) (definitions : List Text) :
    ((∃ index length, source base definitions = .error (.outOfRange index length)) ↔
      ∃ t ∈ definitions, Malformed t) ∧
    ((∀ t ∈ definitions, ¬ Malformed t) →
      source base definitions = .ok (interfaceText base ++ definitions.flatMap (structText base))) ∧
    (∀ text further, source base definitions = .ok text → (∀ t ∈ further, ¬ Malformed t) →
      source base (definitions ++ further) = .ok (text ++ further.flatMap (structText base))) := by
  have failed {ts : List Text} (bad : ∃ t ∈ ts, Malformed t) :
      ∃ index length, source base ts = .error (.outOfRange index length) := by
    rcases sections_cases base ts with ⟨-, index, length, failed⟩ | ⟨good, -⟩
    · refine ⟨index, length, ?_⟩
      rw [source, failed]
      rfl
    · obtain ⟨t, member, malformed⟩ := bad
      exact absurd malformed (good t member)
  have written {ts : List Text} (good : ∀ t ∈ ts, ¬ Malformed t) :
      source base ts = .ok (interfaceText base ++ ts.flatMap (structText base)) := by
    rcases sections_cases base ts with ⟨⟨t, member, malformed⟩, -⟩ | ⟨-, made⟩
    · exact absurd malformed (good t member)
    · rw [source, made]
      rfl
  have good {text : Text} (made : source base definitions = .ok text) :
      ∀ t ∈ definitions, ¬ Malformed t := by
    intro t member malformed
    obtain ⟨index, length, refused⟩ := failed ⟨t, member, malformed⟩
    rw [made] at refused
    cases refused
  refine ⟨⟨?_, failed⟩, written, ?_⟩
  · rintro ⟨index, length, refused⟩
    by_contra none
    rw [written fun t member malformed => none ⟨t, member, malformed⟩] at refused
    cases refused
  · intro text further made all
    have first := good made
    rw [written first] at made
    cases made
    rw [written (List.forall_mem_append.mpr ⟨first, all⟩), List.flatMap_append, List.append_assoc]

/-- A second colon, fields that are missing and a name beyond ASCII are all taken; a blank before
the first comma is not. -/
theorem source_writes_structs_colons :
    let definitions : List Text := ["Été : first *token ,, second expr:third"]
    let further : List Text := ["Break:keyword *token,"]
    let malformed : Text := "Loop: \u3000, body []stmt"
    let start : Text := "// Code generated by cmd/ast; DO NOT EDIT.\n\npackage internal\n\n" ++
      "type stmt interface \x7b\n\tat() *token\n\tstmtNode()\n\x7d\n\n"
    (∀ t ∈ definitions, ¬ Malformed t) ∧ (∀ t ∈ further, ¬ Malformed t) ∧ Malformed malformed ∧
      source "Stmt" definitions = .ok (start ++ definitions.flatMap (structText "Stmt")) ∧
      source "Stmt" (definitions ++ further) =
        .ok (start ++ definitions.flatMap (structText "Stmt") ++
          further.flatMap (structText "Stmt")) ∧
      ∃ index length,
        source "Stmt" (definitions ++ [malformed]) = .error (.outOfRange index length) := by
  intro definitions further malformed start
  have good : ∀ t ∈ definitions, ¬ Malformed t := by decide +kernel
  have good' : ∀ t ∈ further, ¬ Malformed t := by decide +kernel
  have bad : Malformed malformed := by decide +kernel
  have interface : interfaceText "Stmt" = start := by decide +kernel
  have made := (source_writes_structs "Stmt" definitions).2.1 good
  rw [interface] at made
  refine ⟨good, good', bad, made, (source_writes_structs "Stmt" definitions).2.2 _ _ made good', ?_⟩
  exact (source_writes_structs "Stmt" (definitions ++ [malformed])).1.mpr
    ⟨malformed, List.mem_append_right _ List.mem_cons_self, bad⟩

end NodeSource

end Guwen
