/-
**Shapes: parenthesised texts, and how they are told apart.**

A listing is made of words, texts in quotes, and parentheses around parts with blanks between them.
Behind an opening parenthesis stands the word of a head, or the first part at once.

* `Head` — the words that stand behind an opening parenthesis.
* `Shape`, `Shape.write` — what is written, and its text.
* `Shape.Sound` — words hold no byte that could end them, and texts in quotes no quote.
* **`Shape.write_inj`** — a sound shape is told from its text, whatever follows it.
* `lines_inj` — so are sound shapes on lines of their own.
-/
import Guwen.Operator
import Guwen.Proofs.Code.Delimiters

namespace Guwen

/-! ### Shapes and their texts -/

/-- **What stands behind an opening parenthesis,** by what the parentheses enclose. -/
inductive Head where
  | operator (op : Operator)
  | call
  | list
  | declare
  | parameter
  | function
  | conditional
  | yes
  | no
  | loop
  | print
  | returns
  | assign
  | breaks
deriving DecidableEq, Repr

namespace Head

/-- The heads that a listing of a source can hold. -/
def all : List Head := Operator.all.map operator ++ [call, list, declare, parameter, function,
  conditional, yes, no, loop, print, returns, assign, breaks]

def word : Head → Text
  | operator op => op.name
  | call => "call"
  | list => "list"
  | declare => "var"
  | parameter => "param"
  | function => "fn"
  | conditional => "if"
  | yes => "then"
  | no => "else"
  | loop => "loop"
  | print => "print"
  | returns => "return"
  | assign => "set"
  | breaks => "break"

end Head

/-- **A part of a listing.** -/
inductive Shape where
  | word (text : Text)
  | quoted (text : Text)
  /-- Parentheses around parts alone. -/
  | tuple (parts : List Shape)
  /-- Parentheses around a head and parts. -/
  | form (head : Head) (parts : List Shape)

mutual

/-- **The text of a shape.** -/
def Shape.write : Shape → Text
  | .word text => text
  | .quoted text => "\"" ++ text ++ "\""
  | .tuple [] => "()"
  | .tuple (s :: ss) => "(" ++ s.write ++ writeBehind ss ++ ")"
  | .form head parts => "(" ++ head.word ++ writeBehind parts ++ ")"

/-- The texts of shapes, each behind a blank. -/
def writeBehind : List Shape → Text
  | [] => []
  | s :: ss => " " ++ s.write ++ writeBehind ss

end

/-- Shapes on lines of their own. -/
def writeLines (ss : List Shape) : Text := ss.flatMap fun s => s.write ++ "\n"

/-! ### Sound shapes -/

/-- A byte that ends a word: a blank, a line feed, a parenthesis or a double quote. -/
def isDelimiter (b : UInt8) : Bool := (" \n()\"" : Text).contains b

/-- **A text that stands as a word:** it is not empty, and nothing in it ends it. -/
def Text.IsBare (text : Text) : Prop := text ≠ [] ∧ ∀ b ∈ text, isDelimiter b = false

instance (text : Text) : Decidable text.IsBare := inferInstanceAs (Decidable (_ ∧ _))

/-- The shape stands in parentheses. -/
def Shape.isGroup : Shape → Bool
  | .tuple _ | .form _ _ => true
  | .word _ | .quoted _ => false

mutual

/-- **The parts of the shape can be told from its text.** -/
def Shape.Sound : Shape → Prop
  | .word text => text.IsBare
  | .quoted text => 34 ∉ text
  | .tuple parts => parts.all Shape.isGroup = true ∧ shapesSound parts
  | .form head parts => head ∈ Head.all ∧ shapesSound parts

def shapesSound : List Shape → Prop
  | [] => True
  | s :: ss => s.Sound ∧ shapesSound ss

end

/-! ### Unique reading -/

/-- What follows ends a word. -/
def EndsWord (rest : Text) : Prop := ∀ b ∈ rest.head?, isDelimiter b = true

theorem endsWord_behind (ss : List Shape) (rest : Text) :
    EndsWord (writeBehind ss ++ (")" ++ rest)) := by
  cases ss with
  | nil =>
    rintro _ ⟨⟩
    rfl
  | cons s ss =>
    rw [writeBehind]
    rintro _ ⟨⟩
    rfl

theorem endsWord_line (rest : Text) : EndsWord ("\n" ++ rest) := by
  rintro _ ⟨⟩
  rfl

/-- **A word is told from what follows it.** -/
theorem Text.IsBare.append_inj {text text' rest rest' : Text} (bare : text.IsBare)
    (bare' : text'.IsBare) (ends : EndsWord rest) (ends' : EndsWord rest')
    (same : text ++ rest = text' ++ rest') : text = text' ∧ rest = rest' :=
  Code.span_append_inj (fun b => !isDelimiter b) (fun b member => by simp [bare.2 b member])
    (fun b member => by simp [bare'.2 b member]) (fun b first => by simp [ends b first])
    (fun b first => by simp [ends' b first]) same

theorem Head.isBare {head : Head} (known : head ∈ Head.all) : head.word.IsBare := by
  have bare : ∀ head ∈ Head.all, head.word.IsBare := by decide +kernel
  exact bare head known

theorem Head.word_inj {head head' : Head} (known : head ∈ Head.all) (known' : head' ∈ Head.all)
    (same : head.word = head'.word) : head = head' := by
  have words : ∀ head ∈ Head.all, ∀ head' ∈ Head.all, head.word = head'.word → head = head' := by
    decide +kernel
  exact words head known head' known' same

/-- The four forms of a shape. -/
inductive Build where
  | word
  | quoted
  | tuple
  | form
deriving DecidableEq

def Shape.build : Shape → Build
  | .word _ => .word
  | .quoted _ => .quoted
  | .tuple _ => .tuple
  | .form _ _ => .form

/-- The form of the shape that a text starts with. -/
def Text.build (text : Text) : Build :=
  if text.head? = some 34 then .quoted
  else if text.head? = some 40 then
    if (text.tail.head?.any isDelimiter) then .tuple else .form
  else .word

theorem Text.IsBare.exists_cons {text : Text} (bare : text.IsBare) :
    ∃ b t, text = b :: t ∧ isDelimiter b = false := by
  obtain ⟨b, t, rfl⟩ := List.exists_cons_of_ne_nil bare.1
  exact ⟨b, t, rfl, bare.2 b List.mem_cons_self⟩

theorem Shape.exists_write_of_isGroup {s : Shape} (group : s.isGroup = true) :
    ∃ t, s.write = "(" ++ t := by
  cases s with
  | word | quoted => cases group
  | tuple parts =>
    cases parts with
    | nil => exact ⟨_, rfl⟩
    | cons s ss =>
      rw [Shape.write, List.append_assoc, List.append_assoc]
      exact ⟨_, rfl⟩
  | form head parts =>
    rw [Shape.write, List.append_assoc, List.append_assoc]
    exact ⟨_, rfl⟩

theorem Shape.Sound.exists_write_tuple {s : Shape} {ss : List Shape}
    (sound : (Shape.tuple (s :: ss)).Sound) : ∃ t, (Shape.tuple (s :: ss)).write = "((" ++ t := by
  have groups := sound.1
  rw [List.all_cons, Bool.and_eq_true] at groups
  obtain ⟨t, written⟩ := s.exists_write_of_isGroup groups.1
  rw [Shape.write, written, List.append_assoc, List.append_assoc, List.append_assoc]
  exact ⟨_, rfl⟩

theorem Shape.Sound.write_ne {s : Shape} {ss : List Shape} (sound : (Shape.tuple (s :: ss)).Sound)
    (rest rest' : Text) :
    (Shape.tuple (s :: ss)).write ++ rest ≠ (Shape.tuple []).write ++ rest' := by
  obtain ⟨t, written⟩ := sound.exists_write_tuple
  rw [written]
  intro same
  cases (List.head_eq_of_cons_eq (List.tail_eq_of_cons_eq same) : (40 : UInt8) = 41)

/-- **The first bytes of a sound shape tell its form.** -/
theorem Shape.Sound.build_write {s : Shape} (sound : s.Sound) (rest : Text) :
    (s.write ++ rest).build = s.build := by
  cases s with
  | word text =>
    obtain ⟨b, t, rfl, plain⟩ := Text.IsBare.exists_cons sound
    have quote : b ≠ 34 := fun same => by rw [same] at plain; cases plain
    have opening : b ≠ 40 := fun same => by rw [same] at plain; cases plain
    simp [Shape.write, Text.build, Shape.build, quote, opening]
  | quoted text => rfl
  | tuple parts =>
    cases parts with
    | nil => rfl
    | cons s ss =>
      obtain ⟨t, written⟩ := sound.exists_write_tuple
      rw [written]
      rfl
  | form head parts =>
    obtain ⟨b, t, word, plain⟩ := (Head.isBare sound.1).exists_cons
    rw [Shape.write, word]
    show (if (some b).any isDelimiter then Build.tuple else .form) = .form
    rw [Option.any_some, plain]
    rfl

/-- A text up to its closing quote is told from what follows. -/
theorem quoted_append_inj {text text' rest rest' : Text} (unquoted : 34 ∉ text)
    (unquoted' : 34 ∉ text') (same : text ++ ("\"" ++ rest) = text' ++ ("\"" ++ rest')) :
    text = text' ∧ rest = rest' := by
  have others {text : Text} (unquoted : 34 ∉ text) : ∀ b ∈ text, (b != 34) = true := by
    intro b member
    exact bne_iff_ne.mpr fun quote => unquoted (quote ▸ member)
  have closes (rest : Text) : ∀ b ∈ ("\"" ++ rest : Text).head?, (b != 34) = false := by
    rintro _ ⟨⟩
    rfl
  obtain ⟨rfl, rests⟩ := Code.span_append_inj (· != 34) (others unquoted) (others unquoted')
    (closes rest) (closes rest') same
  exact ⟨rfl, List.append_cancel_left rests⟩

mutual

/-- **A sound shape is told from its text,** when what follows it ends a word. -/
theorem Shape.write_inj : ∀ (s s' : Shape) {rest rest' : Text}, s.Sound → s'.Sound →
    EndsWord rest → EndsWord rest' → s.write ++ rest = s'.write ++ rest' → s = s' ∧ rest = rest'
  | s, s', rest, rest', sound, sound', ends, ends', same => by
    have builds : s.build = s'.build := by
      rw [← sound.build_write rest, same, sound'.build_write rest']
    cases s with
    | word text =>
      cases s' with
      | word text' =>
        obtain ⟨rfl, rests⟩ := Text.IsBare.append_inj sound sound' ends ends' same
        exact ⟨rfl, rests⟩
      | quoted | tuple | form => cases builds
    | quoted text =>
      cases s' with
      | quoted text' =>
        simp only [Shape.write, List.append_assoc] at same
        obtain ⟨rfl, rests⟩ := quoted_append_inj sound sound' (List.append_cancel_left same)
        exact ⟨rfl, rests⟩
      | word | tuple | form => cases builds
    | tuple parts =>
      cases s' with
      | tuple parts' =>
        obtain ⟨parts, rests⟩ := tuple_inj parts parts' sound sound' same
        exact ⟨congrArg _ parts, rests⟩
      | word | quoted | form => cases builds
    | form head parts =>
      cases s' with
      | form head' parts' =>
        simp only [Shape.write, List.append_assoc] at same
        obtain ⟨words, behind⟩ := (Head.isBare sound.1).append_inj (Head.isBare sound'.1)
          (endsWord_behind parts _) (endsWord_behind parts' _) (List.append_cancel_left same)
        obtain rfl := Head.word_inj sound.1 sound'.1 words
        obtain ⟨rfl, rests⟩ := writeBehind_inj parts parts' sound.2 sound'.2 behind
        exact ⟨rfl, rests⟩
      | word | quoted | tuple => cases builds

theorem writeBehind_inj : ∀ (ss ss' : List Shape) {rest rest' : Text}, shapesSound ss →
    shapesSound ss' → writeBehind ss ++ (")" ++ rest) = writeBehind ss' ++ (")" ++ rest') →
    ss = ss' ∧ rest = rest'
  | [], [], _, _, _, _, same => ⟨rfl, List.append_cancel_left same⟩
  | [], s' :: ss', _, _, _, _, same => by
    rw [writeBehind, writeBehind] at same
    cases (List.head_eq_of_cons_eq same : (41 : UInt8) = 32)
  | s :: ss, [], _, _, _, _, same => by
    rw [writeBehind, writeBehind] at same
    cases (List.head_eq_of_cons_eq same : (32 : UInt8) = 41)
  | s :: ss, s' :: ss', _, _, sound, sound', same => by
    simp only [writeBehind, List.append_assoc] at same
    obtain ⟨rfl, behind⟩ := s.write_inj s' sound.1 sound'.1 (endsWord_behind ss _)
      (endsWord_behind ss' _) (List.append_cancel_left same)
    obtain ⟨rfl, rests⟩ := writeBehind_inj ss ss' sound.2 sound'.2 behind
    exact ⟨rfl, rests⟩

theorem tuple_inj : ∀ (ss ss' : List Shape) {rest rest' : Text}, (Shape.tuple ss).Sound →
    (Shape.tuple ss').Sound →
    (Shape.tuple ss).write ++ rest = (Shape.tuple ss').write ++ rest' → ss = ss' ∧ rest = rest'
  | [], [], _, _, _, _, same => ⟨rfl, List.append_cancel_left same⟩
  | [], s' :: ss', _, rest', _, sound', same => absurd same.symm (sound'.write_ne rest' _)
  | s :: ss, [], rest, _, sound, _, same => absurd same (sound.write_ne rest _)
  | s :: ss, s' :: ss', _, _, sound, sound', same => by
    simp only [Shape.write, List.append_assoc] at same
    obtain ⟨rfl, behind⟩ := s.write_inj s' sound.2.1 sound'.2.1 (endsWord_behind ss _)
      (endsWord_behind ss' _) (List.append_cancel_left same)
    obtain ⟨rfl, rests⟩ := writeBehind_inj ss ss' sound.2.2 sound'.2.2 behind
    exact ⟨rfl, rests⟩

end

theorem writeLines_cons_ne_nil (s : Shape) (ss : List Shape) : writeLines (s :: ss) ≠ [] := by
  intro empty
  rw [writeLines, List.flatMap_cons] at empty
  have line : ("\n" : Text) = [] :=
    (List.append_eq_nil_iff.mp (List.append_eq_nil_iff.mp empty).1).2
  cases line

/-- **Sound shapes on lines of their own are told from their text.** -/
theorem writeLines_inj {ss ss' : List Shape} (sound : shapesSound ss) (sound' : shapesSound ss')
    (same : writeLines ss = writeLines ss') : ss = ss' := by
  induction ss generalizing ss' with
  | nil =>
    cases ss' with
    | nil => rfl
    | cons s' ss' => exact absurd same.symm (writeLines_cons_ne_nil s' ss')
  | cons s ss ih =>
    cases ss' with
    | nil => exact absurd same (writeLines_cons_ne_nil s ss)
    | cons s' ss' =>
      simp only [writeLines, List.flatMap_cons, List.append_assoc] at same
      obtain ⟨rfl, lines⟩ :=
        s.write_inj s' sound.1 sound'.1 (endsWord_line _) (endsWord_line _) same
      rw [ih sound.2 sound'.2 (List.append_cancel_left lines)]

end Guwen
