/-
**The listing of a program tells the program.**

Two programs with one listing are the same but for places, for whether callees stand in quotes, and
for the tokens that start a number. The names that are declared or called have to be words, and the
texts in quotes must not hold the quote that ends them.

* `Plain acts texts` — the names that the acts declare or call are words, the texts hold no quote.
* `clean_of_spells`, `clean_of_forms` — what proper tokens spell is clean when it is plain.
* `listing_determines` — so the listing of a plain program tells its gist.
* `listing_hides_numerals` — but not the tokens that start its numbers.
-/
import Guwen.Proofs.Compilation.LineBreaks
import Guwen.Proofs.Token.Partition
import Guwen.Proofs.Tree.Gist

namespace Guwen

/-! ### Plain names and texts -/

/-- The name that an act declares or calls. -/
def Act.spoken? : Act → Option Token
  | .declare name _ _ | .call name _ _ => some name
  | .enter | .leave | .use _ _ | .target _ => none

/-- **The names that are declared or called are words, and the texts hold no double quote.** A word
is not empty and holds no blank, no line feed, no parenthesis and no double quote. -/
structure Plain (acts : List Act) (texts : List Text) : Prop where
  names : ∀ act ∈ acts, ∀ name ∈ act.spoken?, name.lexeme.IsBare
  texts : ∀ text ∈ texts, 34 ∉ text

namespace Plain

variable {acts more : List Act} {texts others : List Text}

theorem mono (plain : Plain acts texts) (fewer : ∀ act ∈ more, act ∈ acts)
    (less : ∀ text ∈ others, text ∈ texts) : Plain more others :=
  ⟨fun act member => plain.names act (fewer act member),
    fun text member => plain.texts text (less text member)⟩

theorem left (plain : Plain (acts ++ more) (texts ++ others)) : Plain acts texts :=
  plain.mono (fun _ => List.mem_append_left more) fun _ => List.mem_append_left others

theorem right (plain : Plain (acts ++ more) (texts ++ others)) : Plain more others :=
  plain.mono (fun _ => List.mem_append_right acts) fun _ => List.mem_append_right texts

theorem tail {act : Act} (plain : Plain (act :: acts) texts) : Plain acts texts :=
  plain.mono (fun _ => List.mem_cons_of_mem act) fun _ => id

theorem single {e : Expr} (plain : Plain acts ([e].flatMap Expr.strings)) : Plain acts e.strings :=
  plain.mono (fun _ => id) fun _ => List.mem_append_left _

theorem block (plain : Plain (blockActs acts) texts) : Plain acts texts :=
  plain.mono (fun _ => mem_blockActs) fun _ => id

end Plain

/-- **A program with plain names and texts.** -/
def Program.IsPlain (p : Program) : Prop := Plain (stmtActs p) p.strings

/-! ### Identifiers -/

/-- The bytes of a character are at least as large as the character, up to the end of ASCII. -/
theorem Text.least_of_mem_encode {c : Char} {n : Nat} (least : n ≤ c.toNat) (ascii : n ≤ 0x80) :
    ∀ b ∈ encode c, n ≤ b.toNat := by
  intro b member
  by_cases beyond : 0x80 ≤ c.toNat
  · exact Nat.le_trans ascii (le_of_mem_encode beyond b member)
  · rw [encode, if_pos (Nat.not_le.mp beyond), List.mem_singleton] at member
    rwa [member, toNat_toUInt8 (by omega)]

/-- Letters, digits and characters from the letters on make words. -/
theorem isBare_ofChars {cs : List Char} (some : cs ≠ []) (chars : ∀ c ∈ cs, 48 ≤ c.toNat) :
    (Text.ofChars cs).IsBare := by
  have small : ∀ d ∈ (" \n()\"" : Text), d.toNat < 48 := by decide +kernel
  refine ⟨Token.ofChars_ne_nil some, fun b member => ?_⟩
  rw [isDelimiter, ← Bool.not_eq_true, List.contains_iff_mem]
  intro delimiter
  obtain ⟨c, inside, here⟩ := List.mem_flatMap.mp member
  have large := Text.least_of_mem_encode (chars c inside) (by decide) b here
  exact absurd (small b delimiter) (Nat.not_lt.mpr large)

theorem isNumeric_ofChars {c : Char} {cs : List Char} (large : 58 ≤ c.toNat) :
    (Text.ofChars (c :: cs)).isNumeric = false := by
  have some : Text.encode c ≠ [] := by
    intro empty
    refine Token.ofChars_ne_nil (List.cons_ne_nil c []) ?_
    rw [Text.ofChars, List.flatMap_singleton, empty]
  obtain ⟨b, t, bytes⟩ := List.exists_cons_of_ne_nil some
  have least := Text.least_of_mem_encode large (by decide) b (bytes ▸ List.mem_cons_self)
  rw [Text.isNumeric, Text.ofChars, List.flatMap_cons, bytes]
  show (decide (48 ≤ b) && decide (b ≤ 57)) = false
  have beyond : 57 < b := UInt8.lt_iff_toNat_lt.mpr least
  rw [decide_eq_false (UInt8.not_le.mpr beyond), Bool.and_false]

/-- **An identifier token is a word that starts with no digit.** -/
theorem isBare_of_spelt {t : Token} (spelt : t.Spelt) (identifier : t.kind = .identifier) :
    t.lexeme.IsBare ∧ t.lexeme.isNumeric = false := by
  obtain ⟨cs, spelling, written⟩ := spelt
  rw [identifier] at spelling
  rw [written]
  cases spelling with
  | keyword found =>
    obtain ⟨word, entry, -⟩ := mem_entries_of_kind? found
    have others : ∀ entry ∈ Lexicon.entries, entry.2 ≠ .identifier := by decide
    exact absurd rfl (others _ entry)
  | @glyph c han =>
    have large := (Token.range_of_han han).1
    refine ⟨isBare_ofChars (List.cons_ne_nil _ _) fun d member => ?_, isNumeric_ofChars (by omega)⟩
    rw [List.mem_singleton.mp member]
    omega
  | @latin c cs letter others =>
    have large := (Token.range_of_letter letter).1
    refine ⟨isBare_ofChars (List.cons_ne_nil _ _) fun d member => ?_, isNumeric_ofChars (by omega)⟩
    rcases List.mem_cons.mp member with rfl | later
    · omega
    · rcases others d later with letter | digit
      · have := (Token.range_of_letter letter).1
        omega
      · exact (Token.range_of_digit digit).1

/-! ### What was read is clean -/

namespace Grammar

def Phrase.Clean : Phrase → Prop
  | operand e | term e | sum e | expression e => e.Clean
  | arguments es => exprsClean es

/-- **What proper tokens spell is clean, when it is plain.** -/
theorem clean_of_spells {phrase : Phrase} {ts after : List Token}
    (spelt : Spells phrase ts after) :
    (∀ t ∈ ts, t.Proper) → Plain phrase.acts phrase.strings → phrase.Clean := by
  have applies {k : Token} (proper : k.Proper) (is : k.kind = .apply) :
      k.unplaced = .keyword .apply := Token.unplaced_eq_keyword proper is (by decide)
  induction spelt with
  | @arabic t _ number arabic =>
    intro proper _
    have spelt := (proper t List.mem_cons_self).spelt
    exact ⟨Token.unplacedStart_of_number number, .inr ⟨rfl, isNumber_of_spelt spelt number arabic⟩⟩
  | glyphs number =>
    exact fun _ _ => ⟨Token.unplacedStart_of_number number, .inr ⟨rfl, .inl (isDigits_ofNat _)⟩⟩
  | @string t _ string =>
    intro _ plain
    refine ⟨Token.unplacedStart_congr ?_, .inl ⟨rfl, plain.texts _ List.mem_cons_self⟩⟩
    rw [← string]
    rfl
  | @name t _ name =>
    exact fun proper _ => ⟨name, rfl, isBare_of_spelt (proper t List.mem_cons_self).spelt name⟩
  | @bareCall k callee _ is =>
    exact fun proper plain => ⟨applies (proper k List.mem_cons_self) is,
      plain.names _ List.mem_cons_self callee rfl, rfl, trivial⟩
  | @call k callee _ _ _ _ is _ _ _ values =>
    exact fun proper plain => ⟨applies (proper k List.mem_cons_self) is,
      plain.names _ List.mem_cons_self callee rfl, rfl,
      values (fun t member => proper t (by simp [member])) plain.tail⟩
  | lastArgument _ _ value => exact fun proper plain => ⟨value proper plain.left, trivial⟩
  | argument _ _ _ value more =>
    exact fun proper plain => ⟨value (fun t member => proper t (by simp [member])) plain.left,
      more (fun t member => proper t (by simp [member])) plain.right⟩
  | operandTerm _ inner | termSum _ inner | sumExpression _ inner => exact inner
  | @product _ _ t _ _ _ _ _ operator _ _ left right | @sum _ _ t _ _ _ _ _ operator _ _ left right
  | @comparison _ _ t _ _ _ _ _ operator _ _ left right =>
    intro proper plain
    obtain ⟨keyword, known⟩ := keyword_of_ofKind? operator
    have is := Token.unplaced_eq_keyword (proper t (by simp)) keyword.symm (keyword ▸ known)
    exact ⟨mem_all_of_ofKind? operator, is,
      left (fun t member => proper t (by simp [member])) plain.left,
      right (fun t member => proper t (by simp [member])) plain.right⟩

theorem clean_of_spellsElements {es : List Expr} {ts after : List Token}
    (spelt : SpellsElements es ts after) :
    (∀ t ∈ ts, t.Proper) → Plain (exprActs es) (exprStrings es) → exprsClean es := by
  induction spelt with
  | last value =>
    exact fun proper plain => ⟨clean_of_spells value proper plain.left, trivial⟩
  | more value _ _ rest =>
    intro proper plain
    exact ⟨clean_of_spells value (fun t member => proper t (by simp [member])) plain.left,
      rest (fun t member => proper t (by simp [member])) plain.right⟩

theorem clean_of_spellsValue {isList : Bool} {e : Expr} {ts after : List Token}
    (spelt : SpellsValue isList e ts after) (proper : ∀ t ∈ ts, t.Proper)
    (plain : Plain e.acts e.strings) : e.Clean := by
  cases spelt with
  | single value | reference value _ => exact clean_of_spells value proper plain
  | list values _ =>
    obtain ⟨_, ⟨⟩, starts⟩ := values.starts
    exact ⟨starts, clean_of_spellsElements values proper plain⟩

theorem clean_of_spellsInitial {isList : Bool} {value : Option Expr} {ts after : List Token}
    (spelt : SpellsInitial isList value ts after) (proper : ∀ t ∈ ts, t.Proper)
    (plain : Plain (optionActs value) (value.toList.flatMap Expr.strings)) :
    ∀ e ∈ value, e.Clean := by
  cases spelt with
  | absent =>
    rintro e ⟨⟩
  | present _ value =>
    rintro e ⟨⟩
    exact clean_of_spellsValue value (fun t member => proper t (List.mem_cons_of_mem _ member))
      plain.single

/-- A proper token of a type's kind is a word of a type. -/
theorem isType_of_proper {t : Token} (proper : t.Proper) (type : t.kind.isType = true) :
    t.IsType := by
  have kinds : ∀ kind : TokenKind, kind.isType = true → kind ∈ typeKinds := by
    intro kind type
    cases kind <;> first | decide | cases type
  have known : ∀ kind ∈ typeKinds, kind ∈ Lexicon.kinds := by decide
  have member := kinds t.kind type
  exact ⟨t.kind, member, Token.unplaced_eq_keyword proper rfl (known _ member)⟩

theorem kind_of_spellsName {name : Token} {ts : List Token} (spelt : SpellsName name ts) :
    name.kind = .string := by
  obtain ⟨_, _, -, -, string, -, -⟩ := spelt
  exact string

theorem clean_of_spellsParams {ps : List Param} {ts : List Token} (spelt : SpellsParams ps ts) :
    (∀ t ∈ ts, t.Proper) → (∀ p ∈ ps, p.name.lexeme.IsBare) → ∀ p ∈ ps, p.Clean := by
  induction spelt with
  | @last type name _ _ type_kind named _ =>
    intro proper bare p member
    cases List.mem_singleton.mp member
    exact ⟨isType_of_proper (proper type List.mem_cons_self) type_kind,
      kind_of_spellsName named, bare _ List.mem_cons_self⟩
  | @more type name _ _ _ _ type_kind named _ _ rest =>
    intro proper bare p member
    rcases List.mem_cons.mp member with rfl | later
    · exact ⟨isType_of_proper (proper type List.mem_cons_self) type_kind,
        kind_of_spellsName named, bare _ List.mem_cons_self⟩
    · exact rest (fun t inside => proper t (by simp [inside]))
        (fun q inside => bare q (List.mem_cons_of_mem _ inside)) p later

theorem clean_of_spellsSignature {ps : List Param} {ts : List Token}
    (spelt : SpellsSignature ps ts) (proper : ∀ t ∈ ts, t.Proper)
    (bare : ∀ p ∈ ps, p.name.lexeme.IsBare) : ∀ p ∈ ps, p.Clean := by
  cases spelt with
  | absent => exact fun _ member => absurd member List.not_mem_nil
  | present _ params =>
    have tokens := fun t member => proper t (List.mem_cons_of_mem _ member)
    exact clean_of_spellsParams params tokens bare

def Clause.Clean : Clause → Prop
  | statement s => s.Clean
  | statements ss => stmtsClean ss

/-- The texts of a clause that are written in quotes. -/
def Clause.strings (clause : Clause) : List Text := clause.exprs.flatMap Expr.strings

/-- **What proper tokens form is clean, when it is plain.** -/
theorem clean_of_forms {clause : Clause} {place : Place} {ts after : List Token}
    (formed : Forms clause place ts after) :
    (∀ t ∈ ts, t.Proper) → Plain clause.acts clause.strings → clause.Clean := by
  have keyword {k : Token} {kind : TokenKind} (proper : k.Proper) (is : k.kind = kind)
      (known : kind ∈ Lexicon.kinds) : k.unplaced = .keyword kind :=
    Token.unplaced_eq_keyword proper is known
  induction formed with
  | @declare _ k type name closing value _ us _ is type_kind named initial _ =>
    intro proper plain
    refine ⟨keyword (proper k (by simp)) is (by decide),
      isType_of_proper (proper type (by simp)) type_kind,
      ⟨kind_of_spellsName named, plain.names (.declare name type.lexeme .value)
        (List.mem_append_right _ List.mem_cons_self) name rfl⟩, ?_⟩
    refine clean_of_spellsInitial initial (fun t member => proper t (by simp [member])) ?_
    exact plain.mono (fun _ => List.mem_append_left _) fun _ => id
  | @print _ k _ _ _ _ is value _ =>
    exact fun proper plain => ⟨keyword (proper k List.mem_cons_self) is (by decide),
      clean_of_spells value (fun t member => proper t (by simp [member])) plain.single⟩
  | @returnValue _ k _ _ _ _ is _ value _ =>
    intro proper plain
    refine ⟨keyword (proper k List.mem_cons_self) is (by decide), ?_⟩
    rintro e ⟨⟩
    exact clean_of_spells value (fun t member => proper t (by simp [member])) plain.single
  | @conditional _ k _ _ e yes no _ _ _ _ _ is condition _ _ _ _ _ first second =>
    intro proper plain
    have texts : Plain (e.acts ++ (blockActs (stmtActs yes) ++ blockActs (stmtActs no)))
        (e.strings ++ ((stmtExprs yes).flatMap Expr.strings ++
          (stmtExprs no).flatMap Expr.strings)) := by
      rw [← List.flatMap_append, ← List.flatMap_cons]
      exact plain
    exact ⟨keyword (proper k List.mem_cons_self) is (by decide),
      clean_of_spells condition (fun t member => proper t (by simp [member])) texts.left,
      first (fun t member => proper t (by simp [member])) texts.right.left.block,
      second (fun t member => proper t (by simp [member])) texts.right.right.block⟩
  | @loop _ k _ _ _ _ is _ _ inner =>
    exact fun proper plain => ⟨keyword (proper k List.mem_cons_self) is (by decide),
      inner (fun t member => proper t (by simp [member])) plain.block⟩
  | @function _ k name ps _ _ _ _ _ _ _ _ is named _ params _ _ _ inner =>
    intro proper plain
    have inside : Plain (ps.map Param.act ++ stmtActs _) _ := plain.tail.block
    refine ⟨keyword (proper k List.mem_cons_self) is (by decide),
      ⟨kind_of_spellsName named, plain.names _ List.mem_cons_self name rfl⟩, ?_, ?_⟩
    · refine clean_of_spellsSignature params (fun t member => proper t (by simp [member])) ?_
      intro p member
      exact inside.names p.act (List.mem_append_left _ (List.mem_map_of_mem member)) p.name rfl
    · refine inner (fun t member => proper t (by simp [member])) ?_
      exact inside.mono (fun _ => List.mem_append_right _) fun _ => id
  | @returnNothing _ k _ _ is =>
    intro proper _
    refine ⟨keyword (proper k List.mem_cons_self) is (by decide), ?_⟩
    rintro e ⟨⟩
  | @breaks _ k _ _ is => exact fun proper _ => keyword (proper k List.mem_cons_self) is (by decide)
  | @perform _ k e _ _ _ is call _ =>
    intro proper plain
    have clean := clean_of_spells call (fun t member => proper t (List.mem_append_left _ member))
      plain.single
    refine ⟨keyword (proper k List.mem_cons_self) is (by decide), clean, ?_⟩
    cases call with
    | arabic other | glyphs other | string other | name other => cases is.symm.trans other
    | bareCall | call => exact ⟨_, _, _, _, rfl⟩
  | @assign _ name _ _ _ _ _ named _ value _ =>
    intro proper plain
    refine ⟨named, (isBare_of_spelt (proper name List.mem_cons_self).spelt named).1, ?_⟩
    exact clean_of_spells value (fun t member => proper t (by simp [member])) plain.tail.single
  | none => exact fun _ _ => trivial
  | @more _ s ss _ _ _ _ _ first rest =>
    intro proper plain
    have texts : Plain (s.acts ++ stmtActs ss)
        (s.exprs.flatMap Expr.strings ++ (stmtExprs ss).flatMap Expr.strings) := by
      rw [← List.flatMap_append]
      exact plain
    exact ⟨first (fun t member => proper t (List.mem_append_left _ member)) texts.left,
      rest (fun t member => proper t (List.mem_append_right _ member)) texts.right⟩

end Grammar

/-! ### The listing of what was read -/

open Grammar

theorem clean_of_ofSource {source : Text} {p : Program} (read : Program.ofSource source = .ok p)
    (plain : p.IsPlain) : stmtsClean p := by
  have proper : ∀ t ∈ body (Token.tokenize source), t.Proper := by
    rw [← dropLast_tokenize]
    exact Token.proper_tokenize source
  exact clean_of_forms (ofTokens_eq_ok_iff.mp read) proper plain

/-- **The listing of a program tells the program.** Two sources give trees that are the same but for
places, for the kinds of callees and for the tokens that start a number, whenever they have one
listing, the names that they declare or call are words, and their texts hold no double quote. -/
theorem listing_determines {source source' : Text} {p p' : Program}
    (read : Program.ofSource source = .ok p) (read' : Program.ofSource source' = .ok p')
    (plain : p.IsPlain) (plain' : p'.IsPlain) (same : p.listing = p'.listing) :
    p.gist Token.unplacedStart = p'.gist Token.unplacedStart :=
  gist_eq_of_listing (clean_of_ofSource read plain) (clean_of_ofSource read' plain') same

/-- A call with and without quotes around its callee, and of two spellings of one number. -/
theorem listing_determines_call :
    let source : Text := "云施甲以四"
    let source' : Text := "云施「甲」於4也"
    let p : Program := [.print ⟨.print, "云", 1, 1⟩ (.call ⟨.apply, "施", 1, 2⟩
      ⟨.identifier, "甲", 1, 3⟩ [.literal ⟨.number, "四", 1, 5⟩ .number "4"] none)]
    let p' : Program := [.print ⟨.print, "云", 1, 1⟩ (.call ⟨.apply, "施", 1, 2⟩
      ⟨.string, "甲", 1, 3⟩ [.literal ⟨.number, "4", 1, 7⟩ .number "4"] none)]
    Program.ofSource source = .ok p ∧ Program.ofSource source' = .ok p' ∧
      p.IsPlain ∧ p'.IsPlain ∧ p.listing = p'.listing ∧
      p.gist Token.unplacedStart = p'.gist Token.unplacedStart := by
  intro source source' p p'
  have scanned : Token.tokenize source = [⟨.print, "云", 1, 1⟩, ⟨.apply, "施", 1, 2⟩,
      ⟨.identifier, "甲", 1, 3⟩, ⟨.taking, "以", 1, 4⟩, ⟨.number, "四", 1, 5⟩,
      ⟨.eof, [], 1, 6⟩] := by
    decide +kernel
  have scanned' : Token.tokenize source' = [⟨.print, "云", 1, 1⟩, ⟨.apply, "施", 1, 2⟩,
      ⟨.string, "甲", 1, 3⟩, ⟨.toward, "於", 1, 6⟩, ⟨.number, "4", 1, 7⟩,
      ⟨.close, "也", 1, 8⟩, ⟨.eof, [], 1, 9⟩] := by
    decide +kernel
  have read : Program.ofSource source = .ok p := by
    rw [Program.ofSource, scanned]
    with_unfolding_all rfl
  have read' : Program.ofSource source' = .ok p' := by
    rw [Program.ofSource, scanned']
    with_unfolding_all rfl
  have plain : p.IsPlain := ⟨by decide +kernel, by decide +kernel⟩
  have plain' : p'.IsPlain := ⟨by decide +kernel, by decide +kernel⟩
  exact ⟨read, read', plain, plain', rfl, listing_determines read read' plain plain' rfl⟩

/-- **A listing does not show the token that starts a number,** which is not the same for 四 and
for 4. -/
theorem listing_hides_numerals : ∃ (source source' : Text) (p p' : Program),
    Program.ofSource source = .ok p ∧ Program.ofSource source' = .ok p' ∧ p.IsPlain ∧ p'.IsPlain ∧
      p.listing = p'.listing ∧ p.gist Token.unplaced ≠ p'.gist Token.unplaced := by
  have scanned : Token.tokenize "云四" =
      [⟨.print, "云", 1, 1⟩, ⟨.number, "四", 1, 2⟩, ⟨.eof, [], 1, 3⟩] := by decide +kernel
  have scanned' : Token.tokenize "云4" =
      [⟨.print, "云", 1, 1⟩, ⟨.number, "4", 1, 2⟩, ⟨.eof, [], 1, 3⟩] := by decide +kernel
  refine ⟨"云四", "云4",
    [.print ⟨.print, "云", 1, 1⟩ (.literal ⟨.number, "四", 1, 2⟩ .number "4")],
    [.print ⟨.print, "云", 1, 1⟩ (.literal ⟨.number, "4", 1, 2⟩ .number "4")],
    ?_, ?_, ⟨by decide +kernel, by decide +kernel⟩, ⟨by decide +kernel, by decide +kernel⟩, rfl, ?_⟩
  · rw [Program.ofSource, scanned]
    with_unfolding_all rfl
  · rw [Program.ofSource, scanned']
    with_unfolding_all rfl
  · intro same
    cases same

end Guwen
