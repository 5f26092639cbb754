/-
**What a tree that was read holds, and where it comes from.**

* `Yields acts ts` — every name in use is one of the tokens `ts`, and the names declared are some of
  them, in their order.
* **`yields_of_forms`** — the acts of a clause come so from the tokens that form it.
* `value_of_spelt` — an identifier token does not spell the name of a builtin function.
* **`legible_of_forms`** — when the tokens are spelt as their kinds ask, the clause is legible.
-/
import Guwen.Proofs.Code.Expression
import Guwen.Proofs.Grammar.Derivation
import Guwen.Proofs.Token.Spelling

namespace Guwen

namespace Grammar

/-! ### Names are tokens -/

/-- The acts of a phrase. -/
def Phrase.acts : Phrase → List Act
  | operand e | term e | sum e | expression e => e.acts
  | arguments es => exprActs es

/-- The acts of a clause. -/
def Clause.acts : Clause → List Act
  | statement s => s.acts
  | statements ss => stmtActs ss

/-- **The names of the acts are tokens:** those in use are identifiers among them, and those
declared stand in their order. -/
structure Yields (acts : List Act) (ts : List Token) : Prop where
  uses : ∀ name mark, .use name mark ∈ acts → name ∈ ts ∧ name.kind = .identifier
  declares : (acts.filterMap Act.declared?).Sublist ts

namespace Yields

variable {acts more : List Act} {ts us : List Token}

theorem nil (ts : List Token) : Yields [] ts :=
  ⟨fun _ _ member => absurd member List.not_mem_nil, List.nil_sublist ts⟩

theorem append (first : Yields acts ts) (second : Yields more us) :
    Yields (acts ++ more) (ts ++ us) := by
  refine ⟨fun name mark member => ?_, ?_⟩
  · rcases List.mem_append.mp member with here | there
    · obtain ⟨inside, kind⟩ := first.uses name mark here
      exact ⟨List.mem_append_left us inside, kind⟩
    · obtain ⟨inside, kind⟩ := second.uses name mark there
      exact ⟨List.mem_append_right ts inside, kind⟩
  · rw [List.filterMap_append]
    exact first.declares.append second.declares

theorem widen (yields : Yields acts ts) (within : ts.Sublist us) : Yields acts us := by
  refine ⟨fun name mark member => ?_, yields.declares.trans within⟩
  obtain ⟨inside, kind⟩ := yields.uses name mark member
  exact ⟨within.subset inside, kind⟩

/-- A token that no act speaks of. -/
theorem skip (yields : Yields acts ts) (t : Token) : Yields acts (t :: ts) :=
  yields.widen (List.sublist_cons_self t ts)

theorem behind (yields : Yields acts ts) (us : List Token) : Yields acts (ts ++ us) :=
  yields.widen (List.sublist_append_left ts us)

theorem before (yields : Yields acts ts) (us : List Token) : Yields acts (us ++ ts) :=
  yields.widen (List.sublist_append_right us ts)

/-- An act that neither uses nor declares. -/
theorem plain {act : Act} (no_use : ∀ name mark, act ≠ .use name mark)
    (no_name : act.declared? = none) : Yields [act] [] := by
  refine ⟨fun name mark member => ?_, ?_⟩
  · exact absurd (List.mem_singleton.mp member).symm (no_use name mark)
  · rw [List.filterMap_cons_none no_name]
    exact List.nil_sublist []

theorem declaration (name : Token) (type : Text) (kind : SymbolKind) :
    Yields [.declare name type kind] [name] := by
  refine ⟨fun used mark member => ?_, List.Sublist.refl [name]⟩
  exact Act.noConfusion (List.mem_singleton.mp member)

theorem block (inner : Yields acts ts) : Yields (blockActs acts) ts := by
  have opened : Yields [.enter] [] := plain (fun _ _ => Act.noConfusion) rfl
  have closed : Yields [.leave] [] := plain (fun _ _ => Act.noConfusion) rfl
  have whole := (opened.append inner).append closed
  rwa [List.nil_append, List.append_nil] at whole

end Yields

/-- Acts that only refer to names declare nothing. -/
theorem filterMap_declared? {acts : List Act}
    (refer : ∀ act ∈ acts, ∃ name, act.reference? = some name) :
    acts.filterMap Act.declared? = [] := by
  rw [List.filterMap_eq_nil_iff]
  intro act member
  obtain ⟨name, refers⟩ := refer act member
  cases act with
  | declare => cases refers
  | enter | leave | use | target | call => rfl

theorem yields_of_spells {phrase : Phrase} {ts after : List Token}
    (spelt : Spells phrase ts after) : Yields phrase.acts ts := by
  have calls : ∀ callee count mark, Yields [.call callee count mark] [] :=
    fun _ _ _ => .plain (fun _ _ => Act.noConfusion) rfl
  induction spelt with
  | arabic | glyphs | string => exact .nil _
  | @name t _ name =>
    refine ⟨fun used mark member => ?_, List.nil_sublist _⟩
    cases List.mem_singleton.mp member
    exact ⟨List.mem_singleton_self t, name⟩
  | bareCall => exact (calls _ _ _).behind _
  | call _ _ _ _ values => exact (calls _ _ _).append (((values.skip _).skip _).skip _)
  | @lastArgument e ts _ _ _ value =>
    have whole : Yields (exprActs [e]) (ts ++ []) := value.append (.nil [])
    rwa [List.append_nil] at whole
  | argument _ _ _ value more => exact value.append (more.skip _)
  | operandTerm _ inner | termSum _ inner | sumExpression _ inner => exact inner
  | product _ _ _ _ left right | sum _ _ _ _ left right | comparison _ _ _ _ left right =>
    exact left.append (right.skip _)

theorem yields_of_spellsElements {es : List Expr} {ts after : List Token}
    (spelt : SpellsElements es ts after) : Yields (exprActs es) ts := by
  induction spelt with
  | @last e ts _ value =>
    have whole : Yields (exprActs [e]) (ts ++ []) := (yields_of_spells value).append (.nil [])
    rwa [List.append_nil] at whole
  | more value _ _ rest => exact (yields_of_spells value).append (rest.skip _)

theorem yields_of_spellsInitial {isList : Bool} {value : Option Expr} {ts after : List Token}
    (spelt : SpellsInitial isList value ts after) : Yields (optionActs value) ts := by
  cases spelt with
  | absent => exact .nil []
  | present _ value =>
    cases value with
    | single value => exact (yields_of_spells value).skip _
    | reference value _ => exact (yields_of_spells value).skip _
    | list values _ => exact (yields_of_spellsElements values).skip _

theorem yields_of_spellsName {name : Token} {ts : List Token} (spelt : SpellsName name ts)
    (type : Text) (kind : SymbolKind) : Yields [.declare name type kind] ts := by
  obtain ⟨lead, mark, -, -, -, -, rfl⟩ := spelt
  exact ((Yields.declaration name type kind).skip mark).before lead

theorem yields_of_spellsSignature {ps : List Param} {ts : List Token}
    (spelt : SpellsSignature ps ts) : Yields (ps.map Param.act) ts := by
  cases spelt with
  | absent => exact .nil []
  | present _ params =>
    refine Yields.skip ?_ _
    induction params with
    | last _ named _ => exact ((yields_of_spellsName named _ _).behind _).skip _
    | more _ named _ _ rest =>
      exact (((yields_of_spellsName named _ _).behind _).append rest).skip _

/-- **The acts of a clause come from the tokens that form it.** -/
theorem yields_of_forms {clause : Clause} {place : Place} {ts after : List Token}
    (formed : Forms clause place ts after) : Yields clause.acts ts := by
  induction formed with
  | @declare _ k type name closing value ts us _ _ _ named initial _ =>
    have declared := yields_of_spellsName named type.lexeme .value
    have whole := (yields_of_spellsInitial initial).behind [closing]
    -- The name stands before its value, but is declared behind it.
    have names : (optionActs value ++ [Act.declare name type.lexeme .value]).filterMap
        Act.declared? = [name] := by
      rw [List.filterMap_append, filterMap_declared? (optionActs_refer value)]
      rfl
    refine Yields.skip (Yields.skip ⟨fun used mark member => ?_, ?_⟩ type) k
    · rcases List.mem_append.mp member with inside | last
      · exact (whole.before ts).uses used mark inside
      · exact Act.noConfusion (List.mem_singleton.mp last)
    · show ((optionActs value ++ [Act.declare name type.lexeme .value]).filterMap
        Act.declared?).Sublist _
      rw [names]
      exact (declared.behind (us ++ [closing])).declares
  | print _ value _ => exact ((yields_of_spells value).behind _).skip _
  | @conditional _ _ _ closing _ _ _ _ _ other _ _ _ condition _ _ _ _ _ yes no =>
    have branches := yes.block.append ((no.block.behind [closing]).before other)
    exact ((yields_of_spells condition).append (branches.skip _)).skip _
  | loop _ _ _ inner => exact (inner.block.behind _).skip _
  | @function _ _ _ _ _ _ _ _ behind _ closing _ _ named _ params _ _ _ inner =>
    have inside := (yields_of_spellsSignature params).append ((inner.behind closing).before behind)
    exact ((yields_of_spellsName named _ _).append (inside.block.before _)).skip _
  | returnValue _ _ value _ => exact ((yields_of_spells value).behind _).skip _
  | returnNothing | breaks | none => exact .nil _
  | perform _ call _ => exact (yields_of_spells call).behind _
  | @assign _ name _ _ _ _ _ _ _ value _ =>
    have target : Yields [.target name] [] := .plain (fun _ _ => Act.noConfusion) rfl
    exact target.append ((((yields_of_spells value).behind _).skip _).skip _)
  | more _ _ first rest => exact first.append rest

/-- An identifier token is one glyph, or starts with a letter. -/
theorem short_of_spelling {cs : List Char} (spelling : Spelling .identifier cs) :
    cs.length = 1 ∨ cs.head?.any isLetter = true := by
  cases spelling with
  | keyword found =>
    obtain ⟨word, entry, -⟩ := mem_entries_of_kind? found
    have others : ∀ entry ∈ Lexicon.entries, entry.2 ≠ .identifier := by decide
    exact absurd rfl (others _ entry)
  | glyph => exact .inl rfl
  | latin letter _ => exact .inr letter

/-- **An identifier token does not spell the name of a builtin function,** which has two glyphs. -/
theorem value_of_spelt {t : Token} (spelt : t.Spelt) (identifier : t.kind = .identifier)
    {b : Builtin} (known : b ∈ Builtin.all) (named : b.name = t.lexeme) : b.kind = .value := by
  obtain ⟨cs, spelling, written⟩ := spelt
  rw [identifier] at spelling
  have glyphs : ∀ word : String, (word : Text) = t.lexeme → cs = word.toList := by
    intro word same
    have read := congrArg Text.chars (same.trans written)
    rw [Text.ofString, Text.chars_ofChars, Text.chars_ofChars] at read
    exact read.symm
  have short := short_of_spelling spelling
  simp only [Builtin.all, List.mem_cons, List.not_mem_nil, or_false] at known
  rcases known with rfl | rfl | rfl | rfl | rfl | rfl | rfl
  · rw [glyphs "輸出" named] at short
    exact absurd short (by decide)
  · rw [glyphs "輸入" named] at short
    exact absurd short (by decide)
  · rw [glyphs "長度" named] at short
    exact absurd short (by decide)
  · rw [glyphs "轉換" named] at short
    exact absurd short (by decide)
  all_goals rfl

/-! ### Legible trees -/

/-- A digit is one byte. -/
theorem encode_digit {c : Char} (digit : isDigit c = true) :
    ∃ b, Text.encode c = [b] ∧ b.toNat = c.toNat ∧ Code.isDigitByte b = true := by
  simp only [isDigit, Bool.and_eq_true, decide_eq_true_eq, Char.le_def,
    UInt32.le_iff_toNat_le] at digit
  have low : 48 ≤ c.toNat := digit.1
  have high : c.toNat ≤ 57 := digit.2
  have value : c.toNat.toUInt8.toNat = c.toNat := Text.toNat_toUInt8 (by omega)
  refine ⟨c.toNat.toUInt8, by rw [Text.encode, if_pos (by omega)], value, ?_⟩
  simp only [Code.isDigitByte, Bool.and_eq_true, decide_eq_true_eq, UInt8.le_iff_toNat_le, value]
  exact ⟨low, high⟩

theorem isDigits_ofChars {c : Char} {cs : List Char} (digits : ∀ x ∈ c :: cs, isDigit x = true) :
    Code.IsDigits (Text.ofChars (c :: cs)) := by
  refine ⟨?_, fun b member => ?_⟩
  · obtain ⟨b, first, -⟩ := encode_digit (digits c List.mem_cons_self)
    rw [Text.ofChars, List.flatMap_cons, first]
    exact List.cons_ne_nil b _
  · obtain ⟨x, inside, here⟩ := List.mem_flatMap.mp member
    obtain ⟨b', only, -, digit⟩ := encode_digit (digits x inside)
    rw [only, List.mem_singleton] at here
    rwa [here]

theorem isDigits_ofNat (n : Nat) : Code.IsDigits (Text.ofNat n) := by
  obtain ⟨c, cs, same, digits⟩ := exists_digits_ofNat n
  rw [same]
  exact isDigits_ofChars digits

/-- **A number of a source in Arabic digits** is a number of the code. -/
theorem isNumber_of_spelt {t : Token} (spelt : t.Spelt) (number : t.kind = .number)
    (arabic : isArabic t = true) : Code.IsNumber t.lexeme := by
  obtain ⟨cs, spelling, written⟩ := spelt
  rw [number] at spelling
  rw [isArabic, written, Text.chars_ofChars] at arabic
  rw [written]
  cases spelling with
  | keyword found =>
    obtain ⟨word, entry, -⟩ := mem_entries_of_kind? found
    have others : ∀ entry ∈ Lexicon.entries, entry.2 ≠ .number := by decide
    exact absurd rfl (others _ entry)
  | digits digits => exact .inl (isDigits_ofChars digits)
  | @decimal c d cs ds digits digits' =>
    refine .inr ⟨_, _, isDigits_ofChars digits, isDigits_ofChars digits', ?_⟩
    have dot : Text.encode '.' = [46] := rfl
    simp [Text.ofChars, dot]
  | @numeral c numeral =>
    refine .inl (isDigits_ofChars fun x member => ?_)
    rw [List.mem_singleton.mp member]
    simpa using arabic

theorem mem_all_of_ofKind? {kind : TokenKind} {op : Operator}
    (known : Operator.ofKind? kind = some op) : op ∈ Operator.all := by
  cases kind
  case plus | minus | times | divide | greater | less | equal =>
    cases known
    decide
  all_goals cases known

/-- The phrase is legible. -/
def Phrase.Legible : Phrase → Prop
  | operand e | term e | sum e | expression e => e.Legible
  | arguments es => exprsLegible es

/-- The clause is legible. -/
def Clause.Legible : Clause → Prop
  | statement s => s.Legible
  | statements ss => stmtsLegible ss

theorem legible_of_spells {phrase : Phrase} {ts after : List Token}
    (spelt : Spells phrase ts after) : (∀ t ∈ ts, t.Spelt) → phrase.Legible := by
  induction spelt with
  | arabic number arabic =>
    intro tokens
    exact .inr (isNumber_of_spelt (tokens _ List.mem_cons_self) number arabic)
  | glyphs => exact fun _ => .inr (.inl (isDigits_ofNat _))
  | string => exact fun _ => .inl rfl
  | name => exact fun _ => trivial
  | bareCall => exact fun _ => trivial
  | call _ _ _ _ values =>
    exact fun tokens => values fun t member => tokens t (by simp [member])
  | lastArgument _ _ value => exact fun tokens => ⟨value tokens, trivial⟩
  | argument _ _ _ value more =>
    exact fun tokens => ⟨value fun t member => tokens t (by simp [member]),
      more fun t member => tokens t (by simp [member])⟩
  | operandTerm _ inner | termSum _ inner | sumExpression _ inner => exact inner
  | product _ operator _ _ left right | sum _ operator _ _ left right
  | comparison _ operator _ _ left right =>
    exact fun tokens => ⟨mem_all_of_ofKind? operator,
      left fun t member => tokens t (by simp [member]),
      right fun t member => tokens t (by simp [member])⟩

theorem legible_of_spellsElements {es : List Expr} {ts after : List Token}
    (spelt : SpellsElements es ts after) : (∀ t ∈ ts, t.Spelt) → exprsLegible es := by
  induction spelt with
  | last value => exact fun tokens => ⟨legible_of_spells value tokens, trivial⟩
  | more value _ _ rest =>
    exact fun tokens => ⟨legible_of_spells value fun t member => tokens t (by simp [member]),
      rest fun t member => tokens t (by simp [member])⟩

theorem legible_of_spellsInitial {isList : Bool} {value : Option Expr} {ts after : List Token}
    (spelt : SpellsInitial isList value ts after) (tokens : ∀ t ∈ ts, t.Spelt) :
    optionLegible value := by
  cases spelt with
  | absent => trivial
  | present _ value =>
    have later := fun t member => tokens t (List.mem_cons_of_mem _ member)
    cases value with
    | single value => exact legible_of_spells value later
    | reference value _ => exact legible_of_spells value later
    | list values _ => exact legible_of_spellsElements values later

/-- **A clause is legible when its tokens are spelt as their kinds ask.** -/
theorem legible_of_forms {clause : Clause} {place : Place} {ts after : List Token}
    (formed : Forms clause place ts after) : (∀ t ∈ ts, t.Spelt) → clause.Legible := by
  induction formed with
  | declare _ _ _ initial _ =>
    exact fun tokens => legible_of_spellsInitial initial fun t member => tokens t (by simp [member])
  | print _ value _ | returnValue _ _ value _ | assign _ _ value _ =>
    exact fun tokens => legible_of_spells value fun t member => tokens t (by simp [member])
  | conditional _ condition _ _ _ _ _ yes no =>
    exact fun tokens => ⟨legible_of_spells condition fun t member => tokens t (by simp [member]),
      yes fun t member => tokens t (by simp [member]),
      no fun t member => tokens t (by simp [member])⟩
  | loop _ _ _ inner | function _ _ _ _ _ _ _ inner =>
    exact fun tokens => inner fun t member => tokens t (by simp [member])
  | returnNothing | breaks | none => exact fun _ => trivial
  | perform _ call _ =>
    exact fun tokens => legible_of_spells call fun t member =>
      tokens t (List.mem_append_left _ member)
  | more _ _ first rest =>
    exact fun tokens => ⟨first fun t member => tokens t (List.mem_append_left _ member),
      rest fun t member => tokens t (List.mem_append_right _ member)⟩

end Grammar

end Guwen
