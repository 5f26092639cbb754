/-
**Round trip: a program printed and read again is the same program.**

The words of a phrase are spelt like the phrase itself, wherever they stand, as long as what follows
them lets no call go on (`Milder`). A printed statement is closed, so what follows it does not
matter.

* `Milder` — what follows stops every call that was stopped before.
* `Spells.first_word` — the first word is the first token, but for its place.
* `Spells.again`, `Forms.again` — tokens that are the words of a tree, but for their places, spell
  that tree, but for its places.
* **`ofSource_print`** — a program that was read is read again from its print.
-/
import Guwen.Proofs.Compilation.Safety
import Guwen.Proofs.Grammar.Printing

namespace Guwen

namespace Token

theorem parts_of_unplaced {t : Token} {kind : TokenKind} {text : Text}
    (is : t.unplaced = ⟨kind, text, .nowhere⟩) : t.kind = kind ∧ t.lexeme = text := by
  cases is
  exact ⟨rfl, rfl⟩

theorem unplacedStart_congr {t u : Token} (same : u.unplaced = t.unplaced) :
    u.unplacedStart = t.unplacedStart := by
  have starts : u.unplaced.unplacedStart = t.unplaced.unplacedStart := congrArg unplacedStart same
  exact starts

theorem unplacedStart_of_number {t : Token} (number : t.kind = .number) :
    t.unplacedStart = ⟨.number, [], .nowhere⟩ := if_pos number

theorem unplaced_of_unplacedStart {t u : Token} (other : t.kind ≠ .number)
    (same : u.unplacedStart = t.unplacedStart) : u.unplaced = t.unplaced := by
  have kind (v : Token) : v.unplacedStart.kind = v.kind := by
    unfold unplacedStart
    split
    · next number => exact number.symm
    · rfl
  have otherStart : u.kind ≠ .number := by rwa [← kind u, same, kind t]
  rwa [unplacedStart, unplacedStart, if_neg other, if_neg otherStart] at same

end Token

namespace Grammar

/-! ### What follows -/

/-- **What stops a call before `after` stops it before `other`.** -/
structure Milder (after other : List Token) : Prop where
  opens : NotNext opensArguments after → NotNext opensArguments other
  goesOn : NotNext extendsArguments after → NotNext extendsArguments other

theorem Milder.of_kind {t u : Token} (same : u.kind = t.kind) (ts us : List Token) :
    Milder (t :: ts) (u :: us) := by
  constructor <;> rw [notNext_cons, notNext_cons, same] <;> exact id

/-- A token that no call goes on with stops them all. -/
theorem Milder.of_stop {u : Token} (stops : extendsArguments u.kind = false)
    (after us : List Token) : Milder after (u :: us) := by
  refine ⟨fun _ => notNext_cons.mpr ?_, fun _ => notNext_cons.mpr stops⟩
  cases is : u.kind
  case toward | taking =>
    rw [is] at stops
    cases stops
  all_goals rfl

/-- In the place of a separator, 、 opens no arguments. -/
theorem Milder.of_comma {t u : Token} (separates : separatesArguments t.kind = true)
    (comma : u.kind = .comma) (ts us : List Token) : Milder (t :: ts) (u :: us) := by
  refine ⟨fun _ => notNext_cons.mpr (by rw [comma]; rfl), fun stops => ?_⟩
  rw [notNext_cons, extendsArguments, separates] at stops
  cases stops

/-! ### The first word -/

/-- **The first word of a phrase is its first token,** but for the place. -/
theorem Spells.first_word {phrase : Phrase} {ts after : List Token}
    (spelt : Spells phrase ts after) : (∀ t ∈ ts, t.Proper) →
      ∃ w ∈ phrase.words.head?, ∃ t ∈ ts.head?, w.unplacedStart = t.unplacedStart := by
  have apply {k : Token} (proper : k.Proper) (is : k.kind = .apply) :
      (Token.keyword .apply).unplacedStart = k.unplacedStart :=
    Token.unplacedStart_congr (Token.unplaced_eq_keyword proper is (by decide)).symm
  induction spelt with
  | @arabic t _ number | @glyphs t _ _ _ number =>
    exact fun _ => ⟨_, rfl, t, rfl, (Token.unplacedStart_of_number number).symm⟩
  | @string t _ string =>
    refine fun _ => ⟨_, rfl, t, rfl, Token.unplacedStart_congr ?_⟩
    rw [← string]
    rfl
  | @name t => exact fun _ => ⟨_, rfl, t, rfl, rfl⟩
  | @bareCall k _ _ is =>
    exact fun proper => ⟨_, rfl, k, rfl, apply (proper k List.mem_cons_self) is⟩
  | @call k _ _ _ _ _ is _ _ values =>
    intro proper
    rw [Phrase.words, call_words _ _ (arguments_ne_nil values)]
    exact ⟨_, rfl, k, rfl, apply (proper k List.mem_cons_self) is⟩
  | lastArgument _ _ ih =>
    rw [Phrase.words, exprWords_single]
    exact ih
  | argument _ _ more ih =>
    intro proper
    obtain ⟨w, word, t, token, same⟩ := ih (List.forall_mem_append.mp proper).1
    rw [Phrase.words, exprWords_cons _ (arguments_ne_nil more)]
    exact ⟨w, List.mem_head?_append_of_mem_head? word, t,
      List.mem_head?_append_of_mem_head? token, same⟩
  | operandTerm _ ih | termSum _ ih | sumExpression _ ih => exact ih
  | product _ _ _ _ ih | sum _ _ _ _ ih | comparison _ _ _ _ ih =>
    intro proper
    obtain ⟨w, word, t, token, same⟩ := ih (List.forall_mem_append.mp proper).1
    rw [Phrase.words, Expr.words]
    exact ⟨w, List.mem_head?_append_of_mem_head? word, t,
      List.mem_head?_append_of_mem_head? token, same⟩

theorem SpellsElements.first_word {es : List Expr} {ts after : List Token}
    (spelt : SpellsElements es ts after) (proper : ∀ t ∈ ts, t.Proper) :
    ∃ w ∈ (exprWords es).head?, ∃ t ∈ ts.head?, w.unplacedStart = t.unplacedStart := by
  cases spelt with
  | last value =>
    rw [exprWords_single]
    exact value.first_word proper
  | more value _ rest =>
    obtain ⟨w, word, t, token, same⟩ := value.first_word (List.forall_mem_append.mp proper).1
    rw [exprWords_cons _ (elements_ne_nil rest)]
    exact ⟨w, List.mem_head?_append_of_mem_head? word, t,
      List.mem_head?_append_of_mem_head? token, same⟩

/-! ### Expressions -/

/-- **The tokens spell the phrase again,** but for the places of its tokens. -/
def SpellsAgain : Phrase → List Token → List Token → Prop
  | .operand e, us, other => ∃ e', Spells (.operand e') us other ∧ e'.normal = e.normal
  | .term e, us, other => ∃ e', Spells (.term e') us other ∧ e'.normal = e.normal
  | .sum e, us, other => ∃ e', Spells (.sum e') us other ∧ e'.normal = e.normal
  | .expression e, us, other => ∃ e', Spells (.expression e') us other ∧ e'.normal = e.normal
  | .arguments es, us, other =>
    ∃ es', Spells (.arguments es') us other ∧ es'.map Expr.normal = es.map Expr.normal

theorem isArabic_ofNat {t : Token} {n : Nat} (lexeme : t.lexeme = Text.ofNat n) :
    isArabic t = true := by
  obtain ⟨c, cs, same, digits⟩ := exists_digits_ofNat n
  rw [isArabic, lexeme, same, Text.chars_ofChars]
  exact digits c List.mem_cons_self

/-- A token that reads as a number in digits is one. -/
theorem spellsAgain_number {t u : Token} {text : Text} (number : t.kind = .number)
    (is : u.unplaced = ⟨.number, text, .nowhere⟩) (arabic : isArabic u = true)
    (other : List Token) : SpellsAgain (.operand (.literal t .number text)) [u] other := by
  obtain ⟨kind, rfl⟩ := Token.parts_of_unplaced is
  refine ⟨_, .arabic kind arabic, ?_⟩
  rw [normal_literal, normal_literal, Token.unplacedStart_of_number kind,
    Token.unplacedStart_of_number number]

/-- A keyword's word stands for its token. -/
theorem keyword_again {t u : Token} {kind : TokenKind} (proper : t.Proper) (is : t.kind = kind)
    (known : kind ∈ Lexicon.kinds) (word : u.unplaced = Token.keyword kind) :
    u.kind = kind ∧ u.unplaced = t.unplaced :=
  ⟨(Token.parts_of_unplaced word).1, word.trans (Token.unplaced_eq_keyword proper is known).symm⟩

/-- The words behind a keyword. -/
theorem headed_words {us ws : List Token} {k : Token} {kind : TokenKind}
    (words : us.map Token.unplaced = Token.keyword kind :: ws) (proper : k.Proper)
    (is : k.kind = kind) (known : kind ∈ Lexicon.kinds) :
    ∃ k' vs, us = k' :: vs ∧ vs.map Token.unplaced = ws ∧ k'.kind = kind ∧
      k'.unplaced = k.unplaced := by
  obtain ⟨k', vs, rfl, word, words⟩ := List.map_eq_cons_iff.mp words
  exact ⟨k', vs, rfl, words, keyword_again proper is known word⟩

/-- The words before a closing keyword. -/
theorem closed_words {us ws : List Token} {kind : TokenKind}
    (words : us.map Token.unplaced = ws ++ [Token.keyword kind]) :
    ∃ vs closing, us = vs ++ [closing] ∧ vs.map Token.unplaced = ws ∧ closing.kind = kind := by
  obtain ⟨vs, rest, rfl, before, last⟩ := List.map_eq_append_iff.mp words
  obtain ⟨closing, rfl, is⟩ := List.map_eq_singleton_iff.mp last
  exact ⟨vs, closing, rfl, before, (Token.parts_of_unplaced is).1⟩

theorem first_of_words {us ws : List Token} {w : Token} (words : us.map Token.unplaced = ws)
    (first : w ∈ ws.head?) : ∃ u vs, us = u :: vs ∧ u.unplacedStart = w.unplacedStart := by
  subst words
  cases us with
  | nil => cases first
  | cons u vs =>
    cases first
    exact ⟨u, vs, rfl, rfl⟩

/-- The words on both sides of an operator. -/
theorem binary_words {t : Token} {op : Operator} {left right : Expr} {ts : List Token}
    (words : ts.map Token.unplaced = (Expr.binary t op left right).words) (proper : t.Proper)
    (is : Operator.ofKind? t.kind = some op) :
    ∃ us u vs, ts = us ++ u :: vs ∧ us.map Token.unplaced = left.words ∧
      vs.map Token.unplaced = right.words ∧ u.kind = t.kind ∧ u.unplaced = t.unplaced := by
  rw [Expr.words] at words
  obtain ⟨us, vs, rfl, before, words⟩ := List.map_eq_append_iff.mp words
  obtain ⟨u, vs, rfl, word, behind⟩ := List.map_eq_cons_iff.mp words
  obtain ⟨keyword, known⟩ := keyword_of_ofKind? is
  rw [keyword] at word
  exact ⟨us, u, vs, rfl, before, behind, keyword_again proper rfl known word⟩

/-- **The words of a phrase spell it again.** -/
theorem Spells.again {phrase : Phrase} {ts after : List Token} (spelt : Spells phrase ts after)
    {us other : List Token} : (∀ t ∈ ts, t.Proper) → us.map Token.unplaced = phrase.words →
      Milder after other → SpellsAgain phrase us other := by
  induction spelt generalizing us other with
  | @arabic t _ number arabic =>
    intro _ words _
    obtain ⟨u, rfl, is⟩ := List.map_eq_singleton_iff.mp words
    obtain ⟨-, lexeme⟩ := Token.parts_of_unplaced is
    exact spellsAgain_number number is (by rwa [isArabic, lexeme]) other
  | glyphs number =>
    intro _ words _
    obtain ⟨u, rfl, is⟩ := List.map_eq_singleton_iff.mp words
    exact spellsAgain_number number is (isArabic_ofNat (Token.parts_of_unplaced is).2) other
  | @string t _ string =>
    intro _ words _
    obtain ⟨u, rfl, is⟩ := List.map_eq_singleton_iff.mp words
    obtain ⟨kind, lexeme⟩ := Token.parts_of_unplaced is
    refine ⟨_, .string kind, ?_⟩
    rw [← string] at is
    rw [normal_literal, normal_literal, lexeme, Token.unplacedStart_congr is]
  | @name t _ name =>
    intro _ words _
    obtain ⟨u, rfl, is⟩ := List.map_eq_singleton_iff.mp words
    obtain ⟨kind, -⟩ := Token.parts_of_unplaced is
    refine ⟨_, .name (kind.trans name), ?_⟩
    rw [Expr.normal, Expr.normal, Expr.mapTokens, Expr.mapTokens, is]
  | @bareCall k callee _ keyword called bare =>
    intro proper words milder
    obtain ⟨k', us, rfl, words, kind, start⟩ :=
      headed_words words (proper k List.mem_cons_self) keyword (by decide)
    obtain ⟨callee', rfl, is⟩ := List.map_eq_singleton_iff.mp words
    obtain ⟨calleeKind, -⟩ := Token.parts_of_unplaced is
    refine ⟨_, .bareCall kind (calleeKind ▸ called) (milder.opens bare), ?_⟩
    rw [normal_call, normal_call, start, is]
  | @call k callee mark es _ _ keyword called opens values ih =>
    intro proper words milder
    simp only [List.forall_mem_cons] at proper
    rw [Phrase.words, call_words _ _ (arguments_ne_nil values)] at words
    obtain ⟨k', us, rfl, words, kind, start⟩ := headed_words words proper.1 keyword (by decide)
    obtain ⟨callee', us, rfl, is, words⟩ := List.map_eq_cons_iff.mp words
    obtain ⟨mark', us, rfl, taking, words⟩ := List.map_eq_cons_iff.mp words
    obtain ⟨calleeKind, -⟩ := Token.parts_of_unplaced is
    obtain ⟨markKind, -⟩ := Token.parts_of_unplaced taking
    obtain ⟨es', spelt, equal⟩ := ih proper.2.2.2 words milder
    refine ⟨_, .call kind (calleeKind ▸ called) (by rw [markKind]; rfl) spelt, ?_⟩
    rw [normal_call, normal_call, start, is, equal]
  | lastArgument _ last ih =>
    intro proper words milder
    rw [Phrase.words, exprWords_single] at words
    obtain ⟨e', spelt, equal⟩ := ih proper words milder
    exact ⟨[e'], .lastArgument spelt (milder.goesOn last), congrArg ([·]) equal⟩
  | argument _ separates more ihValue ihMore =>
    intro proper words milder
    rw [Phrase.words, exprWords_cons _ (arguments_ne_nil more)] at words
    obtain ⟨us, vs, rfl, first, words⟩ := List.map_eq_append_iff.mp words
    obtain ⟨comma, vs, rfl, is, rest⟩ := List.map_eq_cons_iff.mp words
    obtain ⟨kind, -⟩ := Token.parts_of_unplaced is
    rw [List.forall_mem_append, List.forall_mem_cons] at proper
    obtain ⟨e', spelt, equal⟩ := ihValue proper.1 first (.of_comma separates kind _ (vs ++ other))
    obtain ⟨es', speltMore, equalMore⟩ := ihMore proper.2.2 rest milder
    refine ⟨e' :: es', .argument spelt (by rw [kind]; rfl) speltMore, ?_⟩
    rw [List.map_cons, List.map_cons, equal, equalMore]
  | operandTerm _ ih =>
    intro proper words milder
    obtain ⟨e', spelt, equal⟩ := ih proper words milder
    exact ⟨e', .operandTerm spelt, equal⟩
  | termSum _ ih =>
    intro proper words milder
    obtain ⟨e', spelt, equal⟩ := ih proper words milder
    exact ⟨e', .termSum spelt, equal⟩
  | sumExpression _ ih =>
    intro proper words milder
    obtain ⟨e', spelt, equal⟩ := ih proper words milder
    exact ⟨e', .sumExpression spelt, equal⟩
  | product _ is level _ ihLeft ihRight =>
    intro proper words milder
    rw [List.forall_mem_append, List.forall_mem_cons] at proper
    obtain ⟨us, u, vs, rfl, before, behind, kind, start⟩ := binary_words words proper.2.1 is
    obtain ⟨left', spelt, equal⟩ := ihLeft proper.1 before (.of_kind kind _ (vs ++ other))
    obtain ⟨right', speltRight, equalRight⟩ := ihRight proper.2.2 behind milder
    refine ⟨_, .product spelt (kind ▸ is) level speltRight, ?_⟩
    rw [normal_binary, normal_binary, start, equal, equalRight]
  | sum _ is level _ ihLeft ihRight =>
    intro proper words milder
    rw [List.forall_mem_append, List.forall_mem_cons] at proper
    obtain ⟨us, u, vs, rfl, before, behind, kind, start⟩ := binary_words words proper.2.1 is
    obtain ⟨left', spelt, equal⟩ := ihLeft proper.1 before (.of_kind kind _ (vs ++ other))
    obtain ⟨right', speltRight, equalRight⟩ := ihRight proper.2.2 behind milder
    refine ⟨_, .sum spelt (kind ▸ is) level speltRight, ?_⟩
    rw [normal_binary, normal_binary, start, equal, equalRight]
  | comparison _ is level _ ihLeft ihRight =>
    intro proper words milder
    rw [List.forall_mem_append, List.forall_mem_cons] at proper
    obtain ⟨us, u, vs, rfl, before, behind, kind, start⟩ := binary_words words proper.2.1 is
    obtain ⟨left', spelt, equal⟩ := ihLeft proper.1 before (.of_kind kind _ (vs ++ other))
    obtain ⟨right', speltRight, equalRight⟩ := ihRight proper.2.2 behind milder
    refine ⟨_, .comparison spelt (kind ▸ is) level speltRight, ?_⟩
    rw [normal_binary, normal_binary, start, equal, equalRight]

/-! ### Names, values and parameters -/

theorem SpellsElements.again {es : List Expr} {ts after : List Token}
    (spelt : SpellsElements es ts after) {us other : List Token} : (∀ t ∈ ts, t.Proper) →
      us.map Token.unplaced = exprWords es → Milder after other →
      ∃ es', SpellsElements es' us other ∧ es'.map Expr.normal = es.map Expr.normal := by
  induction spelt generalizing us with
  | last value =>
    intro proper words milder
    rw [exprWords_single] at words
    obtain ⟨e', spelt, equal⟩ := value.again proper words milder
    exact ⟨[e'], .last spelt, congrArg ([·]) equal⟩
  | more value comma rest ih =>
    intro proper words milder
    rw [exprWords_cons _ (elements_ne_nil rest)] at words
    obtain ⟨us, vs, rfl, first, words⟩ := List.map_eq_append_iff.mp words
    obtain ⟨comma', vs, rfl, is, more⟩ := List.map_eq_cons_iff.mp words
    obtain ⟨kind, -⟩ := Token.parts_of_unplaced is
    rw [List.forall_mem_append, List.forall_mem_cons] at proper
    obtain ⟨e', spelt, equal⟩ :=
      value.again proper.1 first (.of_kind (kind.trans comma.symm) _ (vs ++ other))
    obtain ⟨es', speltMore, equalMore⟩ := ih proper.2.2 more milder
    refine ⟨e' :: es', .more spelt kind speltMore, ?_⟩
    rw [List.map_cons, List.map_cons, equal, equalMore]

theorem isReference_of_normal {e e' : Expr} (same : e'.normal = e.normal) :
    isReference e' = isReference e := by
  rw [← isReference_mapTokens Token.unplaced Token.unplacedStart e', ← Expr.normal, same,
    Expr.normal, isReference_mapTokens]

theorem SpellsValue.again {isList : Bool} {e : Expr} {ts after : List Token}
    (spelt : SpellsValue isList e ts after) {us other : List Token} (proper : ∀ t ∈ ts, t.Proper)
    (words : us.map Token.unplaced = e.words) (milder : Milder after other) :
    ∃ e', SpellsValue isList e' us other ∧ e'.normal = e.normal := by
  cases spelt with
  | single value =>
    obtain ⟨e', spelt, equal⟩ := value.again proper words milder
    exact ⟨e', .single spelt, equal⟩
  | reference value reference =>
    obtain ⟨e', spelt, equal⟩ := value.again proper words milder
    exact ⟨e', .reference spelt ((isReference_of_normal equal).trans reference), equal⟩
  | @list es start ts _ values several =>
    obtain ⟨es', spelt, equal⟩ := values.again proper words milder
    obtain ⟨w, word, t, token, same⟩ := values.first_word proper
    obtain rfl : start = t := Option.some.inj token
    obtain ⟨start', us, rfl, start_same⟩ := first_of_words words word
    refine ⟨.list start' es', .list spelt ?_, ?_⟩
    · rintro e' rfl
      obtain ⟨e, rfl, same⟩ := List.map_eq_singleton_iff.mp equal.symm
      rw [isReference_of_normal same.symm]
      exact several e rfl
    · rw [normal_list, normal_list, start_same, same, equal]

theorem SpellsInitial.again {isList : Bool} {value : Option Expr} {ts after : List Token}
    (spelt : SpellsInitial isList value ts after) {us other : List Token}
    (proper : ∀ t ∈ ts, t.Proper) (words : us.map Token.unplaced = initialWords value)
    (milder : Milder after other) :
    ∃ value', SpellsInitial isList value' us other ∧
      value'.map Expr.normal = value.map Expr.normal := by
  cases spelt with
  | absent =>
    obtain rfl := List.map_eq_nil_iff.mp words
    exact ⟨none, .absent, rfl⟩
  | present keyword value =>
    rw [List.forall_mem_cons] at proper
    obtain ⟨k', us, rfl, words, kind, -⟩ := headed_words words proper.1 keyword (by decide)
    obtain ⟨e', spelt, equal⟩ := value.again proper.2 words milder
    exact ⟨some e', .present kind spelt, congrArg some equal⟩

theorem SpellsName.again {name : Token} {ts us : List Token} (spelt : SpellsName name ts)
    (words : us.map Token.unplaced = nameWords name) :
    ∃ name', SpellsName name' us ∧ name'.unplaced = name.unplaced := by
  obtain ⟨-, -, -, -, string, shown, -⟩ := spelt
  obtain ⟨mark, us, rfl, named, words⟩ := List.map_eq_cons_iff.mp words
  obtain ⟨name', rfl, is⟩ := List.map_eq_singleton_iff.mp words
  obtain ⟨kind, lexeme⟩ := Token.parts_of_unplaced is
  exact ⟨name', ⟨[], mark, .inl rfl, (Token.parts_of_unplaced named).1, kind.trans string,
    lexeme ▸ shown, rfl⟩, is⟩

/-- The words of a parameter make one, and no 、 is needed behind it. -/
theorem param_again {type name : Token} {ts us : List Token} (isType : type.kind.isType = true)
    (named : SpellsName name ts)
    (words : us.map Token.unplaced = type.unplaced :: nameWords name) :
    ∃ type' name' vs, us = type' :: vs ∧ type'.kind.isType = true ∧ SpellsName name' vs ∧
      Param.mapTokens Token.unplaced ⟨type', name'⟩ =
        Param.mapTokens Token.unplaced ⟨type, name⟩ := by
  obtain ⟨type', vs, rfl, is, words⟩ := List.map_eq_cons_iff.mp words
  obtain ⟨name', spelt, same⟩ := named.again words
  obtain ⟨kind, -⟩ := Token.parts_of_unplaced is
  refine ⟨type', name', vs, rfl, by rwa [kind], spelt, ?_⟩
  rw [Param.mapTokens, Param.mapTokens, is, same]

theorem SpellsParams.again {ps : List Param} {ts us : List Token} (spelt : SpellsParams ps ts) :
    us.map Token.unplaced = ps.flatMap Param.words →
      ∃ ps', SpellsParams ps' us ∧ ps'.map (Param.mapTokens Token.unplaced) =
        ps.map (Param.mapTokens Token.unplaced) := by
  induction spelt generalizing us with
  | last isType named _ =>
    intro words
    rw [List.flatMap_singleton] at words
    obtain ⟨type', name', vs, rfl, isType', named', same⟩ := param_again isType named words
    have alone := SpellsParams.last isType' named' (.inl rfl)
    rw [List.append_nil] at alone
    exact ⟨_, alone, congrArg ([·]) same⟩
  | more isType named _ _ ih =>
    intro words
    rw [List.flatMap_cons] at words
    obtain ⟨us, vs, rfl, first, more⟩ := List.map_eq_append_iff.mp words
    obtain ⟨type', name', us, rfl, isType', named', same⟩ := param_again isType named first
    obtain ⟨ps', spelt, equal⟩ := ih more
    have several := SpellsParams.more isType' named' (.inl rfl) spelt
    rw [List.append_nil] at several
    refine ⟨_, several, ?_⟩
    rw [List.map_cons, List.map_cons, same, equal]

theorem SpellsSignature.again {ps : List Param} {ts us : List Token}
    (spelt : SpellsSignature ps ts) (proper : ∀ t ∈ ts, t.Proper)
    (words : us.map Token.unplaced = signatureWords ps) :
    ∃ ps', SpellsSignature ps' us ∧ ps'.map (Param.mapTokens Token.unplaced) =
      ps.map (Param.mapTokens Token.unplaced) := by
  cases spelt with
  | absent =>
    obtain rfl := List.map_eq_nil_iff.mp words
    exact ⟨[], .absent, rfl⟩
  | present keyword params =>
    have some : ps.isEmpty = false := by cases params <;> rfl
    rw [signatureWords, some] at words
    obtain ⟨k', us, rfl, words, kind, -⟩ :=
      headed_words words (proper _ List.mem_cons_self) keyword (by decide)
    obtain ⟨ps', spelt, same⟩ := params.again words
    exact ⟨ps', .present kind spelt, same⟩

/-! ### Statements -/

/-- **The tokens form the clause again,** but for the places of its tokens. -/
def FormsAgain : Clause → Place → List Token → List Token → Prop
  | .statement s, place, us, other =>
    ∃ s', Forms (.statement s') place us other ∧ s'.normal = s.normal
  | .statements ss, place, us, other =>
    ∃ ss', Forms (.statements ss') place us other ∧ Program.normal ss' = Program.normal ss

/-- The words of a value and 也 behind it. -/
theorem Spells.closed_again {e : Expr} {ts after us : List Token}
    (value : Spells (.expression e) ts after) (proper : ∀ t ∈ ts, t.Proper)
    (words : us.map Token.unplaced = e.words ++ [Token.keyword .close]) (other : List Token) :
    ∃ e' vs closing, us = vs ++ closing ∧ Optional .close closing ∧
      Spells (.expression e') vs (closing ++ other) ∧ e'.normal = e.normal := by
  obtain ⟨vs, closing, rfl, words, closes⟩ := closed_words words
  obtain ⟨e', spelt, same⟩ := value.again proper words (.of_stop (by rw [closes]; rfl) _ other)
  exact ⟨e', vs, [closing], rfl, .inr ⟨closing, closes, rfl⟩, spelt, same⟩

/-- 若非 stands before statements only, so there may be none to read again. -/
theorem else_again {place : Place} {no : List Stmt} {us behind : List Token}
    (words : us.map Token.unplaced =
      if no.isEmpty then [] else Token.keyword .otherwise :: stmtWords no)
    (again : ∀ {vs}, vs.map Token.unplaced = stmtWords no →
      FormsAgain (.statements no) place vs behind) :
    ∃ marks vs no', us = marks ++ vs ∧ elseMark marks no' ∧
      Forms (.statements no') place vs behind ∧ Program.normal no' = Program.normal no := by
  cases no with
  | nil =>
    obtain rfl := List.map_eq_nil_iff.mp words
    exact ⟨[], [], [], rfl, .inl ⟨rfl, rfl⟩, .none, rfl⟩
  | cons s ss =>
    obtain ⟨mark, vs, rfl, is, words⟩ := List.map_eq_cons_iff.mp words
    obtain ⟨no', second, same⟩ := again words
    exact ⟨[mark], vs, no', rfl, .inr ⟨mark, (Token.parts_of_unplaced is).1, rfl⟩, second, same⟩

/-- **The words of a clause form it again,** whatever follows. -/
theorem Forms.again {clause : Clause} {place : Place} {ts after : List Token}
    (formed : Forms clause place ts after) {us other : List Token} : (∀ t ∈ ts, t.Proper) →
      us.map Token.unplaced = clause.words → FormsAgain clause place us other := by
  -- no call goes on with 也 or 者, so what stands behind them does not matter
  have stop {t : Token} {kind : TokenKind} (is : t.kind = kind)
      (stops : extendsArguments kind = false) (after others : List Token) :
      Milder after (t :: others) := .of_stop (is ▸ stops) after others
  induction formed generalizing us other with
  | declare keyword isType named initial _ =>
    intro proper words
    simp only [List.forall_mem_cons, List.forall_mem_append] at proper
    obtain ⟨k', us, rfl, words, kind, start⟩ := headed_words words proper.1 keyword (by decide)
    obtain ⟨type', us, rfl, type_same, words⟩ := List.map_eq_cons_iff.mp words
    obtain ⟨ns, us, rfl, name_words, words⟩ := List.map_eq_append_iff.mp words
    obtain ⟨us, closing, rfl, words, closes⟩ := closed_words words
    obtain ⟨type_kind, -⟩ := Token.parts_of_unplaced type_same
    obtain ⟨name', named', name_same⟩ := named.again name_words
    obtain ⟨value', initial', value_same⟩ :=
      initial.again proper.2.2.2.1 words (stop closes rfl _ other)
    refine ⟨.declare k' type' name' value', .declare kind (by rwa [type_kind]) named'
      (by rwa [type_kind]) closes, ?_⟩
    show Stmt.declare _ _ _ (value'.map Expr.normal) = _
    rw [start, type_same, name_same, value_same]
    rfl
  | print keyword value _ =>
    intro proper words
    simp only [List.forall_mem_cons, List.forall_mem_append] at proper
    obtain ⟨k', us, rfl, words, kind, start⟩ := headed_words words proper.1 keyword (by decide)
    obtain ⟨e', us, closing, rfl, closes, value', same⟩ :=
      value.closed_again proper.2.1 words other
    exact ⟨.print k' e', .print kind value' closes, congrArg₂ Stmt.print start same⟩
  | conditional keyword condition is _ _ _ _ ihFirst ihSecond =>
    intro proper words
    simp only [List.forall_mem_cons, List.forall_mem_append] at proper
    obtain ⟨k', us, rfl, words, kind, start⟩ := headed_words words proper.1 keyword (by decide)
    obtain ⟨us, vs, rfl, condition_words, words⟩ := List.map_eq_append_iff.mp words
    obtain ⟨mark', vs, rfl, words, mark_kind, -⟩ :=
      headed_words words proper.2.2.1 is (by decide)
    obtain ⟨vs, ws, rfl, yes_words, words⟩ := List.map_eq_append_iff.mp words
    obtain ⟨ws, closing, rfl, words, closes⟩ := closed_words words
    obtain ⟨marks, ws, no', rfl, otherwise', second', no_same⟩ := else_again words
      fun words => ihSecond proper.2.2.2.2.2.1 words
    obtain ⟨yes', first', yes_same⟩ :=
      @ihFirst vs (marks ++ (ws ++ closing :: other)) proper.2.2.2.1 yes_words
    obtain ⟨e', condition', same⟩ := condition.again proper.2.1 condition_words
      (stop mark_kind rfl _ (vs ++ (marks ++ (ws ++ closing :: other))))
    rw [List.append_assoc marks]
    refine ⟨.conditional k' e' yes' no', .conditional kind condition' mark_kind first' otherwise'
      second' closes, ?_⟩
    show Stmt.conditional _ e'.normal (Program.normal yes') (Program.normal no') = _
    rw [start, same, yes_same, no_same]
    rfl
  | loop keyword _ _ ih =>
    intro proper words
    simp only [List.forall_mem_cons, List.forall_mem_append] at proper
    obtain ⟨k', us, rfl, words, kind, start⟩ := headed_words words proper.1 keyword (by decide)
    obtain ⟨us, closing, rfl, words, closes⟩ := closed_words words
    obtain ⟨body', inner', same⟩ := ih proper.2.1 words
    exact ⟨.loop k' body', .loop kind inner' closes, congrArg₂ Stmt.loop start same⟩
  | function keyword named _ params _ _ _ ih =>
    intro proper words
    simp only [List.forall_mem_cons, List.forall_mem_append] at proper
    obtain ⟨k', us, rfl, words, kind, start⟩ := headed_words words proper.1 keyword (by decide)
    obtain ⟨ns, us, rfl, name_words, words⟩ := List.map_eq_append_iff.mp words
    obtain ⟨sig, us, rfl, signature_words, words⟩ := List.map_eq_append_iff.mp words
    obtain ⟨us, closing, rfl, words, closes⟩ := closed_words words
    obtain ⟨name', named', name_same⟩ := named.again name_words
    obtain ⟨ps', params', params_same⟩ := params.again proper.2.2.2.1 signature_words
    obtain ⟨body', inner', same⟩ := ih proper.2.2.2.2.2.1 words
    refine ⟨.function k' name' ps' body', .function kind named' (.inl rfl) params' (.inl rfl)
      inner' (.plain closes), ?_⟩
    show Stmt.function _ _ (ps'.map (Param.mapTokens Token.unplaced)) (Program.normal body') = _
    rw [start, name_same, params_same, same]
    rfl
  | returnValue keyword inside value _ =>
    intro proper words
    simp only [List.forall_mem_cons, List.forall_mem_append] at proper
    obtain ⟨k', us, rfl, words, kind, start⟩ := headed_words words proper.1 keyword (by decide)
    obtain ⟨e', us, closing, rfl, closes, value', same⟩ :=
      value.closed_again proper.2.1 words other
    exact ⟨.returns k' (some e'), .returnValue kind inside value' closes,
      congrArg₂ Stmt.returns start (congrArg some same)⟩
  | @returnNothing _ k _ _ keyword inside _ _ =>
    intro proper words
    obtain ⟨k', us, rfl, words, kind, start⟩ :=
      headed_words words (proper k List.mem_cons_self) keyword (by decide)
    obtain ⟨closing, rfl, is⟩ := List.map_eq_singleton_iff.mp words
    obtain ⟨closes, -⟩ := Token.parts_of_unplaced is
    have nothing : NotNext startsExpression (closing :: other) :=
      notNext_cons.mpr (by rw [closes]; rfl)
    exact ⟨.returns k' .none, .returnNothing kind inside nothing (.inr ⟨closing, closes, rfl⟩),
      congrArg (Stmt.returns · .none) start⟩
  | @breaks _ k _ _ keyword inside _ =>
    intro proper words
    obtain ⟨k', us, rfl, words, kind, start⟩ :=
      headed_words words (proper k List.mem_cons_self) keyword (by decide)
    obtain ⟨closing, rfl, is⟩ := List.map_eq_singleton_iff.mp words
    obtain ⟨closes, -⟩ := Token.parts_of_unplaced is
    exact ⟨.breaks k', .breaks kind inside (.inr ⟨closing, closes, rfl⟩),
      congrArg Stmt.breaks start⟩
  | @perform _ k _ _ _ _ keyword call _ =>
    intro proper words
    rw [← List.cons_append, List.forall_mem_append] at proper
    obtain ⟨us, closing, rfl, words, closes⟩ := closed_words words
    obtain ⟨e', call', same⟩ := call.again proper.1 words (stop closes rfl _ other)
    obtain ⟨w, word, t, token, first⟩ := call.first_word proper.1
    obtain rfl : k = t := Option.some.inj token
    obtain ⟨k', us, rfl, starts⟩ := first_of_words words word
    have start : k'.unplaced = k.unplaced :=
      Token.unplaced_of_unplacedStart (by rw [keyword]; decide) (starts.trans first)
    obtain ⟨kind, -⟩ := Token.parts_of_unplaced start
    exact ⟨.perform k' e', .perform (kind.trans keyword) call' (.inr ⟨closing, closes, rfl⟩),
      congrArg₂ Stmt.perform start same⟩
  | assign named is value _ =>
    intro proper words
    simp only [List.forall_mem_cons, List.forall_mem_append] at proper
    obtain ⟨name', us, rfl, name_same, words⟩ := List.map_eq_cons_iff.mp words
    obtain ⟨mark', us, rfl, words, mark_kind, -⟩ := headed_words words proper.2.1 is (by decide)
    obtain ⟨e', us, closing, rfl, closes, value', same⟩ :=
      value.closed_again proper.2.2.1 words other
    obtain ⟨kind, -⟩ := Token.parts_of_unplaced name_same
    exact ⟨.assign name' e', .assign (kind.trans named) mark_kind value' closes,
      congrArg₂ Stmt.assign name_same same⟩
  | none =>
    intro _ words
    obtain rfl := List.map_eq_nil_iff.mp words
    exact ⟨[], .none, rfl⟩
  | more _ _ ihFirst ihRest =>
    intro proper words
    rw [List.forall_mem_append] at proper
    obtain ⟨us, vs, rfl, first_words, rest_words⟩ := List.map_eq_append_iff.mp words
    obtain ⟨s', first', same⟩ := ihFirst proper.1 first_words
    obtain ⟨ss', rest', rest_same⟩ := ihRest proper.2 rest_words
    exact ⟨s' :: ss', .more first' rest', congrArg₂ List.cons same rest_same⟩

end Grammar

/-! ### The main result -/

open Grammar

/-- **A program that was read is read again from its print,** but for the places of its tokens and
the tokens that start its numbers. -/
theorem ofSource_print {source : Text} {p : Program} (read : Program.ofSource source = .ok p) :
    ∃ q, Program.ofSource p.print = .ok q ∧ q.normal = p.normal := by
  have derived : Derives (body (Token.tokenize source)) p := ofTokens_eq_ok_iff.mp read
  have proper : ∀ t ∈ body (Token.tokenize source), t.Proper := by
    rw [← dropLast_tokenize]
    exact Token.proper_tokenize source
  have isWord : ∀ w ∈ stmtWords p, w.IsWord := derived.isWord_words proper
  have words : (body (Token.tokenize p.print)).map Token.unplaced = stmtWords p := by
    rw [← dropLast_tokenize, Program.print, Token.tokenize_write fun w member =>
      (isWord w member).proper]
    exact (List.map_congr_left fun w member => (isWord w member).unplaced).trans (List.map_id _)
  obtain ⟨q, again, same⟩ := derived.again proper words
  exact ⟨q, ofTokens_eq_ok_iff.mpr again, same⟩

/-- A numeral in glyphs, a call without arguments before an operator, one with 於, and 若非 with
nothing behind it. -/
theorem ofSource_print_call :
    let source : Text := "若施甲大於二十者施「乙」於丙、3云「丁」若非云云"
    ∃ p q, Program.ofSource source = .ok p ∧
      p.print =
        "若\n施\n甲\n大於\n20\n者\n施\n「乙」\n以\n丙\n、\n3\n也\n云\n「丁」\n也\n云云\n" ∧
      Program.ofSource p.print = .ok q ∧ q.normal = p.normal := by
  intro source
  have scanned : Token.tokenize source =
      [⟨.whether, "若", 1, 1⟩, ⟨.apply, "施", 1, 2⟩, ⟨.identifier, "甲", 1, 3⟩,
       ⟨.greater, "大於", 1, 4⟩, ⟨.number, "二", 1, 6⟩, ⟨.number, "十", 1, 7⟩,
       ⟨.thereupon, "者", 1, 8⟩, ⟨.apply, "施", 1, 9⟩, ⟨.string, "乙", 1, 10⟩,
       ⟨.toward, "於", 1, 13⟩, ⟨.identifier, "丙", 1, 14⟩, ⟨.comma, "、", 1, 15⟩,
       ⟨.number, "3", 1, 16⟩, ⟨.print, "云", 1, 17⟩, ⟨.string, "丁", 1, 18⟩,
       ⟨.otherwise, "若非", 1, 21⟩, ⟨.blockEnd, "云云", 1, 23⟩, ⟨.eof, [], 1, 25⟩] := by
    decide +kernel
  let p : Program :=
    [.conditional ⟨.whether, "若", 1, 1⟩
      (.binary ⟨.greater, "大於", 1, 4⟩ .gt
        (.call ⟨.apply, "施", 1, 2⟩ ⟨.identifier, "甲", 1, 3⟩ [] none)
        (.literal ⟨.number, "二", 1, 6⟩ .number "20"))
      [.perform ⟨.apply, "施", 1, 9⟩
        (.call ⟨.apply, "施", 1, 9⟩ ⟨.string, "乙", 1, 10⟩
          [.use ⟨.identifier, "丙", 1, 14⟩ none, .literal ⟨.number, "3", 1, 16⟩ .number "3"] none),
       .print ⟨.print, "云", 1, 17⟩ (.literal ⟨.string, "丁", 1, 18⟩ .string "丁")]
      []]
  have read : Program.ofSource source = .ok p := by
    rw [Program.ofSource, scanned]
    with_unfolding_all rfl
  obtain ⟨q, again, same⟩ := ofSource_print read
  exact ⟨p, q, read, by decide +kernel, again, same⟩

end Guwen
