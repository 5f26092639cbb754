/-
**Printing: a program written back as a source.**

The words of a tree are tokens without a place. Keywords stand as the lexicon spells them; of the
tree's own tokens only names, callees and types are written, and a number in its decimal text.
Everything optional is left out but 也, which closes every statement that may take it.

* `Expr.words`, `Stmt.words` — the words of a tree.
* **`Program.print`** — the source of a program, one word on a line.
* `Program.normal` — the program without places and without the tokens that start a number.
* `Token.unplaced_eq_keyword` — a proper token of a keyword's kind is that keyword.
* `Token.IsWord` — a proper token without a place.
* `Spells.isWord_words`, **`Forms.isWord_words`** — the words of a tree that was read are words.
-/
import Guwen.Proofs.Grammar.Transport
import Guwen.Proofs.Token.Written

namespace Guwen

/-! ### Words -/

/-- The spelling of a keyword, by its kind. -/
def Lexicon.spelling (kind : TokenKind) : Text :=
  ((entries.find? (·.2 == kind)).map fun entry => (entry.1 : Text)).getD []

namespace Token

/-- **A keyword as a word.** -/
def keyword (kind : TokenKind) : Token := ⟨kind, Lexicon.spelling kind, .nowhere⟩

/-- 、 as a word. -/
def separator : Token := ⟨.comma, "、", .nowhere⟩

end Token

/-- The keyword of an operator; only the seven have one. -/
def Operator.keyword : Operator → TokenKind
  | .add => .plus
  | .sub => .minus
  | .mul => .times
  | .div => .divide
  | .gt => .greater
  | .lt => .less
  | .eq => .equal
  | .other _ => .unknown

mutual

/-- **The words of an expression.** -/
def Expr.words : Expr → List Token
  | .binary _ op left right => left.words ++ Token.keyword op.keyword :: right.words
  | .literal _ kind text => [⟨kind, text, .nowhere⟩]
  | .use name _ => [name.unplaced]
  | .call _ callee arguments _ => Token.keyword .apply :: callee.unplaced ::
      (if arguments.isEmpty then [] else Token.keyword .taking :: exprWords arguments)
  | .list _ elements => exprWords elements
  | .missing => []

/-- The words of expressions with 、 between them. -/
def exprWords : List Expr → List Token
  | [] => []
  | e :: es => e.words ++ (if es.isEmpty then [] else Token.separator :: exprWords es)

end

/-- 其值 and an initial value, if there is one. -/
def initialWords : Option Expr → List Token
  | none => []
  | some e => Token.keyword .value :: e.words

/-- A returned value, if there is one. -/
def optionWords : Option Expr → List Token
  | none => []
  | some e => e.words

/-- 曰 and a declared name. -/
def nameWords (name : Token) : List Token := [.keyword .named, name.unplaced]

/-- A parameter. -/
def Param.words (p : Param) : List Token := p.type.unplaced :: nameWords p.name

/-- 必先得 and the parameters, if there are any. -/
def signatureWords (params : List Param) : List Token :=
  if params.isEmpty then [] else .keyword .params :: params.flatMap Param.words

mutual

/-- **The words of a statement.** -/
def Stmt.words : Stmt → List Token
  | .declare _ type name value => .keyword .declare :: type.unplaced ::
      (nameWords name ++ (initialWords value ++ [.keyword .close]))
  | .param _ => []
  | .function _ name params body => .keyword .function ::
      (nameWords name ++ (signatureWords params ++ (stmtWords body ++ [.keyword .functionEnd])))
  | .conditional _ condition yes no => .keyword .whether :: (condition.words ++
      .keyword .thereupon :: (stmtWords yes ++
        ((if no.isEmpty then [] else .keyword .otherwise :: stmtWords no) ++
          [.keyword .blockEnd])))
  | .loop _ body => .keyword .loop :: (stmtWords body ++ [.keyword .blockEnd])
  | .print _ value => .keyword .print :: (value.words ++ [.keyword .close])
  | .returns _ value => .keyword .returns :: (optionWords value ++ [.keyword .close])
  | .assign name value => name.unplaced :: .keyword .value :: (value.words ++ [.keyword .close])
  | .breaks _ => [.keyword .breaks, .keyword .close]
  | .perform _ value => value.words ++ [.keyword .close]
  | .missing => []

/-- The words of statements, in order. -/
def stmtWords : List Stmt → List Token
  | [] => []
  | s :: ss => s.words ++ stmtWords ss

end

/-- **A program as a source,** one word on a line. -/
def Program.print (p : Program) : Text := Token.write (stmtWords p)

/-! ### Trees without places -/

/-- The token that starts a literal or a list, without its place; of a number only the kind is
left. -/
def Token.unplacedStart (t : Token) : Token :=
  if t.kind = .number then ⟨.number, [], .nowhere⟩ else t.unplaced

/-- The expression without places and without the tokens that start a number. -/
def Expr.normal (e : Expr) : Expr := e.mapTokens Token.unplaced Token.unplacedStart

/-- The statement without places and without the tokens that start a number. -/
def Stmt.normal (s : Stmt) : Stmt := s.mapTokens Token.unplaced Token.unplacedStart

/-- **The program without places and without the tokens that start a number.** -/
def Program.normal (p : Program) : Program := stmtsMapTokens Token.unplaced Token.unplacedStart p

theorem normal_binary (t : Token) (op : Operator) (left right : Expr) :
    (Expr.binary t op left right).normal = .binary t.unplaced op left.normal right.normal := by
  rw [Expr.normal, Expr.mapTokens]
  rfl

theorem normal_literal (start : Token) (kind : TokenKind) (text : Text) :
    (Expr.literal start kind text).normal = .literal start.unplacedStart kind text := by
  rw [Expr.normal, Expr.mapTokens]

theorem normal_call (k callee : Token) (es : List Expr) (symbol : Option Symbol) :
    (Expr.call k callee es symbol).normal =
      .call k.unplaced callee.unplaced (es.map Expr.normal) symbol := by
  rw [Expr.normal, Expr.mapTokens, exprsMapTokens_eq_map]
  rfl

theorem normal_list (start : Token) (es : List Expr) :
    (Expr.list start es).normal = .list start.unplacedStart (es.map Expr.normal) := by
  rw [Expr.normal, Expr.mapTokens, exprsMapTokens_eq_map]
  rfl

/-! ### Keywords are words -/

namespace Lexicon

/-- The kinds of keywords. -/
def kinds : List TokenKind := entries.map (·.2)

theorem kind?_spelling {kind : TokenKind} (known : kind ∈ kinds) :
    ∃ cs, spelling kind = Text.ofChars cs ∧ kind? cs = some kind := by
  have facts : ∀ entry ∈ entries, spelling entry.2 = (entry.1 : Text) ∧
      kind? entry.1.toList = some entry.2 := by decide
  obtain ⟨entry, member, rfl⟩ := List.mem_map.mp known
  exact ⟨entry.1.toList, (facts entry member).1, (facts entry member).2⟩

end Lexicon

namespace Token

/-- **A proper token without a place.** -/
structure IsWord (w : Token) : Prop where
  proper : w.Proper
  unplaced : w.unplaced = w

theorem isWord_keyword {kind : TokenKind} (known : kind ∈ Lexicon.kinds) :
    (keyword kind).IsWord := by
  obtain ⟨cs, same, found⟩ := Lexicon.kind?_spelling known
  exact ⟨⟨cs, same, .inl (.keyword found)⟩, rfl⟩

theorem isWord_separator : separator.IsWord := ⟨⟨['、'], rfl, .inl .comma⟩, rfl⟩

theorem Proper.isWord {t : Token} (proper : t.Proper) : t.unplaced.IsWord := ⟨proper, rfl⟩

/-- **A proper token of a keyword's kind is that keyword:** each keyword has one spelling. -/
theorem unplaced_eq_keyword {t : Token} (proper : t.Proper) {kind : TokenKind} (is : t.kind = kind)
    (known : kind ∈ Lexicon.kinds) : t.unplaced = keyword kind := by
  have spellings : ∀ entry ∈ Lexicon.entries, Lexicon.spelling entry.2 = (entry.1 : Text) := by
    decide
  have others : TokenKind.number ∉ Lexicon.kinds ∧ TokenKind.identifier ∉ Lexicon.kinds ∧
      TokenKind.closeQuote ∉ Lexicon.kinds ∧ TokenKind.comma ∉ Lexicon.kinds ∧
      TokenKind.unknown ∉ Lexicon.kinds ∧ TokenKind.string ∉ Lexicon.kinds := by decide
  obtain ⟨number, identifier, closeQuote, comma, unknown, string⟩ := others
  obtain ⟨tokenKind, lexeme, position⟩ := t
  obtain rfl : tokenKind = kind := is
  obtain ⟨cs, same, form | ⟨isString, -⟩⟩ := proper
  · have found : Lexicon.kind? cs = some tokenKind := by
      cases form with
      | keyword found => exact found
      | digits | decimal | numeral => exact absurd known number
      | latin | glyph => exact absurd known identifier
      | closeQuote => exact absurd known closeQuote
      | comma => exact absurd known comma
      | unknown => exact absurd known unknown
    obtain ⟨word, entry, rfl⟩ := mem_entries_of_kind? found
    have spelt : Lexicon.spelling tokenKind = (word : Text) := spellings _ entry
    rw [keyword, spelt]
    obtain rfl : lexeme = Text.ofChars word.toList := same
    rfl
  · obtain rfl : tokenKind = .string := isString
    exact absurd known string

theorem isWord_ofNat (n : Nat) : (Token.mk .number (Text.ofNat n) .nowhere).IsWord := by
  obtain ⟨c, cs, same, digits⟩ := exists_digits_ofNat n
  exact ⟨⟨c :: cs, same, .inl (.digits digits)⟩, rfl⟩

end Token

/-! ### The words of what was read -/

namespace Grammar

/-- The words of a phrase. -/
def Phrase.words : Phrase → List Token
  | operand e | term e | sum e | expression e => e.words
  | arguments es => exprWords es

/-- The words of a clause. -/
def Clause.words : Clause → List Token
  | statement s => s.words
  | statements ss => stmtWords ss

theorem exprWords_single (e : Expr) : exprWords [e] = e.words := List.append_nil _

theorem exprWords_cons (e : Expr) {es : List Expr} (some : es ≠ []) :
    exprWords (e :: es) = e.words ++ Token.separator :: exprWords es := by
  rw [exprWords, if_neg (by simpa using some)]

theorem call_words (k callee : Token) {es : List Expr} (some : es ≠ []) (symbol : Option Symbol) :
    (Expr.call k callee es symbol).words = Token.keyword .apply :: callee.unplaced ::
      Token.keyword .taking :: exprWords es := by
  rw [Expr.words, if_neg (by simpa using some)]

theorem arguments_ne_nil {es : List Expr} {ts after : List Token}
    (spelt : Spells (.arguments es) ts after) : es ≠ [] := by
  cases spelt <;> exact List.cons_ne_nil _ _

theorem elements_ne_nil {es : List Expr} {ts after : List Token}
    (spelt : SpellsElements es ts after) : es ≠ [] := by
  cases spelt <;> exact List.cons_ne_nil _ _

/-- The kind of an operator's token is that of its keyword. -/
theorem keyword_of_ofKind? {kind : TokenKind} {op : Operator}
    (operator : Operator.ofKind? kind = some op) :
    op.keyword = kind ∧ kind ∈ Lexicon.kinds := by
  cases kind
  case plus | minus | times | divide | greater | less | equal =>
    cases operator
    decide
  all_goals cases operator

theorem Spells.isWord_words {phrase : Phrase} {ts after : List Token}
    (spelt : Spells phrase ts after) : (∀ t ∈ ts, t.Proper) → ∀ w ∈ phrase.words, w.IsWord := by
  have operator {t : Token} {op : Operator} (is : Operator.ofKind? t.kind = some op) :
      (Token.keyword op.keyword).IsWord := by
    obtain ⟨same, known⟩ := keyword_of_ofKind? is
    exact Token.isWord_keyword (same ▸ known)
  have apply : (Token.keyword .apply).IsWord := Token.isWord_keyword (by decide)
  have taking : (Token.keyword .taking).IsWord := Token.isWord_keyword (by decide)
  induction spelt with
  | @arabic t _ is | @string t _ is =>
    intro proper
    rw [Phrase.words, Expr.words, ← is]
    exact List.forall_mem_singleton.mpr (proper t List.mem_cons_self).isWord
  | glyphs => exact fun _ => List.forall_mem_singleton.mpr (Token.isWord_ofNat _)
  | @name t =>
    exact fun proper => List.forall_mem_singleton.mpr (proper t List.mem_cons_self).isWord
  | bareCall =>
    intro proper
    simp only [List.forall_mem_cons] at proper
    exact List.forall_mem_cons.mpr ⟨apply, List.forall_mem_singleton.mpr proper.2.1.isWord⟩
  | call _ _ _ values ih =>
    intro proper
    simp only [List.forall_mem_cons] at proper
    rw [Phrase.words, call_words _ _ (arguments_ne_nil values)]
    simp only [List.forall_mem_cons]
    exact ⟨apply, proper.2.1.isWord, taking, ih proper.2.2.2⟩
  | lastArgument _ _ ih =>
    intro proper
    rw [Phrase.words, exprWords_single]
    exact ih proper
  | argument _ _ more ihValue ihMore =>
    intro proper
    simp only [List.forall_mem_append, List.forall_mem_cons] at proper
    rw [Phrase.words, exprWords_cons _ (arguments_ne_nil more)]
    simp only [List.forall_mem_append, List.forall_mem_cons]
    exact ⟨ihValue proper.1, Token.isWord_separator, ihMore proper.2.2⟩
  | operandTerm _ ih | termSum _ ih | sumExpression _ ih => exact ih
  | product _ is _ _ ihLeft ihRight | sum _ is _ _ ihLeft ihRight
  | comparison _ is _ _ ihLeft ihRight =>
    intro proper
    simp only [List.forall_mem_append, List.forall_mem_cons] at proper
    rw [Phrase.words, Expr.words]
    simp only [List.forall_mem_append, List.forall_mem_cons]
    exact ⟨ihLeft proper.1, operator is, ihRight proper.2.2⟩

theorem SpellsElements.isWord_words {es : List Expr} {ts after : List Token}
    (spelt : SpellsElements es ts after) (proper : ∀ t ∈ ts, t.Proper) :
    ∀ w ∈ exprWords es, w.IsWord := by
  induction spelt with
  | last value =>
    rw [exprWords_single]
    exact value.isWord_words proper
  | more value _ rest ih =>
    simp only [List.forall_mem_append, List.forall_mem_cons] at proper
    rw [exprWords_cons _ (elements_ne_nil rest)]
    simp only [List.forall_mem_append, List.forall_mem_cons]
    exact ⟨value.isWord_words proper.1, Token.isWord_separator, ih proper.2.2⟩

theorem SpellsInitial.isWord_words {isList : Bool} {value : Option Expr} {ts after : List Token}
    (spelt : SpellsInitial isList value ts after) (proper : ∀ t ∈ ts, t.Proper) :
    ∀ w ∈ initialWords value, w.IsWord := by
  cases spelt with
  | absent => exact fun _ member => absurd member List.not_mem_nil
  | present _ value =>
    rw [List.forall_mem_cons] at proper
    refine List.forall_mem_cons.mpr ⟨Token.isWord_keyword (by decide), ?_⟩
    cases value with
    | single value => exact value.isWord_words proper.2
    | reference value _ => exact value.isWord_words proper.2
    | list values _ => exact values.isWord_words proper.2

theorem SpellsName.isWord_words {name : Token} {ts : List Token} (spelt : SpellsName name ts)
    (proper : ∀ t ∈ ts, t.Proper) : ∀ w ∈ nameWords name, w.IsWord := by
  obtain ⟨lead, mark, -, -, -, -, rfl⟩ := spelt
  simp only [List.forall_mem_append, List.forall_mem_cons] at proper
  exact List.forall_mem_cons.mpr
    ⟨Token.isWord_keyword (by decide), List.forall_mem_singleton.mpr proper.2.2.1.isWord⟩

theorem SpellsSignature.isWord_words {ps : List Param} {ts : List Token}
    (spelt : SpellsSignature ps ts) (proper : ∀ t ∈ ts, t.Proper) :
    ∀ w ∈ signatureWords ps, w.IsWord := by
  have all {ps : List Param} {ts : List Token} (spelt : SpellsParams ps ts) :
      (∀ t ∈ ts, t.Proper) → ∀ w ∈ ps.flatMap Param.words, w.IsWord := by
    induction spelt with
    | last _ named _ =>
      intro proper
      simp only [List.forall_mem_cons, List.forall_mem_append] at proper
      rw [List.flatMap_singleton]
      exact List.forall_mem_cons.mpr ⟨proper.1.isWord, named.isWord_words proper.2.1⟩
    | more _ named _ _ ih =>
      intro proper
      simp only [List.forall_mem_cons, List.forall_mem_append] at proper
      rw [List.flatMap_cons]
      exact List.forall_mem_append.mpr ⟨List.forall_mem_cons.mpr
        ⟨proper.1.isWord, named.isWord_words proper.2.1.1⟩, ih proper.2.2⟩
  cases spelt with
  | absent => exact fun _ member => absurd member List.not_mem_nil
  | present _ params =>
    rw [List.forall_mem_cons] at proper
    unfold signatureWords
    split
    · exact fun _ member => absurd member List.not_mem_nil
    · exact List.forall_mem_cons.mpr ⟨Token.isWord_keyword (by decide), all params proper.2⟩

/-- **The words of a program that was read are proper.** -/
theorem Forms.isWord_words {clause : Clause} {place : Place} {ts after : List Token}
    (formed : Forms clause place ts after) :
    (∀ t ∈ ts, t.Proper) → ∀ w ∈ clause.words, w.IsWord := by
  have keyword {kind : TokenKind} (known : kind ∈ Lexicon.kinds) : (Token.keyword kind).IsWord :=
    Token.isWord_keyword known
  have none : ∀ w ∈ ([] : List Token), w.IsWord := fun _ member => absurd member List.not_mem_nil
  induction formed with
  | declare _ _ named initial _ =>
    intro proper
    simp only [List.forall_mem_cons, List.forall_mem_append] at proper
    simp only [Clause.words, Stmt.words, List.forall_mem_cons, List.forall_mem_append]
    exact ⟨keyword (by decide), proper.2.1.isWord, named.isWord_words proper.2.2.1,
      initial.isWord_words proper.2.2.2.1, keyword (by decide), none⟩
  | print _ value _ =>
    intro proper
    simp only [List.forall_mem_cons, List.forall_mem_append] at proper
    simp only [Clause.words, Stmt.words, List.forall_mem_cons, List.forall_mem_append]
    exact ⟨keyword (by decide), value.isWord_words proper.2.1, keyword (by decide), none⟩
  | conditional _ condition _ _ _ _ _ ihFirst ihSecond =>
    intro proper
    simp only [List.forall_mem_cons, List.forall_mem_append] at proper
    simp only [Clause.words, Stmt.words, List.forall_mem_cons, List.forall_mem_append]
    refine ⟨keyword (by decide), condition.isWord_words proper.2.1, keyword (by decide),
      ihFirst proper.2.2.2.1, ?_, keyword (by decide), none⟩
    split
    · exact none
    · exact List.forall_mem_cons.mpr ⟨keyword (by decide), ihSecond proper.2.2.2.2.2.1⟩
  | loop _ _ _ ih =>
    intro proper
    simp only [List.forall_mem_cons, List.forall_mem_append] at proper
    simp only [Clause.words, Stmt.words, List.forall_mem_cons, List.forall_mem_append]
    exact ⟨keyword (by decide), ih proper.2.1, keyword (by decide), none⟩
  | function _ named _ params _ _ _ ih =>
    intro proper
    simp only [List.forall_mem_cons, List.forall_mem_append] at proper
    simp only [Clause.words, Stmt.words, List.forall_mem_cons, List.forall_mem_append]
    exact ⟨keyword (by decide), named.isWord_words proper.2.1, params.isWord_words proper.2.2.2.1,
      ih proper.2.2.2.2.2.1, keyword (by decide), none⟩
  | returnValue _ _ value _ =>
    intro proper
    simp only [List.forall_mem_cons, List.forall_mem_append] at proper
    simp only [Clause.words, Stmt.words, List.forall_mem_cons, List.forall_mem_append]
    exact ⟨keyword (by decide), value.isWord_words proper.2.1, keyword (by decide), none⟩
  | returnNothing =>
    intro _
    simp only [Clause.words, Stmt.words, List.forall_mem_cons, List.forall_mem_append]
    exact ⟨keyword (by decide), none, keyword (by decide), none⟩
  | breaks =>
    intro _
    simp only [Clause.words, Stmt.words, List.forall_mem_cons]
    exact ⟨keyword (by decide), keyword (by decide), none⟩
  | perform _ call _ =>
    intro proper
    rw [← List.cons_append, List.forall_mem_append] at proper
    simp only [Clause.words, Stmt.words, List.forall_mem_cons, List.forall_mem_append]
    exact ⟨call.isWord_words proper.1, keyword (by decide), none⟩
  | assign _ _ value _ =>
    intro proper
    simp only [List.forall_mem_cons, List.forall_mem_append] at proper
    simp only [Clause.words, Stmt.words, List.forall_mem_cons, List.forall_mem_append]
    exact ⟨proper.1.isWord, keyword (by decide), value.isWord_words proper.2.2.1,
      keyword (by decide), none⟩
  | none => exact fun _ => none
  | more _ _ ihFirst ihRest =>
    intro proper
    rw [List.forall_mem_append] at proper
    exact List.forall_mem_append.mpr ⟨ihFirst proper.1, ihRest proper.2⟩

end Grammar

end Guwen
