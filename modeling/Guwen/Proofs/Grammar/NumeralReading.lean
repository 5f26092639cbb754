/-
**The glyphs of one numeral are joined again, and only they.**

The scan gives one token for each glyph; the reader of numerals joins those that stand side by side,
which it tells from their places alone. So a numeral behind 云 is read as one number, and a separator
inside it ends the statement, whatever the separator is made of.

* `adjacent_glyph_iff` — a token goes on a glyph just when it stands at the place behind it.
* **`glyphRun_glyphTokens`** — the reader takes all glyphs of a run, up to a token that stands
  elsewhere.
* `print_numeral` — 云 and a run of glyphs are one statement, which prints the value of the run.
* **`ofSource_joins_glyphs`** — a numeral is read as one number when nothing parts it, and refused
  at its second part when a separator does.
-/
import Guwen.Proofs.Grammar.PromptReaders
import Guwen.Proofs.Token.NumeralRuns

namespace Guwen

namespace Grammar

open Token (glyphTokens printToken Separator)

/-! ### Side by side -/

/-- **A token stands right behind a glyph** just when it stands at the place behind it: columns do
not wrap around so early. -/
theorem adjacent_glyph_iff {c : Char} (no_feed : c ≠ '\n') {p : Position} (low : 0 ≤ p.column)
    (high : p.column + 1 < 2 ^ 63) (t : Token) :
    adjacent ⟨.number, Text.ofChars [c], p⟩ t = true ↔ t.position = p.after c := by
  have behind : p.after c = ⟨p.line, p.column + 1⟩ := if_neg no_feed
  have column : Int.bmod (p.column + 1) columnCount = p.column + 1 := by
    apply Int.bmod_eq_of_le
    · have : ((columnCount : Nat) : Int) / 2 = 2 ^ 63 := by decide
      omega
    · have : (((columnCount : Nat) : Int) + 1) / 2 = 2 ^ 63 := by decide
      omega
  unfold adjacent
  rw [Text.chars_ofChars, behind]
  show (p.line == t.position.line &&
    t.position.column == Int.bmod (p.column + 1) columnCount) = true ↔ _
  rw [column, Bool.and_eq_true, beq_iff_eq, beq_iff_eq]
  constructor
  · rintro ⟨line, same⟩
    rw [line, ← same]
  · intro same
    rw [same]
    exact ⟨rfl, rfl⟩

theorem isArabic_glyph {c : Char} (glyph : Numeral.IsGlyph c) (p : Position) :
    isArabic ⟨.number, Text.ofChars [c], p⟩ = false := by
  have no_digit : isDigit c = false := (Token.standsOut_of_glyph glyph).no_digit
  unfold isArabic
  rw [Text.chars_ofChars, List.head?_cons, Option.any_some, no_digit]

/-- **The reader of numerals takes all glyphs of a run,** and stops at a token that stands anywhere
but right behind it. -/
theorem glyphRun_glyphTokens {c : Char} {g : List Char} (glyphs : ∀ d ∈ c :: g, Numeral.IsGlyph d)
    {p : Position} (low : 0 ≤ p.column) (high : p.column + (g.length + 1) < 2 ^ 63)
    {after : List Token} (apart : ∀ t ∈ after.head?, t.position ≠ p.past (c :: g)) :
    glyphRun ⟨.number, Text.ofChars [c], p⟩ (glyphTokens (p.after c) g ++ after) =
      (glyphTokens (p.after c) g, after) := by
  -- The run goes on from the glyph read last, so the induction moves that glyph and its place.
  induction g generalizing c p with
  | nil =>
    have no_feed := (Token.standsOut_of_glyph (glyphs c List.mem_cons_self)).no_feed
    have next := adjacent_glyph_iff no_feed low (by simpa using high)
    cases after with
    | nil => rfl
    | cons t ts =>
      have other : ¬ adjacent ⟨.number, Text.ofChars [c], p⟩ t = true :=
        mt (next t).mp (apart t rfl)
      show glyphRun _ (t :: ts) = ([], t :: ts)
      rw [glyphRun, if_neg]
      simp [other]
  | cons d g ih =>
    obtain ⟨first, others⟩ := List.forall_mem_cons.mp glyphs
    have no_feed := (Token.standsOut_of_glyph first).no_feed
    have step : p.after c = ⟨p.line, p.column + 1⟩ := if_neg no_feed
    rw [List.length_cons] at high
    have next : adjacent ⟨.number, Text.ofChars [c], p⟩
        ⟨.number, Text.ofChars [d], p.after c⟩ = true :=
      (adjacent_glyph_iff no_feed low (by omega) _).mpr rfl
    have rest := ih others (p := p.after c) (by rw [step]; show 0 ≤ p.column + 1; omega)
      (by rw [step]; show p.column + 1 + (g.length + 1) < 2 ^ 63; omega) apart
    have glyph := isArabic_glyph (others d List.mem_cons_self) (p.after c)
    rw [glyphTokens, List.cons_append, glyphRun, if_pos (by simp [next, glyph]), rest]

/-! ### Printing a numeral -/

/-- **云 and a run of glyphs are one statement,** when neither 也 nor an operator follows, nor
another token right behind the run. -/
theorem print_numeral {k : Token} (keyword : k.kind = .print) {c : Char} {g : List Char}
    (glyphs : ∀ d ∈ c :: g, Numeral.IsGlyph d) {p : Position} (low : 0 ≤ p.column)
    (high : p.column + (g.length + 1) < 2 ^ 63) {after : List Token}
    (apart : ∀ t ∈ after.head?, t.position ≠ p.past (c :: g)) (operator : NotNext isOperator after)
    (close : NotNext (· == .close) after) {v : Nat} (value : Numeral.value? (c :: g) = some v)
    (site : Site) :
    Leaves (statement site (k :: (glyphTokens p (c :: g) ++ after)))
      (.print k (.literal ⟨.number, Text.ofChars [c], p⟩ .number (Text.ofNat v))) after := by
  have run := glyphRun_glyphTokens glyphs low high apart
  have numeral : Leaves (operand (site.inside .print) (glyphTokens p (c :: g) ++ after))
      (.literal ⟨.number, Text.ofChars [c], p⟩ .number (Text.ofNat v)) after := by
    refine leaves_operand.mpr (.inl ⟨rfl, leaves_numeral.mpr (.inr
      ⟨isArabic_glyph (glyphs c List.mem_cons_self) p, v, ?_, rfl, ?_⟩)⟩)
    · rw [List.append_eq, run]
      show Numeral.value? (Text.chars ((glyphTokens p (c :: g)).flatMap Token.lexeme)) = some v
      rw [Token.lexemes_glyphTokens, Text.chars_ofChars, value]
    · rw [List.append_eq, run]
  have whole : Leaves (expression (site.inside .print) (glyphTokens p (c :: g) ++ after))
      (.literal ⟨.number, Text.ofChars [c], p⟩ .number (Text.ofNat v)) after :=
    leaves_expression.mpr ⟨⟨_, []⟩,
      leaves_chain.mpr ⟨after, numeral, .inl ⟨operator, rfl, rfl⟩⟩, rfl⟩
  exact leaves_statement.mpr (.inr (.inl ⟨keyword, leaves_print.mpr
    ⟨_, after, whole, skip_append (.inl rfl) close, rfl⟩⟩))

/-- The statements behind the first one are read on their own. -/
theorem statements_cons {site : Site} {t : Token} {us mid : List Token} {s : Stmt}
    (first : Leaves (statement site (t :: us)) s mid) :
    statements site (t :: us) = (statements site mid).map (s :: ·) := by
  obtain ⟨within, read⟩ := first
  rw [statements, read]
  rfl

/-! ### A numeral behind 云 -/

/-- The statement that prints a number, the numeral of which starts with `c`. -/
def printNumber (c : Char) (v : Nat) : Stmt :=
  .print printToken (.literal ⟨.number, Text.ofChars [c], ⟨1, 2⟩⟩ .number (Text.ofNat v))

theorem statements_print_numeral {c : Char} {g : List Char}
    (glyphs : ∀ d ∈ c :: g, Numeral.IsGlyph d) (short : (c :: g).length ≤ 2 ^ 47)
    {after : List Token} (apart : ∀ t ∈ after.head?, t.position ≠ Position.past ⟨1, 2⟩ (c :: g))
    (numbers : ∀ t ∈ after, t.kind = .number) {v : Nat}
    (value : Numeral.value? (c :: g) = some v) (site : Site) :
    statements site (printToken :: (glyphTokens ⟨1, 2⟩ (c :: g) ++ after)) =
      (statements site after).map (printNumber c v :: ·) := by
  have other (set : TokenKind → Bool) (no_number : set .number = false) : NotNext set after := by
    cases after with
    | nil => exact nofun
    | cons t ts => rw [notNext_cons, numbers t List.mem_cons_self, no_number]
  have columns : (⟨1, 2⟩ : Position).column + (g.length + 1) < 2 ^ 63 := by
    rw [List.length_cons] at short
    show (2 : Int) + (g.length + 1) < 2 ^ 63
    omega
  exact statements_cons (print_numeral rfl glyphs (by decide) columns apart (other isOperator rfl)
    (other (· == .close) rfl) value site)

/-- The tokens of a source that ends behind numbers. -/
theorem ofTokens_numbers {words : List Token} (numbers : ∀ t ∈ words, t.kind = .number)
    (p : Position) : Program.ofTokens (printToken :: (words ++ [⟨.eof, [], p⟩])) =
      statements ⟨⟨.eof, [], p⟩, .program, false, false⟩ (printToken :: words) := by
  have no_end : ∀ t ∈ printToken :: words, t.kind ≠ .eof := by
    refine List.forall_mem_cons.mpr ⟨TokenKind.noConfusion, fun t member => ?_⟩
    rw [numbers t member]
    exact TokenKind.noConfusion
  obtain ⟨read, ends⟩ := body_of_first no_end (t := ⟨.eof, [], p⟩) rfl []
  rw [List.cons_append] at read ends
  rw [Program.ofTokens, top, read, ends]

/-- Nothing parts the glyphs: they are one number. -/
theorem ofSource_whole {c : Char} {g : List Char} (glyphs : ∀ d ∈ c :: g, Numeral.IsGlyph d)
    (short : (c :: g).length ≤ 2 ^ 47) {v : Nat} (value : Numeral.value? (c :: g) = some v) :
    Program.ofSource ("云" ++ Text.ofChars (c :: g)) = .ok [printNumber c v] := by
  have last : ∀ t ∈ ([] : List Token).head?, t.position ≠ Position.past ⟨1, 2⟩ (c :: g) := nofun
  have read := statements_print_numeral glyphs short last
    (fun t member => absurd member List.not_mem_nil) value
  rw [List.append_nil] at read
  rw [Program.ofSource, Token.tokenize_print (List.cons_ne_nil c g) glyphs,
    ofTokens_numbers fun t => Token.number_of_mem_glyphTokens, read, statements]
  rfl

/-- A separator parts the glyphs: those in front of it are a statement, and the next one starts
none. -/
theorem ofSource_parted {d c : Char} {g₁ g₂ : List Char}
    (glyphs₁ : ∀ e ∈ d :: g₁, Numeral.IsGlyph e) (glyphs₂ : ∀ e ∈ c :: g₂, Numeral.IsGlyph e)
    (short : (d :: g₁).length ≤ 2 ^ 47) {w : Text} (separator : Separator w.chars)
    (some_separator : w ≠ []) :
    Program.ofSource ("云" ++ Text.ofChars (d :: g₁) ++ w ++ Text.ofChars (c :: g₂)) =
      .error ⟨.syntactic, .undefinedStatement, .past ⟨1, 2⟩ (d :: g₁ ++ w.chars), Text.ofChars [c],
        .program⟩ := by
  obtain ⟨v, value⟩ := (Numeral.value?_isSome_iff (d :: g₁)).mpr ⟨List.cons_ne_nil d g₁, glyphs₁⟩
  have apart : ∀ t ∈ (glyphTokens (Position.past ⟨1, 2⟩ (d :: g₁ ++ w.chars)) (c :: g₂)).head?,
      t.position ≠ Position.past ⟨1, 2⟩ (d :: g₁) := by
    rintro _ ⟨⟩
    rw [Position.past_append]
    exact (Position.before_past (mt (Text.chars_eq_nil_iff w).mp some_separator) _).ne.symm
  have numbers : ∀ t ∈ glyphTokens ⟨1, 2⟩ (d :: g₁) ++
      glyphTokens (Position.past ⟨1, 2⟩ (d :: g₁ ++ w.chars)) (c :: g₂), t.kind = .number :=
    List.forall_mem_append.mpr
      ⟨fun t => Token.number_of_mem_glyphTokens, fun t => Token.number_of_mem_glyphTokens⟩
  rw [Program.ofSource,
    Token.tokenize_parted (List.cons_ne_nil d g₁) glyphs₁ glyphs₂ separator some_separator,
    ← List.append_assoc (glyphTokens ⟨1, 2⟩ (d :: g₁)), ofTokens_numbers numbers,
    statements_print_numeral glyphs₁ short apart (fun t => Token.number_of_mem_glyphTokens) value,
    glyphTokens, statements, statement_refuses rfl]
  rfl

/-- **A numeral is read whole or not at all.** Behind 云 the glyphs of a numeral are one number,
which starts at the first glyph and has the value of the whole numeral. When white space or comments
part the glyphs, the program is refused at the first glyph behind them: it starts no statement. -/
theorem ofSource_joins_glyphs {g : List Char} (given : g ≠ [])
    (glyphs : ∀ c ∈ g, Numeral.IsGlyph c) (short : g.length ≤ 2 ^ 47) :
    (∃ v, numeralValue (Text.ofChars g) = .ok v ∧
      Program.ofSource ("云" ++ Text.ofChars g) = .ok [.print ⟨.print, "云", ⟨1, 1⟩⟩
        (.literal ⟨.number, Text.ofChars [g.head given], ⟨1, 2⟩⟩ .number (Text.ofNat v))]) ∧
    ∀ (g₁ g₂ : List Char) (c : Char) (w : Text), g = g₁ ++ c :: g₂ → g₁ ≠ [] →
      Separator w.chars → w ≠ [] →
      Program.ofSource ("云" ++ Text.ofChars g₁ ++ w ++ Text.ofChars (c :: g₂)) =
        .error ⟨.syntactic, .undefinedStatement, .counted ('云' :: (g₁ ++ w.chars)),
          Text.ofChars [c], .program⟩ := by
  constructor
  · obtain ⟨v, value⟩ := (Numeral.value?_isSome_iff g).mpr ⟨given, glyphs⟩
    refine ⟨v, (Numeral.numeralValue_eq_ok_iff _ v).mpr (by rwa [Text.chars_ofChars]), ?_⟩
    cases g with
    | nil => exact absurd rfl given
    | cons c g => exact ofSource_whole glyphs short value
  · rintro g₁ g₂ c w rfl given₁ separator some_separator
    obtain ⟨glyphs₁, glyphs₂⟩ := List.forall_mem_append.mp glyphs
    have fits : g₁.length ≤ 2 ^ 47 := by
      rw [List.length_append] at short
      omega
    rw [← Position.past_start]
    cases g₁ with
    | nil => exact absurd rfl given₁
    | cons d g₁ => exact ofSource_parted glyphs₁ glyphs₂ fits separator some_separator

/-- A comment parts 四 from 十二, though it holds the glyphs that the numeral would go on with. -/
theorem ofSource_joins_glyphs_fortyTwo :
    Program.ofSource ("云" ++ Text.ofChars ['四', '十', '二']) = .ok [.print ⟨.print, "云", ⟨1, 1⟩⟩
      (.literal ⟨.number, Text.ofChars ['四'], ⟨1, 2⟩⟩ .number "42")] ∧
    Program.ofSource ("云" ++ Text.ofChars ['四'] ++ " //十二\n" ++ Text.ofChars ['十', '二']) =
      .error ⟨.syntactic, .undefinedStatement, ⟨2, 1⟩, Text.ofChars ['十'], .program⟩ := by
  have glyphs : ∀ c ∈ ['四', '十', '二'], Numeral.IsGlyph c := by
    simp only [List.forall_mem_cons]
    exact ⟨⟨4, rfl⟩, ⟨10, rfl⟩, ⟨2, rfl⟩, nofun⟩
  obtain ⟨⟨v, value, whole⟩, parted⟩ :=
    ofSource_joins_glyphs (List.cons_ne_nil '四' ['十', '二']) glyphs (by decide)
  cases value.symm.trans (show numeralValue (Text.ofChars ['四', '十', '二']) = .ok 42 from rfl)
  have comment : Separator (Text.chars " //十二\n") := by
    rw [show Text.chars " //十二\n" = ' ' :: '/' :: '/' :: (['十', '二'] ++ ['\n']) by decide]
    exact .blank (by decide) (.comment (by decide) .nil)
  exact ⟨whole, parted ['四'] ['二'] '十' " //十二\n" rfl (by decide) comment (by decide)⟩

end Grammar

end Guwen
