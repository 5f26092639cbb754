/-
**Reading stays before the end token.**

Whatever the tokens are, with an end token missing, repeated or in the middle, every reader leaves
an end of the tokens that it was given, no statement takes an end token, and nothing behind the
first end token is ever looked at.

* `Moves` — one reader, whichever it is, from where it starts to where it stops.
* `spells_kinds`, `forms_ne_eof` — which tokens a phrase is made of, and that no clause holds an end
  token.
* `seen` — the tokens that reading can look at: those before the end, and the end.
* **`ofTokens_safe`** — the whole of it.
-/
import Guwen.Proofs.Grammar.Acceptance
import Guwen.Proofs.Grammar.Refusal
import Mathlib.Data.List.TakeWhile

namespace Guwen

namespace Grammar

/-! ### No clause holds an end token -/

theorem ne_eof_of_kind {t : Token} {kind : TokenKind} (is : t.kind = kind)
    (other : kind ≠ .eof) : t.kind ≠ .eof := is ▸ other

theorem Optional.ne_eof {kind : TokenKind} {ts : List Token} (optional : Optional kind ts)
    (other : kind ≠ .eof) : ∀ t ∈ ts, t.kind ≠ .eof := by
  rcases optional with rfl | ⟨t, is, rfl⟩
  · exact fun t none => absurd none List.not_mem_nil
  · exact List.forall_mem_singleton.mpr (is ▸ other)

theorem isType_ne_eof {t : Token} (isType : t.kind.isType = true) : t.kind ≠ .eof := by
  intro is
  rw [is] at isType
  cases isType

theorem spells_ne_eof {phrase : Phrase} {ts after : List Token} (spelt : Spells phrase ts after) :
    ∀ t ∈ ts, t.kind ≠ .eof := by
  intro t member is
  have kind := spells_kinds spelt t member
  rw [is] at kind
  cases kind

theorem spellsName_ne_eof {name : Token} {ts : List Token} (spelt : SpellsName name ts) :
    ∀ t ∈ ts, t.kind ≠ .eof := by
  obtain ⟨lead, mark, optional, named, string, -, rfl⟩ := spelt
  refine List.forall_mem_append.mpr ⟨optional.ne_eof nofun, ?_⟩
  simp [named, string]

theorem spellsElements_ne_eof {es : List Expr} {ts after : List Token}
    (spelt : SpellsElements es ts after) : ∀ t ∈ ts, t.kind ≠ .eof := by
  induction spelt with
  | last value => exact spells_ne_eof value
  | more value comma _ ih =>
    exact List.forall_mem_append.mpr
      ⟨spells_ne_eof value, List.forall_mem_cons.mpr ⟨by simp [comma], ih⟩⟩

theorem spellsInitial_ne_eof {isList : Bool} {value : Option Expr} {ts after : List Token}
    (spelt : SpellsInitial isList value ts after) : ∀ t ∈ ts, t.kind ≠ .eof := by
  cases spelt with
  | absent => exact fun t none => absurd none List.not_mem_nil
  | present keyword value =>
    refine List.forall_mem_cons.mpr ⟨by simp [keyword], ?_⟩
    cases value with
    | single value => exact spells_ne_eof value
    | reference value _ => exact spells_ne_eof value
    | list values _ => exact spellsElements_ne_eof values

theorem spellsParams_ne_eof {ps : List Param} {ts : List Token} (spelt : SpellsParams ps ts) :
    ∀ t ∈ ts, t.kind ≠ .eof := by
  induction spelt with
  | last isType named closed =>
    exact List.forall_mem_cons.mpr ⟨isType_ne_eof isType,
      List.forall_mem_append.mpr ⟨spellsName_ne_eof named, closed.ne_eof nofun⟩⟩
  | more isType named closed _ ih =>
    exact List.forall_mem_cons.mpr ⟨isType_ne_eof isType, List.forall_mem_append.mpr
      ⟨List.forall_mem_append.mpr ⟨spellsName_ne_eof named, closed.ne_eof nofun⟩, ih⟩⟩

theorem spellsSignature_ne_eof {ps : List Param} {ts : List Token}
    (spelt : SpellsSignature ps ts) : ∀ t ∈ ts, t.kind ≠ .eof := by
  cases spelt with
  | absent => exact fun t none => absurd none List.not_mem_nil
  | present keyword params =>
    exact List.forall_mem_cons.mpr ⟨by simp [keyword], spellsParams_ne_eof params⟩

theorem spellsEnd_ne_eof {name : Token} {ts : List Token} (spelt : SpellsEnd name ts) :
    ∀ t ∈ ts, t.kind ≠ .eof := by
  cases spelt with
  | plain closing => simp [closing]
  | called keyword closing => simp [keyword, closing]
  | named keyword string _ closing => simp [keyword, string, closing]

/-- **No clause holds an end token.** -/
theorem forms_ne_eof {clause : Clause} {place : Place} {ts after : List Token}
    (formed : Forms clause place ts after) : ∀ t ∈ ts, t.kind ≠ .eof := by
  induction formed with
  | declare keyword isType named initial closes =>
    simp only [List.forall_mem_cons, List.forall_mem_append]
    exact ⟨ne_eof_of_kind keyword nofun, isType_ne_eof isType, spellsName_ne_eof named,
      spellsInitial_ne_eof initial, ne_eof_of_kind closes nofun, nofun⟩
  | print keyword value closes =>
    simp only [List.forall_mem_cons, List.forall_mem_append]
    exact ⟨ne_eof_of_kind keyword nofun, spells_ne_eof value, closes.ne_eof nofun⟩
  | conditional keyword condition is _ otherwise _ closes first second =>
    simp only [List.forall_mem_cons, List.forall_mem_append]
    refine ⟨ne_eof_of_kind keyword nofun, spells_ne_eof condition, ne_eof_of_kind is nofun, first,
      ?_, second, ne_eof_of_kind closes nofun, nofun⟩
    rcases otherwise with ⟨rfl, -⟩ | ⟨k, is, rfl⟩
    · exact nofun
    · exact List.forall_mem_singleton.mpr (ne_eof_of_kind is nofun)
  | loop keyword _ closes inner =>
    simp only [List.forall_mem_cons, List.forall_mem_append]
    exact ⟨ne_eof_of_kind keyword nofun, inner, ne_eof_of_kind closes nofun, nofun⟩
  | function keyword named before params behind _ closes inner =>
    simp only [List.forall_mem_cons, List.forall_mem_append]
    exact ⟨ne_eof_of_kind keyword nofun, spellsName_ne_eof named, before.ne_eof nofun,
      spellsSignature_ne_eof params, behind.ne_eof nofun, inner, spellsEnd_ne_eof closes⟩
  | returnValue keyword _ value closes =>
    simp only [List.forall_mem_cons, List.forall_mem_append]
    exact ⟨ne_eof_of_kind keyword nofun, spells_ne_eof value, closes.ne_eof nofun⟩
  | returnNothing keyword _ _ closes =>
    exact List.forall_mem_cons.mpr ⟨ne_eof_of_kind keyword nofun, closes.ne_eof nofun⟩
  | breaks keyword _ closes =>
    exact List.forall_mem_cons.mpr ⟨ne_eof_of_kind keyword nofun, closes.ne_eof nofun⟩
  | perform keyword call closes =>
    simp only [List.forall_mem_cons, List.forall_mem_append]
    exact ⟨ne_eof_of_kind keyword nofun,
      (List.forall_mem_cons.mp (spells_ne_eof call)).2, closes.ne_eof nofun⟩
  | assign named is value closes =>
    simp only [List.forall_mem_cons, List.forall_mem_append]
    exact ⟨ne_eof_of_kind named nofun, ne_eof_of_kind is nofun, spells_ne_eof value,
      closes.ne_eof nofun⟩
  | none => exact nofun
  | more _ _ first rest => exact List.forall_mem_append.mpr ⟨first, rest⟩

/-- **A statement takes at least one token and no end token.** -/
theorem statement_takes {site : Site} {ts rest : List Token} {s : Stmt}
    (read : Leaves (statement site ts) s rest) :
    ∃ used, ts = used ++ rest ∧ used ≠ [] ∧ ∀ t ∈ used, t.kind ≠ .eof := by
  obtain ⟨used, split, formed⟩ := statement_sound read
  obtain ⟨t, us, rfl, -⟩ := forms_head formed
  exact ⟨t :: us, split, List.cons_ne_nil t us, forms_ne_eof formed⟩

/-! ### Every reader -/

/-- **One reader, whichever it is:** some reader that starts before `ts` leaves `rest`. -/
inductive Moves : List Token → List Token → Prop where
  | skip (kind : TokenKind) (ts : List Token) : Moves ts (skip kind ts).1
  | expect {site kind cause ts t rest} (read : Leaves (expect site kind cause ts) t rest) :
      Moves ts rest
  | numeral {site start ts e rest} (number : start.kind = .number)
      (read : Leaves (numeral site start ts) e rest) : Moves (start :: ts) rest
  | operand {site ts e rest} (read : Leaves (operand site ts) e rest) : Moves ts rest
  | call {site k ts e rest} (read : Leaves (call site k ts) e rest) : Moves ts rest
  | chain {site ts c rest} (read : Leaves (chain site ts) c rest) : Moves ts rest
  | arguments {site ts es rest} (read : Leaves (arguments site ts) es rest) : Moves ts rest
  | expression {site ts e rest} (read : Leaves (expression site ts) e rest) : Moves ts rest
  | typeWord {site ts t rest} (read : Leaves (typeWord site ts) t rest) : Moves ts rest
  | declaredName {site ts t rest} (read : Leaves (declaredName site ts) t rest) : Moves ts rest
  | elements {site isList ts es rest} (read : Leaves (elements site isList ts) es rest) :
      Moves ts rest
  | initialValue {site isList ts e rest} (read : Leaves (initialValue site isList ts) e rest) :
      Moves ts rest
  | initializer {site isList ts e rest} (read : Leaves (initializer site isList ts) e rest) :
      Moves ts rest
  | declaration {site k ts s rest} (read : Leaves (declaration site k ts) s rest) : Moves ts rest
  | print {site k ts s rest} (read : Leaves (print site k ts) s rest) : Moves ts rest
  | returns {site k ts s rest} (read : Leaves (returns site k ts) s rest) : Moves (k :: ts) rest
  | breaks {site k ts s rest} (read : Leaves (breaks site k ts) s rest) : Moves (k :: ts) rest
  | callStatement {site k ts s rest} (read : Leaves (callStatement site k ts) s rest) :
      Moves ts rest
  | assignment {site k ts s rest} (read : Leaves (assignment site k ts) s rest) : Moves ts rest
  | parameters {site ts ps rest} (read : Leaves (parameters site ts) ps rest) : Moves ts rest
  | signature {site ts ps rest} (read : Leaves (signature site ts) ps rest) : Moves ts rest
  | functionEnd {site name ts rest within}
      (read : functionEnd site name ts = .ok ⟨rest, within⟩) : Moves ts rest
  | statement {site ts s rest} (read : Leaves (statement site ts) s rest) : Moves ts rest
  | block {site cause closes ts ss rest} (read : Leaves (block site cause closes ts) ss rest) :
      Moves ts rest
  | conditional {site k ts s rest} (read : Leaves (conditional site k ts) s rest) : Moves ts rest
  | loop {site k ts s rest} (read : Leaves (loop site k ts) s rest) : Moves ts rest
  | function {site k ts s rest} (read : Leaves (function site k ts) s rest) : Moves ts rest

theorem Leaves.suffix {α : Type} {p : List Token → Prop} {ending : Token} {ts rest : List Token}
    {reading : Except Diagnostic (α × Subtype p)} {a : α} (read : Leaves reading a rest)
    (stays : Stays ending ts reading) : rest <:+ ts := by
  obtain ⟨within, same⟩ := read
  exact stays.keeps _ same

/-- **Every reader leaves an end of the tokens that it was given.** -/
theorem Moves.suffix {ts rest : List Token} (moves : Moves ts rest) : rest <:+ ts := by
  cases moves with
  | skip kind ts => exact skip_suffix kind ts
  | expect read => exact read.suffix (expect_stays ..)
  | numeral number read => exact read.suffix (numeral_stays number)
  | operand read => exact read.suffix (operand_stays ..)
  | call read => exact read.suffix (call_stays ..)
  | chain read => exact read.suffix (chain_stays ..)
  | arguments read => exact read.suffix (arguments_stays ..)
  | expression read => exact read.suffix (expression_stays ..)
  | typeWord read => exact read.suffix (typeWord_stays ..)
  | declaredName read => exact read.suffix (declaredName_stays ..)
  | elements read => exact read.suffix (elements_stays ..)
  | initialValue read => exact read.suffix (initialValue_stays ..)
  | initializer read => exact read.suffix (initializer_stays ..)
  | declaration read => exact read.suffix (declaration_stays ..)
  | print read => exact read.suffix (print_stays ..)
  | returns read => exact read.suffix (returns_stays ..)
  | breaks read => exact read.suffix (breaks_stays ..)
  | callStatement read => exact read.suffix (callStatement_stays ..)
  | assignment read => exact read.suffix (assignment_stays ..)
  | parameters read => exact read.suffix (parameters_stays ..)
  | signature read => exact read.suffix (signature_stays ..)
  | functionEnd read => exact (functionEnd_stays ..).keeps _ read
  | statement read => exact read.suffix (statement_stays ..)
  | block read => exact read.suffix (block_stays ..)
  | conditional read => exact read.suffix (conditional_stays ..)
  | loop read => exact read.suffix (loop_stays ..)
  | function read => exact read.suffix (function_stays ..)

/-! ### Up to the end token -/

/-- The tokens that reading can look at: those before the end, and the end. -/
def seen (tokens : List Token) : List Token := body tokens ++ [ending tokens]

theorem body_ne_eof {tokens : List Token} : ∀ t ∈ body tokens, t.kind ≠ .eof := by
  intro t member
  simpa using List.mem_takeWhile_imp member

/-- The tokens before a first end token, and that token. -/
theorem body_of_first {before : List Token} {t : Token} (first : ∀ u ∈ before, u.kind ≠ .eof)
    (ends : t.kind = .eof) (after : List Token) :
    body (before ++ t :: after) = before ∧ ending (before ++ t :: after) = t := by
  constructor
  · rw [body, List.takeWhile_append_of_pos (by simpa using first),
      List.takeWhile_cons_of_neg (by simp [ends]), List.append_nil]
  · rw [ending, List.find?_append, List.find?_eq_none.mpr (by simpa using first),
      List.find?_cons_of_pos (by simp [ends])]
    rfl

/-- Without an end token all tokens are read, and the end is where the last one stands. -/
theorem body_of_none {tokens : List Token} (none : ∀ t ∈ tokens, t.kind ≠ .eof) :
    body tokens = tokens ∧
      ending tokens = ⟨.eof, [], (tokens.getLast?.map (·.position)).getD .start⟩ := by
  constructor
  · exact List.takeWhile_eq_self_iff.mpr (by simpa using none)
  · rw [ending, List.find?_eq_none.mpr (by simpa using none)]

/-- Reading depends on the tokens before the end and on the end. -/
theorem ofTokens_congr {tokens others : List Token} (same : body tokens = body others)
    (ends : ending tokens = ending others) :
    Program.ofTokens tokens = Program.ofTokens others := by
  rw [Program.ofTokens, Program.ofTokens, top, top, same, ends]

/-- **What is left to read has its place among the tokens,** and its token is the next one. -/
theorem getElem?_seen {tokens ts : List Token} (within : ts <:+ body tokens) :
    (seen tokens)[(body tokens).length - ts.length]? = some ((top tokens).peek ts) := by
  obtain ⟨before, split⟩ := within
  have place : (body tokens).length - ts.length = before.length := by
    rw [← split, List.length_append, Nat.add_sub_cancel]
  calc (seen tokens)[(body tokens).length - ts.length]?
      = (before ++ (ts ++ [ending tokens]))[before.length]? := by
        rw [place, seen, ← split, List.append_assoc]
    _ = (ts ++ [ending tokens])[0]? := by
        rw [List.getElem?_append_right (Nat.le_refl _), Nat.sub_self]
    _ = some ((top tokens).peek ts) := by
        cases ts <;> rfl

/-- A number that cannot be read is no refusal of a token. -/
theorem lexical_of_numeral {site : Site} {start : Token} {ts : List Token} {d : Diagnostic}
    (failed : numeral site start ts = .error d) : d.kind = .lexical := by
  unfold numeral numeralValue at failed
  split at failed
  · cases failed
  · dsimp only at failed
    split at failed
    · cases failed
    next unread =>
      split at unread
      · cases unread
      · cases unread
        cases failed
        rfl

/-- **A refusal is about one of the tokens up to the end.** -/
theorem seen_of_refusal {tokens : List Token} {d : Diagnostic}
    (failed : Program.ofTokens tokens = .error d) (syntactic : d.kind = .syntactic) :
    ∃ t ∈ seen tokens, d.position = t.position ∧ d.lexeme = t.lexeme := by
  cases statements_blames failed with
  | @token t cause context whom =>
    refine ⟨t, ?_, rfl, rfl⟩
    rcases whom with member | rfl
    · exact List.mem_append_left _ member
    · exact List.mem_append_right _ List.mem_cons_self
  | numeral _ _ unread =>
    rw [lexical_of_numeral unread] at syntactic
    cases syntactic

/-- **Reading is safe on any tokens, and blind behind the first end token.** It gives a program or
refuses. Every reader leaves an end of the tokens that it started from, and every end of the tokens
that are read has its place among them, with the next token there. A statement takes at least one
token and no end token. The result is the one for the tokens cut behind their first end token; if
there is none, the one for the tokens with an end token at the place of the last one. A refusal of
syntax is about one of those tokens. -/
theorem ofTokens_safe (tokens : List Token) :
    ((∃ p, Program.ofTokens tokens = .ok p) ∨ ∃ d, Program.ofTokens tokens = .error d) ∧
    (∀ ts rest, Moves ts rest → rest <:+ ts) ∧
    (∀ ts, ts <:+ body tokens →
      (seen tokens)[(body tokens).length - ts.length]? = some ((top tokens).peek ts)) ∧
    (∀ site ts s rest, Leaves (statement site ts) s rest →
      ∃ used, ts = used ++ rest ∧ used ≠ [] ∧ ∀ t ∈ used, t.kind ≠ .eof) ∧
    (∀ before t after, tokens = before ++ t :: after → t.kind = .eof →
      (∀ u ∈ before, u.kind ≠ .eof) →
      seen tokens = before ++ [t] ∧
        Program.ofTokens tokens = Program.ofTokens (before ++ [t])) ∧
    ((∀ t ∈ tokens, t.kind ≠ .eof) →
      seen tokens =
          tokens ++ [⟨.eof, [], (tokens.getLast?.map (·.position)).getD .start⟩] ∧
        Program.ofTokens tokens = Program.ofTokens
          (tokens ++ [⟨.eof, [], (tokens.getLast?.map (·.position)).getD .start⟩])) ∧
    ∀ d, Program.ofTokens tokens = .error d → d.kind = .syntactic →
      ∃ t ∈ seen tokens, d.position = t.position ∧ d.lexeme = t.lexeme := by
  refine ⟨?_, fun _ _ => Moves.suffix, fun _ => getElem?_seen, fun _ _ _ _ => statement_takes, ?_,
    ?_, fun _ => seen_of_refusal⟩
  · cases Program.ofTokens tokens with
    | ok p => exact .inl ⟨p, rfl⟩
    | error d => exact .inr ⟨d, rfl⟩
  · rintro before t after rfl ends first
    obtain ⟨same, last⟩ := body_of_first first ends after
    obtain ⟨same', last'⟩ := body_of_first first ends []
    exact ⟨by rw [seen, same, last], ofTokens_congr (same.trans same'.symm) (last.trans last'.symm)⟩
  · intro none
    obtain ⟨same, last⟩ := body_of_none none
    obtain ⟨same', last'⟩ := body_of_first
      (t := ⟨.eof, [], (tokens.getLast?.map (·.position)).getD .start⟩) none rfl []
    exact ⟨by rw [seen, same, last], ofTokens_congr (same.trans same'.symm) (last.trans last'.symm)⟩

end Grammar

end Guwen
