/-
**Outlines: what the code of an expression tells of it.**

The code shows no places, not whether a callee stood in quotes, and of a symbol only whether it is a
builtin. All the rest of an expression can be read back from its code.

* `Expr.outline` — the expression without what the code does not show.
* `Named` — a name, with the builtin it is written as.
* **`Renders`** — how expressions, and lists of them, are written, one rule for each form.
* `Renders.exists_front` — the front of a code tells how the expression is built.
* **`Renders.told`** — two expressions with one code have one outline.
* `Expr.Genuine`, `Expr.Clear` — the tokens are those the form of the expression asks for, and its
  names are resolved.
* **`Expr.exists_renders`** — a clear expression has code, which is written by the rules.
-/
import Guwen.Proofs.Code.Delimiters
import Guwen.Proofs.Grammar.Printing

namespace Guwen

open Code

/-! ### Outlines -/

mutual

/-- **The expression without what its code does not show:** the places of its tokens and the tokens
that start a number, the kinds of callees, and all symbols but those of builtins. -/
def Expr.outline : Expr → Expr
  | .binary token op left right => .binary token.unplaced op left.outline right.outline
  | .literal first kind text => .literal first.unplacedStart kind text
  | .use name mark => .use name.unplaced (mark.filter (·.builtin))
  | .call keyword callee arguments mark =>
    .call keyword.unplaced ⟨.identifier, callee.lexeme, .nowhere⟩ (exprOutlines arguments)
      (mark.filter (·.builtin))
  | .list first elements => .list first.unplacedStart (exprOutlines elements)
  | .missing => .missing

/-- The outlines of expressions, in order. -/
def exprOutlines : List Expr → List Expr
  | [] => []
  | e :: es => e.outline :: exprOutlines es

end

/-- The token that an expression starts with, without its place. -/
def Expr.start? : Expr → Option Token
  | .binary _ _ left _ => left.start?
  | .literal first _ _ | .list first _ => some first.unplacedStart
  | .use name _ => some name.unplacedStart
  | .call keyword _ _ _ => some keyword.unplacedStart
  | .missing => none

theorem Token.unplacedStart_idem (t : Token) : t.unplacedStart.unplacedStart = t.unplacedStart := by
  unfold Token.unplacedStart
  split
  · rfl
  · next other => exact if_neg other

/-- An outline starts with the same token. -/
theorem Expr.start?_outline : ∀ e : Expr, e.outline.start? = e.start?
  | .binary _ _ left _ => left.start?_outline
  | .literal first _ _ | .list first _ => congrArg some first.unplacedStart_idem
  | .use .. | .call .. | .missing => rfl

/-- Lists of one outline start alike. -/
theorem start?_congr {es es' : List Expr} (same : exprOutlines es = exprOutlines es') :
    es.head?.bind Expr.start? = es'.head?.bind Expr.start? := by
  have starts : ∀ es : List Expr,
      (exprOutlines es).head?.bind Expr.start? = es.head?.bind Expr.start? := by
    intro es
    cases es with
    | nil => rfl
    | cons e _ => exact e.start?_outline
  rw [← starts es, same, starts es']

/-! ### How expressions are written -/

/-- **A name with a mark is written as it stands:** as the builtin `stands`, which is the one of its
mark, or as its identifier. -/
structure Named (Good : Text → Prop) (name : Text) (mark : Option Symbol)
    (stands : Option Builtin) : Prop where
  known : ∀ b ∈ stands, b ∈ Builtin.all ∧ b.name = name
  good : stands = none → Good name
  marked : mark.filter (·.builtin) = stands.map Builtin.symbol

/-- **The word for a name tells the name, and of its mark whether it is a builtin.** -/
theorem Named.inj {Good : Text → Prop} (distinct : Distinct Good) {name other : Text}
    {mark mark' : Option Symbol} {stands stands' : Option Builtin}
    (named : Named Good name mark stands) (named' : Named Good other mark' stands')
    (same : nameWord name stands = nameWord other stands') :
    name = other ∧ stands = stands' ∧ mark.filter (·.builtin) = mark'.filter (·.builtin) := by
  obtain ⟨names, rfl⟩ :=
    nameWord_inj distinct named.known named'.known named.good named'.good same
  exact ⟨names, rfl, named.marked.trans named'.marked.symm⟩

theorem Named.isNameWord {Good : Text → Prop} {name : Text} {mark : Option Symbol}
    {stands : Option Builtin} (named : Named Good name mark stands) :
    IsNameWord (nameWord name stands) :=
  isNameWord_nameWord name fun b member => (named.known b member).1

/-- An expression, or expressions with commas between them. -/
inductive Part where
  | one (e : Expr)
  | many (es : List Expr)

/-- **How the parts of an expression are written.** -/
inductive Renders (Good : Text → Prop) : Part → Text → Prop where
  | binary {token : Token} {op : Operator} {left right : Expr} {l r : Text}
      (known : op ∈ Operator.all) (operator : token.unplaced = .keyword op.keyword)
      (first : Renders Good (.one left) l) (second : Renders Good (.one right) r) :
      Renders Good (.one (.binary token op left right))
        ("(" ++ (l ++ (" " ++ (op.sign ++ (" " ++ (r ++ ")"))))))
  | string {first : Token} {text : Text}
      (starts : first.unplacedStart = Token.unplacedStart ⟨.string, text, .nowhere⟩) :
      Renders Good (.one (.literal first .string text)) (quote text)
  | number {first : Token} {text : Text}
      (starts : first.unplacedStart = Token.unplacedStart ⟨.number, text, .nowhere⟩)
      (number : IsNumber text) : Renders Good (.one (.literal first .number text)) text
  | use {name : Token} {mark : Option Symbol} {stands : Option Builtin}
      (kind : name.kind = .identifier) (named : Named Good name.lexeme mark stands) :
      Renders Good (.one (.use name mark)) (nameWord name.lexeme stands)
  | call {keyword callee : Token} {mark : Option Symbol} {stands : Option Builtin}
      {arguments : List Expr} {inner : Text} (applies : keyword.unplaced = .keyword .apply)
      (named : Named Good callee.lexeme mark stands)
      (inside : Renders Good (.many arguments) inner) :
      Renders Good (.one (.call keyword callee arguments mark))
        (nameWord callee.lexeme stands ++ ("(" ++ (inner ++ (")" ++ behindCall stands))))
  | list {first : Token} {elements : List Expr} {inner : Text}
      (starts : elements.head?.bind Expr.start? = some first.unplacedStart)
      (inside : Renders Good (.many elements) inner) :
      Renders Good (.one (.list first elements))
        ("new List<object> \x7b " ++ (inner ++ " \x7d"))
  | none : Renders Good (.many []) []
  | last {e : Expr} {code : Text} (only : Renders Good (.one e) code) : Renders Good (.many [e]) code
  | more {e next : Expr} {es : List Expr} {code codes : Text} (first : Renders Good (.one e) code)
      (rest : Renders Good (.many (next :: es)) codes) :
      Renders Good (.many (e :: next :: es)) (code ++ (", " ++ codes))

/-- The front of the code of an expression, by its form. -/
inductive Fronts : Expr → Front → Prop where
  | binary {token : Token} {op : Operator} {left right : Expr} :
      Fronts (.binary token op left right) .group
  | string {first : Token} {text : Text} : Fronts (.literal first .string text) .literal
  | number {first : Token} {text : Text} : Fronts (.literal first .number text) .number
  | use {name : Token} {mark : Option Symbol} : Fronts (.use name mark) .name
  | call {keyword callee : Token} {arguments : List Expr} {mark : Option Symbol} :
      Fronts (.call keyword callee arguments mark) .call
  | list {first : Token} {elements : List Expr} : Fronts (.list first elements) .list

namespace Renders

variable {Good : Text → Prop} {e e' : Expr} {code code' rest rest' : Text}

/-- **The front of a code tells how the expression is built.** -/
theorem exists_front (renders : Renders Good (.one e) code) (stops : Stops rest) :
    ∃ front, Fronts e front ∧ front? (code ++ rest) = some front := by
  cases renders with
  | binary => exact ⟨_, .binary, rfl⟩
  | string => exact ⟨_, .string, rfl⟩
  | number _ number => exact ⟨_, .number, front?_number number stops⟩
  | use _ named => exact ⟨_, .use, named.isNameWord.front?_name stops⟩
  | call _ named =>
    refine ⟨_, .call, ?_⟩
    rw [List.append_assoc, List.append_assoc]
    exact named.isNameWord.front?_call _
  | list => exact ⟨_, .list, rfl⟩

/-- Expressions with one code have one form. -/
theorem same_front (renders : Renders Good (.one e) code) (renders' : Renders Good (.one e') code')
    (stops : Stops rest) (stops' : Stops rest') (same : code ++ rest = code' ++ rest') :
    ∃ front, Fronts e front ∧ Fronts e' front := by
  obtain ⟨front, fronts, read⟩ := renders.exists_front stops
  obtain ⟨front', fronts', read'⟩ := renders'.exists_front stops'
  rw [same, read'] at read
  exact ⟨front, fronts, Option.some.inj read ▸ fronts'⟩

end Renders

/-- What follows expressions with commas between them: a blank or a closing parenthesis. -/
def Closes (rest : Text) : Prop := ∃ b t, rest = b :: t ∧ (b = 32 ∨ b = 41)

theorem closes_closing (t : Text) : Closes (")" ++ t) := ⟨_, _, rfl, .inr rfl⟩

theorem closes_brace (t : Text) : Closes (" \x7d" ++ t) := ⟨_, _, rfl, .inl rfl⟩

theorem Closes.stops {rest : Text} (closes : Closes rest) : Stops rest := by
  obtain ⟨b, t, rfl, blank | closing⟩ := closes
  · exact stops_cons (.inl blank)
  · exact stops_cons (.inr (.inl closing))

theorem Closes.ne_comma {rest : Text} (closes : Closes rest) (t : Text) : rest ≠ ", " ++ t := by
  obtain ⟨b, u, rfl, rfl | rfl⟩ := closes <;> intro same <;>
    cases (List.head_eq_of_cons_eq same : _ = (44 : UInt8))

/-- **The part is told from its code:** no other part, with whatever may follow it, gives the same
text. -/
def Part.Told (Good : Text → Prop) : Part → Text → Prop
  | .one e, code => ∀ e' code' rest rest', Renders Good (.one e') code' → Stops rest → Stops rest' →
      code ++ rest = code' ++ rest' → e.outline = e'.outline ∧ rest = rest'
  | .many es, code => ∀ es' code' rest rest', Renders Good (.many es') code' → Closes rest →
      Closes rest' → code ++ rest = code' ++ rest' →
      exprOutlines es = exprOutlines es' ∧ rest = rest'

namespace Renders

variable {Good : Text → Prop}

/-- Where a list closes, no expression starts. -/
theorem ne_of_closes {e : Expr} {code more rest : Text} (renders : Renders Good (.one e) code)
    (stops : Stops more) (closes : Closes rest) : rest ≠ code ++ more := by
  intro same
  obtain ⟨front, -, read⟩ := renders.exists_front stops
  rw [← same, front?_of_stops closes.stops] at read
  cases read

/-- **Every part is told from its code.** -/
theorem told (distinct : Distinct Good) {part : Part} {code : Text}
    (renders : Renders Good part code) : part.Told Good code := by
  induction renders with
  | binary known operator first second ihLeft ihRight =>
    intro e' code' rest rest' renders' stops stops' same
    obtain ⟨_, ⟨⟩, ⟨⟩⟩ :=
      (Renders.binary known operator first second).same_front renders' stops stops' same
    cases renders' with
    | binary known' operator' first' second' =>
      simp only [List.append_assoc] at same
      obtain ⟨left, same⟩ := ihLeft _ _ _ _ first' (stops_blank _) (stops_blank _)
        (List.append_cancel_left same)
      obtain ⟨rfl, behind⟩ := sign_append_inj known known' (List.append_cancel_left same)
      obtain ⟨right, rests⟩ := ihRight _ _ _ _ second' (stops_closing _) (stops_closing _) behind
      refine ⟨?_, List.append_cancel_left rests⟩
      rw [Expr.outline, Expr.outline, operator, operator', left, right]
  | string starts =>
    intro e' code' rest rest' renders' stops stops' same
    obtain ⟨_, ⟨⟩, ⟨⟩⟩ := (Renders.string starts).same_front renders' stops stops' same
    cases renders' with
    | string starts' =>
      obtain ⟨rfl, rests⟩ := quote_append_inj same
      refine ⟨?_, rests⟩
      rw [Expr.outline, Expr.outline, starts, starts']
  | number starts number =>
    intro e' code' rest rest' renders' stops stops' same
    obtain ⟨_, ⟨⟩, ⟨⟩⟩ := (Renders.number starts number).same_front renders' stops stops' same
    cases renders' with
    | number starts' number' =>
      obtain ⟨rfl, rests⟩ := span_append_inj isRunByte number.run number'.run stops.endsRun
        stops'.endsRun same
      refine ⟨?_, rests⟩
      rw [Expr.outline, Expr.outline, starts, starts']
  | use kind named =>
    intro e' code' rest rest' renders' stops stops' same
    obtain ⟨_, ⟨⟩, ⟨⟩⟩ := (Renders.use kind named).same_front renders' stops stops' same
    cases renders' with
    | use kind' named' =>
      obtain ⟨words, rests⟩ := span_append_inj isRunByte named.isNameWord.bytes
        named'.isNameWord.bytes stops.endsRun stops'.endsRun same
      obtain ⟨names, -, marks⟩ := named.inj distinct named' words
      refine ⟨?_, rests⟩
      rw [Expr.outline, Expr.outline, marks, Token.unplaced, Token.unplaced, kind, kind', names]
  | call applies named inside ih =>
    intro e' code' rest rest' renders' stops stops' same
    obtain ⟨_, ⟨⟩, ⟨⟩⟩ := (Renders.call applies named inside).same_front renders' stops stops' same
    cases renders' with
    | call applies' named' inside' =>
      simp only [List.append_assoc] at same
      obtain ⟨words, same⟩ := span_append_inj isRunByte named.isNameWord.bytes
        named'.isNameWord.bytes (endsRun_opening _) (endsRun_opening _) same
      obtain ⟨names, rfl, marks⟩ := named.inj distinct named' words
      obtain ⟨arguments, same⟩ := ih _ _ _ _ inside' (closes_closing _) (closes_closing _)
        (List.append_cancel_left same)
      refine ⟨?_, List.append_cancel_left (List.append_cancel_left same)⟩
      rw [Expr.outline, Expr.outline, applies, applies', names, arguments, marks]
  | @list first elements inner starts inside ih =>
    intro e' code' rest rest' renders' stops stops' same
    obtain ⟨_, ⟨⟩, ⟨⟩⟩ := (Renders.list starts inside).same_front renders' stops stops' same
    cases renders' with
    | list starts' inside' =>
      simp only [List.append_assoc] at same
      obtain ⟨outlines, same⟩ := ih _ _ _ _ inside' (closes_brace _) (closes_brace _)
        (List.append_cancel_left same)
      refine ⟨?_, List.append_cancel_left same⟩
      have firsts : some _ = some _ := starts.symm.trans ((start?_congr outlines).trans starts')
      rw [Expr.outline, Expr.outline, Option.some.inj firsts, outlines]
  | none =>
    intro es' code' rest rest' renders' closes closes' same
    cases renders' with
    | none => exact ⟨rfl, same⟩
    | last only => exact absurd same (only.ne_of_closes closes'.stops closes)
    | more first others =>
      rw [List.append_assoc] at same
      exact absurd same (first.ne_of_closes (stops_comma _) closes)
  | last only ih =>
    intro es' code' rest rest' renders' closes closes' same
    cases renders' with
    | none => exact absurd same.symm (only.ne_of_closes closes.stops closes')
    | last only' =>
      obtain ⟨outlines, rests⟩ := ih _ _ _ _ only' closes.stops closes'.stops same
      exact ⟨congrArg (fun outline => [outline]) outlines, rests⟩
    | more first others =>
      rw [List.append_assoc, List.append_assoc] at same
      obtain ⟨-, rests⟩ := ih _ _ _ _ first closes.stops (stops_comma _) same
      exact absurd rests (closes.ne_comma _)
  | more first others ihFirst ihOthers =>
    intro es' code' rest rest' renders' closes closes' same
    rw [List.append_assoc, List.append_assoc] at same
    cases renders' with
    | none =>
      exact absurd same.symm (first.ne_of_closes (stops_comma _) closes')
    | last only' =>
      obtain ⟨-, rests⟩ := ihFirst _ _ _ _ only' (stops_comma _) closes'.stops same
      exact absurd rests.symm (closes'.ne_comma _)
    | more first' others' =>
      rw [List.append_assoc, List.append_assoc] at same
      obtain ⟨outline, same⟩ := ihFirst _ _ _ _ first' (stops_comma _)
        (stops_comma _) same
      obtain ⟨outlines, rests⟩ :=
        ihOthers _ _ _ _ others' closes closes' (List.append_cancel_left same)
      exact ⟨congrArg₂ List.cons outline outlines, rests⟩

end Renders

/-! ### The code of a clear expression -/

mutual

/-- **The tokens of the expression are those that its form asks for.** -/
def Expr.Genuine : Expr → Prop
  | .binary token op left right =>
    token.unplaced = .keyword op.keyword ∧ left.Genuine ∧ right.Genuine
  | .literal first kind text => (kind = .string ∨ kind = .number) ∧
      first.unplacedStart = Token.unplacedStart ⟨kind, text, .nowhere⟩
  | .use name _ => name.kind = .identifier
  | .call keyword _ arguments _ => keyword.unplaced = .keyword .apply ∧ exprsGenuine arguments
  | .list first elements =>
    elements.head?.bind Expr.start? = some first.unplacedStart ∧ exprsGenuine elements
  | .missing => False

/-- The tokens of the expressions are those that their forms ask for. -/
def exprsGenuine : List Expr → Prop
  | [] => True
  | e :: es => e.Genuine ∧ exprsGenuine es

end

namespace Act

/-- The mark of a name that is used or called. -/
def mark? : Act → Option Symbol
  | use _ mark | call _ _ mark => mark
  | _ => none

/-- A call without an argument of a builtin that needs one. -/
def isBare : Act → Bool
  | call callee count mark =>
    count == 0 && mark.any (·.builtin) && Builtin.needsArgument callee.lexeme
  | _ => false

/-- **The act is clear:** its mark is the builtin it is written as, with the arguments that this one
takes, or its name is one of the `Good` ones. -/
structure Clear (Good : Text → Prop) (act : Act) : Prop where
  fits : act.Fits
  marked : act.mark?.filter (·.builtin) = act.builtin?.map Builtin.symbol
  supplied : act.isBare = false
  good : act.builtin? = none → ∀ name ∈ act.reference?, Good name.lexeme

theorem Clear.named_use {Good : Text → Prop} {name : Token} {mark : Option Symbol}
    (clear : (use name mark).Clear Good) :
    Named Good name.lexeme mark (Builtin.standsFor? name.lexeme mark .value) where
  known _ found := ⟨(Builtin.eq_of_standsFor? found).1, (Builtin.eq_of_standsFor? found).2.1⟩
  good absent := clear.good absent name rfl
  marked := clear.marked

theorem Clear.named_call {Good : Text → Prop} {callee : Token} {count : Nat} {mark : Option Symbol}
    (clear : (call callee count mark).Clear Good) :
    Named Good callee.lexeme mark (Builtin.standsFor? callee.lexeme mark .function) where
  known _ found := ⟨(Builtin.eq_of_standsFor? found).1, (Builtin.eq_of_standsFor? found).2.1⟩
  good absent := clear.good absent callee rfl
  marked := clear.marked

/-- A builtin that is called has the argument it needs. -/
theorem Clear.needsArgument {Good : Text → Prop} {callee : Token} {count : Nat}
    {mark : Option Symbol} (clear : (call callee count mark).Clear Good) {b : Builtin}
    (found : Builtin.standsFor? callee.lexeme mark .function = some b) (bare : count = 0) :
    Builtin.needsArgument b.name = false := by
  have marked : mark.filter (·.builtin) = some b.symbol := by
    have same := clear.marked
    rwa [show (call callee count mark).builtin? = some b from found] at same
  obtain ⟨rfl, builtin⟩ := Option.filter_eq_some_iff.mp marked
  have supplied := clear.supplied
  rw [(Builtin.eq_of_standsFor? found).2.1]
  simpa [isBare, bare, builtin] using supplied

end Act

theorem code_use (name : Token) (mark : Option Symbol) :
    (Expr.use name mark).code =
      .ok (nameWord name.lexeme (Builtin.standsFor? name.lexeme mark .value)) := by
  rw [Expr.code]
  cases found : Builtin.standsFor? name.lexeme mark .value with
  | none => rfl
  | some b =>
    obtain ⟨known, -, value⟩ := Builtin.eq_of_standsFor? found
    exact congrArg Except.ok (Builtin.render_value known value)

theorem code_call {Good : Text → Prop} {keyword callee : Token} {arguments : List Expr}
    {mark : Option Symbol} {values : List Text}
    (clear : (Act.call callee arguments.length mark).Clear Good)
    (written : exprCodes arguments = .ok values) :
    (Expr.call keyword callee arguments mark).code =
      .ok (nameWord callee.lexeme (Builtin.standsFor? callee.lexeme mark .function) ++
        ("(" ++ (Text.join ", " values ++
          (")" ++ behindCall (Builtin.standsFor? callee.lexeme mark .function))))) := by
  have length := length_exprCodes written
  rw [Expr.code, written]
  cases found : Builtin.standsFor? callee.lexeme mark .function with
  | none =>
    refine congrArg Except.ok ?_
    simp only [nameWord, behindCall, List.append_assoc, List.append_nil]
  | some b =>
    obtain ⟨known, -, function⟩ := Builtin.eq_of_standsFor? found
    refine congrArg Except.ok (Builtin.render_function known function ?_ ?_)
    · rw [length]
      exact clear.fits callee _ mark rfl b found
    · rintro rfl
      exact clear.needsArgument found length.symm

mutual

/-- **A clear expression has code, which is written by the rules.** -/
theorem Expr.exists_renders {Good : Text → Prop} : ∀ e : Expr, e.Legible → e.Genuine →
    (∀ act ∈ e.acts, act.Clear Good) → ∃ code, e.code = .ok code ∧ Renders Good (.one e) code
  | .binary _ op left right, legible, genuine, clear => by
    obtain ⟨known, legibleLeft, legibleRight⟩ := legible
    obtain ⟨operator, genuineLeft, genuineRight⟩ := genuine
    obtain ⟨l, leftWritten, first⟩ := left.exists_renders legibleLeft genuineLeft
      fun act member => clear act (List.mem_append_left _ member)
    obtain ⟨r, rightWritten, second⟩ := right.exists_renders legibleRight genuineRight
      fun act member => clear act (List.mem_append_right _ member)
    refine ⟨_, ?_, .binary known operator first second⟩
    rw [Expr.code, leftWritten, rightWritten]
    refine congrArg Except.ok ?_
    simp only [List.append_assoc]
  | .literal first kind text, legible, ⟨kinds, starts⟩, _ => by
    rcases kinds with rfl | rfl
    · exact ⟨_, rfl, .string starts⟩
    · exact ⟨_, rfl, .number starts (legible.resolve_left (by decide))⟩
  | .use name mark, _, genuine, clear =>
    ⟨_, code_use name mark, .use genuine (clear (.use name mark) List.mem_cons_self).named_use⟩
  | .call _ callee arguments mark, legible, ⟨applies, genuine⟩, clear => by
    have called := clear (.call callee arguments.length mark) List.mem_cons_self
    obtain ⟨values, written, inside⟩ := exists_renders_exprs arguments legible genuine
      fun act member => clear act (List.mem_cons_of_mem _ member)
    exact ⟨_, code_call called written, .call applies called.named_call inside⟩
  | .list _ elements, legible, ⟨starts, genuine⟩, clear => by
    obtain ⟨values, written, inside⟩ := exists_renders_exprs elements legible genuine clear
    refine ⟨_, ?_, .list starts inside⟩
    rw [Expr.code, written]
    exact congrArg Except.ok (List.append_assoc _ _ _)

/-- Clear expressions have codes, and these are written with commas between them. -/
theorem exists_renders_exprs {Good : Text → Prop} : ∀ es : List Expr, exprsLegible es →
    exprsGenuine es → (∀ act ∈ exprActs es, act.Clear Good) →
    ∃ codes, exprCodes es = .ok codes ∧ Renders Good (.many es) (Text.join ", " codes)
  | [], _, _, _ => ⟨[], rfl, .none⟩
  | e :: es, ⟨legible, legibleRest⟩, ⟨genuine, genuineRest⟩, clear => by
    obtain ⟨code, written, first⟩ := e.exists_renders legible genuine
      fun act member => clear act (List.mem_append_left _ member)
    obtain ⟨codes, restWritten, rest⟩ := exists_renders_exprs es legibleRest genuineRest
      fun act member => clear act (List.mem_append_right _ member)
    refine ⟨code :: codes, by rw [exprCodes, written, restWritten]; rfl, ?_⟩
    have length := length_exprCodes restWritten
    cases es with
    | nil =>
      obtain rfl := List.length_eq_zero_iff.mp length
      rw [Text.join_singleton]
      exact .last first
    | cons next es =>
      obtain ⟨second, others, rfl⟩ := List.exists_cons_of_length_eq_add_one length
      rw [Text.join_cons_cons]
      exact .more first rest

end

end Guwen
