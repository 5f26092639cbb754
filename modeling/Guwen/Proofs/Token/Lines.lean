/-
**A line feed parts the tokens of a source.**

No piece but a string reaches past the end of a line, so two sources with a line feed between them
have the tokens of the first and then those of the second, further down.

* `Token.leavesOpen` — the scan ends inside a string that is never closed.
* `Token.munch_line` — what follows the end of a line does not change a piece before it.
* `Token.scanAfter_open` — a string that is left open goes on behind the line feed.
* `Token.down` — a token so many lines further down.
* **`Token.tokenize_line`** — the tokens of two sources with a line feed between them.
* **`Token.tokenize_parts_iff`** — they are parted there just when no string is left open.
-/
import Guwen.Proofs.Token.Partition

namespace Guwen

namespace Token

/-! ### A piece before the end of a line -/

section Piece

variable (cs rest : List Char)

theorem takeWhile_line {p : Char → Bool} (stops : p '\n' = false) :
    (cs ++ '\n' :: rest).takeWhile p = cs.takeWhile p := by
  induction cs with
  | nil => rw [List.nil_append, List.takeWhile_cons_of_neg (by simp [stops]), List.takeWhile_nil]
  | cons c cs ih =>
    by_cases here : p c = true
    · rw [List.cons_append, List.takeWhile_cons_of_pos here, List.takeWhile_cons_of_pos here, ih]
    · rw [List.cons_append, List.takeWhile_cons_of_neg here, List.takeWhile_cons_of_neg here]

theorem dropWhile_line {p : Char → Bool} (stops : p '\n' = false) :
    (cs ++ '\n' :: rest).dropWhile p = cs.dropWhile p ++ '\n' :: rest := by
  induction cs with
  | nil => rw [List.nil_append, List.dropWhile_cons_of_neg (by simp [stops]), List.dropWhile_nil,
      List.nil_append]
  | cons c cs ih =>
    by_cases here : p c = true
    · rw [List.cons_append, List.dropWhile_cons_of_pos here, List.dropWhile_cons_of_pos here, ih]
    · rw [List.cons_append, List.dropWhile_cons_of_neg here, List.dropWhile_cons_of_neg here,
        List.cons_append]

theorem numberTail_line : numberTail (cs ++ '\n' :: rest) = numberTail cs := by
  have no_digit : isDigit '\n' = false := by decide
  unfold numberTail
  dsimp only
  rw [takeWhile_line cs rest no_digit, dropWhile_line cs rest no_digit]
  match cs.dropWhile isDigit with
  | [] => rfl
  | [c] =>
    by_cases point : c = '.'
    · subst point
      rfl
    · simp [point]
  | c :: d :: left =>
    by_cases point : c = '.'
    · subst point
      simp only [List.cons_append, takeWhile_line left rest no_digit]
    · simp [point]

/-- No keyword holds a line feed. -/
theorem kind?_eq_none {cs : List Char} (feed : '\n' ∈ cs) : Lexicon.kind? cs = none := by
  cases found : Lexicon.kind? cs with
  | none => rfl
  | some kind =>
    obtain ⟨word, entry, rfl⟩ := mem_entries_of_kind? found
    have others : ∀ entry ∈ Lexicon.entries, '\n' ∉ entry.1.toList := by decide
    exact absurd feed (others _ entry)

variable {cs} in
/-- A keyword alone is found, whatever longer ones are tried first. -/
theorem longestUpTo?_of_kind? {kind : TokenKind} (found : Lexicon.kind? cs = some kind)
    {length : Nat} (long : cs.length ≤ length) :
    Lexicon.longestUpTo? cs length = some (cs, kind) := by
  cases length with
  | zero =>
    rw [List.length_eq_zero_iff.mp (Nat.le_zero.mp long)] at found
    cases found
  | succ length =>
    unfold Lexicon.longestUpTo?
    rw [List.take_of_length_le long, found]

theorem longestUpTo?_line (length : Nat) :
    Lexicon.longestUpTo? (cs ++ '\n' :: rest) length = Lexicon.longestUpTo? cs length := by
  induction length with
  | zero => rfl
  | succ length ih =>
    unfold Lexicon.longestUpTo?
    by_cases short : length + 1 ≤ cs.length
    · rw [List.take_append_of_le_length short, ih]
    · have feed : '\n' ∈ (cs ++ '\n' :: rest).take (length + 1) := by
        rw [List.take_append, List.mem_append]
        refine .inr ?_
        rw [show length + 1 - cs.length = length - cs.length + 1 by omega, List.take_succ_cons]
        exact List.mem_cons_self
      have long : cs.length ≤ length + 1 := by omega
      rw [kind?_eq_none feed, ih, List.take_of_length_le long]
      cases found : Lexicon.kind? cs with
      | none => rfl
      | some kind => exact longestUpTo?_of_kind? found (by omega)

theorem munchHan_line (c : Char) : munchHan c (cs ++ '\n' :: rest) = munchHan c cs := by
  unfold munchHan Lexicon.longest?
  rw [← List.cons_append, longestUpTo?_line (c :: cs) rest]

variable {cs} in
/-- A string that is closed ends there. -/
theorem munchString_line (closed : '」' ∈ cs) :
    munchString (cs ++ '\n' :: rest) = munchString cs := by
  have front := List.takeWhile_prefix (· != '」') (l := cs)
  have shorter : (cs.takeWhile (· != '」')).length < cs.length := by
    refine Nat.lt_of_le_of_ne front.length_le fun same => ?_
    rw [← front.eq_of_length same] at closed
    simpa using List.mem_takeWhile_imp closed
  unfold munchString
  rw [List.takeWhile_append, if_neg shorter.ne]
  dsimp only
  rw [if_pos shorter, if_pos (by rw [List.length_append]; omega)]

variable {cs} in
/-- **What follows the end of a line does not change a piece before it,** unless the piece is a
string that is not closed before. -/
theorem munch_line {c : Char} (closed : c = '「' → '」' ∈ cs) :
    munch c (cs ++ '\n' :: rest) = munch c cs := by
  have second : ((cs ++ '\n' :: rest).head? == some '/') = (cs.head? == some '/') := by
    cases cs <;> rfl
  unfold munch
  rw [second, takeWhile_line cs rest rfl, takeWhile_line cs rest (by decide),
    numberTail_line, munchHan_line]
  by_cases quote : c = '「'
  · rw [munchString_line rest (closed quote)]
  · rw [if_neg (show ¬ (c == '「') = true by simpa using quote),
      if_neg (show ¬ (c == '「') = true by simpa using quote)]

end Piece

/-! ### The scan up to the end of a line -/

/-- **The scan ends inside a string** that is never closed. -/
def leavesOpen : Nat → List Char → Bool
  | _, [] => false
  | pending + 1, _ :: cs => leavesOpen pending cs
  | 0, c :: cs => (c == '「' && !cs.contains '」') || leavesOpen (munch c cs).more cs

theorem scanAfter_ne_nil (pending : Nat) (p : Position) (cs : List Char) :
    scanAfter pending p cs ≠ [] := by
  induction cs generalizing pending p with
  | nil => cases pending <;> exact List.cons_ne_nil _ _
  | cons c cs ih =>
    cases pending with
    | succ pending => exact ih pending (p.after c)
    | zero => exact List.append_ne_nil_of_right_ne_nil _ (ih _ _)

theorem scanAfter_line {pending : Nat} {cs : List Char} (within : pending ≤ cs.length)
    (closed : leavesOpen pending cs = false) (p : Position) (rest : List Char) :
    scanAfter pending p (cs ++ '\n' :: rest) =
      (scanAfter pending p cs).dropLast ++ scanAfter 0 ((p.past cs).after '\n') rest := by
  induction cs generalizing pending p with
  | nil =>
    cases Nat.le_zero.mp within
    rfl
  | cons c cs ih =>
    cases pending with
    | succ pending => exact ih (Nat.le_of_succ_le_succ within) closed (p.after c)
    | zero =>
      obtain ⟨shut, later⟩ := Bool.or_eq_false_iff.mp closed
      have same : munch c (cs ++ '\n' :: rest) = munch c cs := by
        refine munch_line rest fun quote => ?_
        simpa [quote] using shut
      have some_token := scanAfter_ne_nil (munch c cs).more (p.after c) cs
      rw [List.cons_append, scanAfter, same, ih (munch_more_le c cs) later, scanAfter,
        List.dropLast_append_of_ne_nil some_token, List.append_assoc]
      rfl

/-- A string that is never closed takes all the rest. -/
theorem munch_unclosed {cs : List Char} (unclosed : '」' ∉ cs) :
    munch '「' cs = ⟨cs.length, some (.string, cs)⟩ := by
  have body : cs.takeWhile (· != '」') = cs := by
    refine List.takeWhile_eq_self_iff.mpr fun d member => bne_iff_ne.mpr ?_
    rintro rfl
    exact unclosed member
  show munchString cs = _
  unfold munchString
  rw [body]
  dsimp only
  rw [if_neg (Nat.lt_irrefl _)]

/-- **A string that is never closed is the last token before the end,** and with a line feed and
more behind the source it goes on there, up to the first closing quote. -/
theorem scanAfter_open {pending : Nat} {cs : List Char} (opened : leavesOpen pending cs = true)
    (p : Position) : ∃ before body q,
      scanAfter pending p cs =
        before ++ [⟨.string, Text.ofChars body, q⟩, ⟨.eof, [], p.past cs⟩] ∧
      ∀ rest, ∃ more, scanAfter pending p (cs ++ '\n' :: rest) = before ++
        ⟨.string, Text.ofChars (body ++ '\n' :: rest.takeWhile (· != '」')), q⟩ :: more := by
  induction cs generalizing pending p with
  | nil => cases pending <;> cases opened
  | cons c cs ih =>
    cases pending with
    | succ pending => exact ih opened (p.after c)
    | zero =>
      by_cases here : c = '「' ∧ '」' ∉ cs
      · obtain ⟨rfl, unclosed⟩ := here
        refine ⟨[], cs, p, ?_, fun rest => ?_⟩
        · rw [scanAfter, munch_unclosed unclosed, scanAfter_length]
          rfl
        · have body : (cs ++ '\n' :: rest).takeWhile (· != '」') =
              cs ++ '\n' :: rest.takeWhile (· != '」') := by
            rw [List.takeWhile_append_of_pos, List.takeWhile_cons_of_pos (by decide)]
            intro d member
            refine bne_iff_ne.mpr ?_
            rintro rfl
            exact unclosed member
          rw [← body]
          exact ⟨_, rfl⟩
      · -- The piece ends before the source does, so the open string is found behind it.
        have closed : c = '「' → '」' ∈ cs := fun quote =>
          Classical.not_not.mp fun unclosed => here ⟨quote, unclosed⟩
        have later : leavesOpen (munch c cs).more cs = true := by
          refine (Bool.or_eq_true_iff.mp opened).resolve_left fun first => ?_
          obtain ⟨quote, unclosed⟩ := Bool.and_eq_true_iff.mp first
          exact here ⟨eq_of_beq quote, by simpa using unclosed⟩
        obtain ⟨before, body, q, scanned, extended⟩ := ih later (p.after c)
        refine ⟨((munch c cs).tokenAt p).toList ++ before, body, q, ?_, fun rest => ?_⟩
        · rw [scanAfter, scanned, List.append_assoc]
          rfl
        · obtain ⟨more, all⟩ := extended rest
          refine ⟨more, ?_⟩
          rw [List.cons_append, scanAfter, munch_line rest closed, all, List.append_assoc]

theorem exists_string_of_leavesOpen {pending : Nat} {cs : List Char}
    (opened : leavesOpen pending cs = true) (p : Position) :
    ∃ t ∈ (scanAfter pending p cs).dropLast.getLast?, t.kind = .string := by
  obtain ⟨before, body, q, scanned, -⟩ := scanAfter_open opened p
  refine ⟨⟨.string, Text.ofChars body, q⟩, ?_, rfl⟩
  rw [scanned, List.dropLast_append_of_ne_nil (List.cons_ne_nil _ _), List.getLast?_append]
  rfl

/-! ### Further down -/

end Token

/-- The place so many lines further down. -/
def Position.down (n : Int) (p : Position) : Position := ⟨p.line + n, p.column⟩

/-- **The token so many lines further down.** -/
def Token.down (n : Int) (t : Token) : Token := { t with position := t.position.down n }

theorem Position.after_down (n : Int) (p : Position) (c : Char) :
    (p.down n).after c = (p.after c).down n := by
  unfold Position.after Position.down
  split
  · rw [Int.add_right_comm]
  · rfl

/-- Behind some characters one is as many lines further down as there are line feeds. -/
theorem Position.line_past (p : Position) (cs : List Char) :
    (p.past cs).line = p.line + cs.count '\n' := by
  induction cs generalizing p with
  | nil => exact (Int.add_zero p.line).symm
  | cons c cs ih =>
    rw [Position.past, List.foldl_cons, ← Position.past, ih, List.count_cons]
    unfold Position.after
    by_cases feed : c = '\n'
    · simp only [feed, if_pos, beq_self_eq_true]
      omega
    · simp [feed]

namespace Token

theorem scanAfter_down (n : Int) (pending : Nat) (p : Position) (cs : List Char) :
    scanAfter pending (p.down n) cs = (scanAfter pending p cs).map (down n) := by
  induction cs generalizing pending p with
  | nil => cases pending <;> rfl
  | cons c cs ih =>
    cases pending with
    | succ pending =>
      rw [scanAfter, scanAfter, Position.after_down]
      exact ih pending (p.after c)
    | zero =>
      have here : (munch c cs).tokenAt (p.down n) = ((munch c cs).tokenAt p).map (down n) := by
        unfold Munch.tokenAt
        rw [Option.map_map]
        rfl
      rw [scanAfter, scanAfter, Position.after_down, ih, here, List.map_append,
        Option.toList_map]

/-- **The tokens of two sources with a line feed between them:** those of the first without its end,
and those of the second, further down. -/
theorem tokenize_line {a : Text} (closed : leavesOpen 0 a.chars = false) (b : Text) :
    tokenize (a ++ 10 :: b) = (tokenize a).dropLast ++
      (tokenize b).map (down (a.chars.count '\n' + 1)) := by
  have behind : (Position.start.past a.chars).after '\n' =
      Position.start.down (a.chars.count '\n' + 1) := by
    have line := Position.line_past .start a.chars
    unfold Position.after Position.down
    rw [if_pos rfl, line, Int.add_assoc]
    rfl
  unfold tokenize scan
  rw [Text.chars_append_line, scanAfter_line (Nat.zero_le _) closed, behind, scanAfter_down]

/-- **A line feed parts the tokens of two sources just when the first leaves no string open.** Then
there are the tokens of the first without its end, and those of the second, as many lines further
down as the first has line feeds, and one more. A string left open takes up the line feed. -/
theorem tokenize_parts_iff (a b : Text) :
    tokenize (a ++ 10 :: b) = (tokenize a).dropLast ++
      (tokenize b).map (down (a.chars.count '\n' + 1)) ↔ leavesOpen 0 a.chars = false := by
  constructor
  · intro parted
    refine Bool.eq_false_iff.mpr fun opened => ?_
    obtain ⟨before, body, q, scanned, extended⟩ := scanAfter_open opened .start
    obtain ⟨more, all⟩ := extended b.chars
    unfold tokenize scan at parted
    rw [Text.chars_append_line, all, scanned,
      List.dropLast_append_of_ne_nil (List.cons_ne_nil _ _), List.append_assoc] at parted
    -- Behind the same tokens stands the open string, on the left with the line feed in it.
    have same := congrArg Token.lexeme (List.cons_eq_cons.mp (List.append_cancel_left parted)).1
    have longer := congrArg (fun text : Text => text.chars.length) same
    simp [Text.chars_ofChars] at longer
  · exact fun closed => tokenize_line closed b

/-- A quote in a comment opens no string, and one inside a string neither. -/
example : leavesOpen 0 "「甲「」//「".toList = false ∧ leavesOpen 0 "「甲」「//」「".toList = true := by
  decide

end Token

end Guwen
