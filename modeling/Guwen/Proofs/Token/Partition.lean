/-
**The tokens of a source are its spans: nothing is lost, and nothing is read twice.**

* `Position.past` — the place behind some characters.
* `Token.Partition p source tokens` — from the place `p` on, the source is cut into pieces without a
  rest: white space and comments, which give nothing, and one span for each token, in order, which
  stands at the token's place.
* **`Token.scanAfter_partition`** — the scan of any characters is such a partition.
* **`Token.tokenize_lossless`** — the tokens of every source are.
-/
import Guwen.Proofs.Token.Spelling

namespace Guwen

/-- The place behind some characters. -/
def Position.past (p : Position) (cs : List Char) : Position := cs.foldl Position.after p

namespace Token

/-- **The source is cut into gaps and the spans of the tokens,** from the place `p` on. -/
inductive Partition : Position → List Char → List Token → Prop where
  /-- At the end of the source stands the end token. -/
  | ends (p : Position) : Partition p [] [⟨.eof, [], p⟩]
  /-- White space or a comment. -/
  | gap {p : Position} {piece rest : List Char} {tokens : List Token}
      (passed : Piece none piece rest) (more : Partition (p.past piece) rest tokens) :
      Partition p (piece ++ rest) tokens
  /-- The span of a token. -/
  | span {p : Position} {kind : TokenKind} {lexeme piece rest : List Char} {tokens : List Token}
      (taken : Piece (some (kind, lexeme)) piece rest)
      (more : Partition (p.past piece) rest tokens) :
      Partition p (piece ++ rest) (⟨kind, Text.ofChars lexeme, p⟩ :: tokens)

/-! ### One step of the scan -/

/-- Characters that belong to a piece already taken are passed. -/
theorem scanAfter_append (p : Position) (piece rest : List Char) :
    scanAfter piece.length p (piece ++ rest) = scanAfter 0 (p.past piece) rest := by
  induction piece generalizing p with
  | nil => rfl
  | cons c piece ih => exact ih (p.after c)

theorem scanAfter_length (p : Position) (cs : List Char) :
    scanAfter cs.length p cs = [⟨.eof, [], p.past cs⟩] := by
  have passed := scanAfter_append p cs []
  rwa [List.append_nil] at passed

/-- **One step of the scan:** a piece is taken off the front, with its token, and the scan goes on
behind it. -/
theorem scanAfter_step (p : Position) (c : Char) (cs : List Char) :
    ∃ piece rest, c :: cs = piece ++ rest ∧ piece ≠ [] ∧ Piece (munch c cs).token? piece rest ∧
      scanAfter 0 p (c :: cs) =
        ((munch c cs).tokenAt p).toList ++ scanAfter 0 (p.past piece) rest := by
  obtain ⟨piece, rest, split, length, taken⟩ := munch_takes c cs
  cases piece with
  | nil => cases length
  | cons first more =>
    rw [List.cons_append] at split
    obtain ⟨rfl, rfl⟩ := List.cons_eq_cons.mp split
    refine ⟨c :: more, rest, rfl, List.cons_ne_nil c more, taken, ?_⟩
    rw [scanAfter, ← Nat.succ.inj length, scanAfter_append]
    rfl

/-! ### The whole scan -/

/-- **The scan of any characters is a partition of them.** -/
theorem scanAfter_partition (p : Position) (cs : List Char) :
    Partition p cs (scanAfter 0 p cs) := by
  -- By the length of what is left: every step takes a character.
  induction left : cs.length using Nat.strong_induction_on generalizing p cs with
  | _ length ih =>
    subst left
    cases cs with
    | nil => exact .ends p
    | cons c cs =>
      obtain ⟨piece, rest, split, some_piece, taken, scanned⟩ := scanAfter_step p c cs
      have shorter : rest.length < (c :: cs).length := by
        have taken := List.length_pos_iff.mpr some_piece
        rw [split, List.length_append]
        omega
      have more := ih _ shorter (p.past piece) rest rfl
      rw [scanned, split]
      unfold Munch.tokenAt
      cases given : (munch c cs).token? with
      | none =>
        rw [given] at taken
        exact .gap taken more
      | some both =>
        rw [given] at taken
        exact .span taken more

/-! ### Reading a partition -/

theorem ofChars_ne_nil {cs : List Char} (some_char : cs ≠ []) : Text.ofChars cs ≠ [] := by
  intro empty
  have none := Text.chars_ofChars cs
  rw [empty] at none
  exact some_char none.symm

/-- The tokens of a partition end with the only end token; none is an opening quote, and only a
string may be empty. -/
theorem Partition.tokens {p : Position} {cs : List Char} {tokens : List Token}
    (cut : Partition p cs tokens) : ∃ words, tokens = words ++ [⟨.eof, [], p.past cs⟩] ∧
      ∀ t ∈ words, t.kind ≠ .eof ∧ t.kind ≠ .openQuote ∧ (t.kind ≠ .string → t.lexeme ≠ []) := by
  induction cut with
  | ends p => exact ⟨[], rfl, fun t member => absurd member List.not_mem_nil⟩
  | gap passed more ih =>
    obtain ⟨words, rfl, others⟩ := ih
    exact ⟨words, by simp [Position.past], others⟩
  | @span p kind lexeme piece rest tokens taken more ih =>
    obtain ⟨words, rfl, others⟩ := ih
    refine ⟨⟨kind, Text.ofChars lexeme, p⟩ :: words, by simp [Position.past], fun t member => ?_⟩
    rcases List.mem_cons.mp member with rfl | later
    · cases taken with
      | closed | unclosed =>
        exact ⟨TokenKind.noConfusion, TokenKind.noConfusion, fun other => absurd rfl other⟩
      | word form => exact ⟨form.kind_ne.1, form.kind_ne.2.2, fun _ => ofChars_ne_nil form.ne_nil⟩
    · exact others t later

/-- **The tokens of a source are a partition of its characters:** each stands at the beginning of
its span, and between the spans there is only white space and comments. The list ends with its only
end token, which is empty and stands behind the last character. -/
theorem tokenize_lossless (source : Text) :
    Partition .start source.chars (tokenize source) ∧
      ∃ words, tokenize source = words ++ [⟨.eof, [], Position.start.past source.chars⟩] ∧
        ∀ t ∈ words, t.kind ≠ .eof ∧ t.kind ≠ .openQuote ∧ (t.kind ≠ .string → t.lexeme ≠ []) := by
  have cut := scanAfter_partition .start source.chars
  exact ⟨cut, cut.tokens⟩

end Token

end Guwen
