/-
**The pieces of a text between marks, and joining texts.**

A text is cut at each occurrence of a mark by `List.splitOn`.

* `Text.not_mem_of_mem_splitOn` — no piece holds the mark.
* `Text.splitOn_eq_takeWhile` — the first piece ends at the first mark.
* `Text.exists_splitOn_left`, `Text.exists_splitOn_right` — what holds no mark belongs to one piece.
* `Text.join_rel`, `Text.join_good` — what holds of pieces one behind another holds of their
  joining.
-/
import Guwen.Text
import Mathlib.Data.List.Forall2

namespace Guwen

namespace Text

variable {mark : UInt8}

/-- **The first piece ends at the first mark,** and the other pieces are those of what follows. -/
theorem splitOn_eq_takeWhile (t : Text) :
    List.splitOn mark t = t.takeWhile (· != mark) ::
      (if mark ∈ t then List.splitOn mark (t.dropWhile (· != mark)).tail else []) := by
  induction t with
  | nil => rfl
  | cons b t ih =>
    rw [List.splitOn_cons_eq_if_modifyHead]
    by_cases here : b = mark
    · rw [if_pos (beq_iff_eq.mpr here), List.takeWhile_cons_of_neg (by simpa using here),
        List.dropWhile_cons_of_neg (by simpa using here), List.tail_cons,
        if_pos (here ▸ List.mem_cons_self)]
    · have later : mark ∈ b :: t ↔ mark ∈ t :=
        List.mem_cons.trans (or_iff_right (Ne.symm here))
      rw [if_neg (by simpa using here), ih, List.takeWhile_cons_of_pos (by simpa using here),
        List.dropWhile_cons_of_pos (by simpa using here)]
      simp only [later, List.modifyHead_cons]

/-- **No piece holds the mark.** -/
theorem not_mem_of_mem_splitOn {t piece : Text} (member : piece ∈ List.splitOn mark t) :
    mark ∉ piece := by
  induction t generalizing piece with
  | nil =>
    rw [List.mem_singleton.mp member]
    exact List.not_mem_nil
  | cons b t ih =>
    rw [List.splitOn_cons_eq_if_modifyHead] at member
    by_cases here : b = mark
    · rw [if_pos (beq_iff_eq.mpr here)] at member
      rcases List.mem_cons.mp member with rfl | later
      · exact List.not_mem_nil
      · exact ih later
    · rw [if_neg (by simpa using here)] at member
      obtain ⟨first, rest, pieces⟩ := List.exists_cons_of_ne_nil (List.splitOn_ne_nil mark t)
      rw [pieces] at member ih
      rcases List.mem_cons.mp member with rfl | later
      · exact List.not_mem_cons_of_ne_of_not_mem (Ne.symm here) (ih List.mem_cons_self)
      · exact ih (List.mem_cons_of_mem first later)

/-- A text without the mark goes to the first piece of what follows it. -/
theorem exists_splitOn_left {l : Text} (free : mark ∉ l) (t : Text) :
    ∃ piece pieces, List.splitOn mark t = piece :: pieces ∧
      List.splitOn mark (l ++ t) = (l ++ piece) :: pieces := by
  obtain ⟨piece, pieces, same⟩ := List.exists_cons_of_ne_nil (List.splitOn_ne_nil mark t)
  refine ⟨piece, pieces, same, ?_⟩
  induction l with
  | nil => exact same
  | cons b l ih =>
    obtain ⟨first, later⟩ := not_or.mp (mt List.mem_cons.mpr free)
    rw [List.cons_append, List.splitOn_cons_eq_if_modifyHead, if_neg (by simpa using Ne.symm first),
      ih later]
    rfl

/-- A text without the mark goes to the last piece of what stands before it. -/
theorem exists_splitOn_right {r : Text} (free : mark ∉ r) (t : Text) :
    ∃ pieces piece, List.splitOn mark t = pieces ++ [piece] ∧
      List.splitOn mark (t ++ r) = pieces ++ [piece ++ r] := by
  induction t with
  | nil => exact ⟨[], [], rfl, List.splitOn_eq_singleton free⟩
  | cons b t ih =>
    obtain ⟨pieces, piece, same, behind⟩ := ih
    rw [List.cons_append, List.splitOn_cons_eq_if_modifyHead, List.splitOn_cons_eq_if_modifyHead,
      same, behind]
    by_cases here : b = mark
    · rw [if_pos (beq_iff_eq.mpr here), if_pos (beq_iff_eq.mpr here)]
      exact ⟨[] :: pieces, piece, rfl, rfl⟩
    · rw [if_neg (by simpa using here), if_neg (by simpa using here)]
      cases pieces with
      | nil => exact ⟨[], b :: piece, rfl, rfl⟩
      | cons first pieces => exact ⟨(b :: first) :: pieces, piece, rfl, rfl⟩

theorem join_singleton (separator t : Text) : join separator [t] = t := List.append_nil t

theorem join_cons_cons (separator first second : Text) (rest : List Text) :
    join separator (first :: second :: rest) =
      first ++ (separator ++ join separator (second :: rest)) := by
  simp [join, List.intercalate]

/-- **What texts have one behind another, their joining has.** -/
theorem join_rel {α : Type} {Good : Text → List α → Prop} {separator : Text} (none : Good [] [])
    (behind : ∀ {t u : Text} {xs ys : List α}, Good t xs → Good u ys →
      Good (t ++ (separator ++ u)) (xs ++ ys)) {pieces : List Text} {xss : List (List α)}
    (members : List.Forall₂ Good pieces xss) : Good (join separator pieces) xss.flatten := by
  induction members with
  | nil => exact none
  | @cons piece xs pieces xss first rest ih =>
    cases pieces with
    | nil =>
      cases rest
      rw [join_singleton, List.flatten_singleton]
      exact first
    | cons second pieces =>
      rw [join_cons_cons, List.flatten_cons]
      exact behind first ih

theorem join_good {Good : Text → Prop} {separator : Text} (none : Good [])
    (behind : ∀ {t u : Text}, Good t → Good u → Good (t ++ (separator ++ u)))
    {pieces : List Text} (members : ∀ piece ∈ pieces, Good piece) :
    Good (join separator pieces) := by
  induction pieces with
  | nil => exact none
  | cons piece pieces ih =>
    obtain ⟨first, rest⟩ := List.forall_mem_cons.mp members
    cases pieces with
    | nil =>
      rw [join_singleton]
      exact first
    | cons second pieces =>
      rw [join_cons_cons]
      exact behind first (ih rest)

end Text

end Guwen
