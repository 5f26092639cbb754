/-
**Clean paths: what is left of a path once it is made absolute.**

The elements of a clean path are names, and the path of some names splits into them again. So a
clean path is followed name by name, and leads to the file that the names say; and a change of its
extension is a change of the last of them.

* `Path.IsName` — what can stand between slashes; `Path.isName_of_mem` — every element of a clean
  path is a name.
* `Path.Splits` — a name is a stem and an extension, which starts at the last dot.
* **`Path.withExtension_ofElements`** — another extension is another last name.
* **`Directory.eq_of_leads`** — a clean path leads to the file of its own names.
-/
import Guwen.Proofs.Command.Files
import Guwen.Proofs.Text.Split

namespace Guwen

namespace Path

/-! ### Names -/

/-- **What can stand between slashes,** as the name of a file or a directory. -/
structure IsName (name : Text) : Prop where
  given : name ≠ []
  no_here : name ≠ here
  no_above : name ≠ above
  no_slash : slash ∉ name

/-- **The elements of a clean path are names.** -/
theorem isName_of_mem {path element : Text} (member : element ∈ elements path) :
    IsName element := by
  refine List.foldlRecOn (motive := fun sofar => ∀ name ∈ sofar, IsName name) _ _ ?_ ?_ element
    member
  · exact fun _ none => absurd none List.not_mem_nil
  · intro sofar names piece inside
    split
    · exact names
    split
    · exact fun name kept => names name (List.dropLast_subset _ kept)
    · rename_i shows stays
      simp only [Bool.or_eq_true, List.isEmpty_iff, beq_iff_eq, not_or] at shows stays
      refine List.forall_mem_append.mpr ⟨names, fun name last => ?_⟩
      rw [List.mem_singleton.mp last]
      exact ⟨shows.1, shows.2, stays, Text.not_mem_of_mem_splitOn inside⟩

theorem ofElements_eq {names : List Text} (given : names ≠ []) :
    ofElements names = names.flatMap fun name => slash :: name := by
  induction names with
  | nil => exact absurd rfl given
  | cons name names ih =>
    cases names with
    | nil =>
      rw [ofElements, List.flatMap_singleton]
      exact congrArg (slash :: ·) (List.append_nil name)
    | cons next names =>
      rw [List.flatMap_cons, ← ih (List.cons_ne_nil _ _), ofElements, Text.join_cons_cons]
      rfl

/-- The path of some names splits into them, behind the empty piece before the first slash. -/
theorem split_ofElements {names : List Text} (given : names ≠ [])
    (free : ∀ name ∈ names, slash ∉ name) :
    List.splitOn slash (ofElements names) = [] :: names := by
  rw [ofElements, Text.join, List.singleton_append, List.splitOn_cons_eq_if_modifyHead,
    if_pos (beq_self_eq_true slash), List.splitOn_intercalate slash free given]

/-! ### Extensions -/

/-- **A name is a stem and an extension:** the last dot and what follows it, or nothing when there
is no dot. -/
inductive Splits : Text → Text → Text → Prop where
  | dotted {stem tail : Text} (last : dot ∉ tail) : Splits (stem ++ dot :: tail) stem (dot :: tail)
  | plain {name : Text} (none : dot ∉ name) : Splits name name []

theorem exists_splits (name : Text) : ∃ stem extension, Splits name stem extension := by
  by_cases dotted : dot ∈ name
  · obtain ⟨tail, stem, same, last⟩ := List.eq_append_cons_of_mem (List.mem_reverse.mpr dotted)
    have whole : name = stem.reverse ++ dot :: tail.reverse := by
      rw [← name.reverse_reverse, same, List.reverse_append, List.reverse_cons, List.append_assoc,
        List.singleton_append]
    rw [whole]
    exact ⟨_, _, .dotted (mt List.mem_reverse.mp last)⟩
  · exact ⟨name, [], .plain dotted⟩

namespace Splits

variable {name stem extension : Text}

theorem eq_append (splits : Splits name stem extension) : name = stem ++ extension := by
  cases splits with
  | dotted => rfl
  | plain => exact (List.append_nil name).symm

/-- What stands before the extension is all that is kept. -/
theorem withoutExtension_eq (splits : Splits name stem extension) (no_slash : slash ∉ name)
    (before : Text) : withoutExtension (before ++ slash :: name) = before ++ slash :: stem := by
  have free : ∀ {mark : UInt8} {t : Text}, mark ∉ t → ∀ b ∈ t.reverse, (b != mark) = true := by
    intro mark t absent b member
    refine bne_iff_ne.mpr ?_
    rintro rfl
    exact absent (List.mem_reverse.mp member)
  have last : (before ++ slash :: name).reverse.takeWhile (· != slash) = name.reverse := by
    rw [List.reverse_append, List.reverse_cons, List.append_assoc, List.singleton_append,
      List.takeWhile_append_of_pos (free no_slash), List.takeWhile_cons_of_neg (by simp),
      List.append_nil]
  unfold withoutExtension
  dsimp only
  rw [last]
  cases splits with
  | plain none => rw [if_neg (by simpa using none)]
  | @dotted _ tail none =>
    have behind : (stem ++ dot :: tail).reverse.takeWhile (· != dot) = tail.reverse := by
      rw [List.reverse_append, List.reverse_cons, List.append_assoc, List.singleton_append,
        List.takeWhile_append_of_pos (free none), List.takeWhile_cons_of_neg (by simp),
        List.append_nil]
    have parts : before ++ slash :: (stem ++ dot :: tail) =
        (before ++ slash :: stem) ++ dot :: tail := by
      rw [List.append_assoc, List.cons_append]
    rw [if_pos (by simp), behind, parts]
    refine List.take_left' ?_
    simp only [List.length_append, List.length_cons, List.length_reverse]
    omega

end Splits

/-- **Another extension is another last name.** -/
theorem withExtension_ofElements {name stem old : Text} (splits : Splits name stem old)
    (no_slash : slash ∉ name) (front : List Text) (extension : Text) :
    withExtension (ofElements (front ++ [name])) extension =
      ofElements (front ++ [stem ++ extension]) := by
  have last : ∀ name : Text, ofElements (front ++ [name]) =
      (front.flatMap fun name => slash :: name) ++ slash :: name := by
    intro name
    rw [ofElements_eq (List.append_ne_nil_of_right_ne_nil front (List.cons_ne_nil _ _)),
      List.flatMap_append, List.flatMap_singleton]
  rw [withExtension, last, splits.withoutExtension_eq no_slash, last, List.append_assoc,
    List.cons_append]

end Path

/-! ### Following a clean path -/

namespace Directory

variable {d : Directory} {names : List Text}

/-- **One step along a clean path:** into a directory, or to a file at its end, there or not. -/
theorem walk_cons {start rest : List Text} {name : Text} {place : Place} (clean : Path.IsName name)
    (walked : d.walk start (name :: rest) = .ok place) :
    d.walk (start ++ [name]) rest = .ok place ∨
      rest = [] ∧ (place = .vacant (start ++ [name]) ∨ ∃ content,
        d.file? (start ++ [name]) = some content ∧ place = .file (start ++ [name]) content) := by
  unfold walk at walked
  rw [if_neg (by simp [clean.given, clean.no_here]), if_neg (by simp [clean.no_above])] at walked
  dsimp only at walked
  split at walked
  · exact .inl walked
  split at walked
  · cases walked
  split at walked
  · cases walked
  split at walked
  · rename_i content found last
    cases walked
    exact .inr ⟨List.isEmpty_iff.mp last, .inr ⟨content, found, rfl⟩⟩
  · rename_i last
    cases walked
    exact .inr ⟨List.isEmpty_iff.mp last, .inl rfl⟩
  · cases walked
  · cases walked

/-- **What a clean path ends at:** the file of its names, there or not, or a directory. -/
theorem walk_clean {rest start : List Text} {place : Place}
    (clean : ∀ name ∈ rest, Path.IsName name) (walked : d.walk start rest = .ok place) :
    place = .directory ∨ rest ≠ [] ∧ (place = .vacant (start ++ rest) ∨ ∃ content,
      d.file? (start ++ rest) = some content ∧ place = .file (start ++ rest) content) := by
  induction rest generalizing start with
  | nil =>
    cases walked
    exact .inl rfl
  | cons name rest ih =>
    obtain ⟨first, later⟩ := List.forall_mem_cons.mp clean
    rcases walk_cons first walked with further | ⟨rfl, ends⟩
    · rcases ih later further with directory | ⟨-, ends⟩
      · exact .inl directory
      · rw [List.append_assoc, List.singleton_append] at ends
        exact .inr ⟨List.cons_ne_nil _ _, ends⟩
    · exact .inr ⟨List.cons_ne_nil _ _, ends⟩

theorem place_ofElements {place : Place} (clean : ∀ name ∈ names, Path.IsName name)
    (found : d.place (Path.ofElements names) = .ok place) : d.walk [] names = .ok place := by
  unfold Directory.place at found
  split at found
  · cases found
  split at found
  · cases found
  cases names with
  | nil => exact found
  | cons name names =>
    rw [Path.split_ofElements (List.cons_ne_nil _ _)
      fun name member => (clean name member).no_slash] at found
    exact found

/-- **A clean path leads to the file of its own names.** -/
theorem eq_of_leads {path : List Text} (clean : ∀ name ∈ names, Path.IsName name)
    (leads : d.Leads (Path.ofElements names) path) : path = names := by
  obtain ⟨place, found, ends⟩ := leads
  rcases walk_clean clean (place_ofElements clean found) with rfl | ⟨-, rfl | ⟨content, -, rfl⟩⟩
  · cases ends
  · exact (Option.some.inj ends).symm
  · exact (Option.some.inj ends).symm

/-- **A clean path that can be read** is the path of the file that it reads. -/
theorem file?_of_read {content : Text} (clean : ∀ name ∈ names, Path.IsName name)
    (read : d.read (Path.ofElements names) = .ok content) :
    names ≠ [] ∧ d.file? names = some content ∧ d.Leads (Path.ofElements names) names := by
  unfold Directory.read at read
  cases found : d.place (Path.ofElements names) with
  | error e =>
    rw [found] at read
    cases read
  | ok place =>
    rw [found] at read
    rcases walk_clean clean (place_ofElements clean found) with
      rfl | ⟨given, rfl | ⟨held, known, rfl⟩⟩
    · cases read
    · cases read
    · cases read
      exact ⟨given, known, _, found, rfl⟩

end Directory

end Guwen
