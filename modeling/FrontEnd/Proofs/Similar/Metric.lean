import FrontEnd.Proofs.Similar.Changes

/-!
# The distance of words as a metric

A change can be taken back by a single change, and changes can be made one after the other. So the
least number of changes is the same in both directions, and no detour is shorter. Two words without
a change between them are the same.
-/

namespace FrontEnd.Similar

variable {m n : Nat} {u v w : List Char}

/-- What was inserted is deleted, what was deleted is inserted, and what was replaced is put
back. -/
theorem Change.symm (h : Change u v) : Change v u := by
  cases h with
  | insert front back c => exact .delete front back c
  | delete front back c => exact .insert front back c
  | replace front back c d => exact .replace front back d c

namespace Changes

/-- Changes, and then more changes. -/
theorem trans (h : Changes m u v) (h' : Changes n v w) : Changes (m + n) u w := by
  induction h with
  | none word => rwa [Nat.zero_add]
  | more first _ ih =>
    rw [Nat.add_right_comm]
    exact .more first (ih h')

/-- The changes are taken back, the last one first. -/
theorem symm (h : Changes n u v) : Changes n v u := by
  induction h with
  | none word => exact .none word
  | more first _ ih => exact ih.trans (.more first.symm (.none _))

/-- Nothing was changed. -/
theorem eq_of_zero (h : Changes 0 u v) : u = v := by
  cases h
  rfl

end Changes

/-- Nothing has to be changed in a word to get the word itself. -/
theorem levenshtein_self (word : List Char) : levenshtein word word = 0 :=
  Nat.le_zero.1 (Changes.none word).levenshtein_le

/-- Only equal words have no distance. -/
theorem levenshtein_eq_zero_iff : levenshtein u v = 0 ↔ u = v := by
  constructor
  · intro hzero
    have hchanges := changes_levenshtein u v
    rw [hzero] at hchanges
    exact hchanges.eq_of_zero
  · rintro rfl
    exact levenshtein_self u

/-- The way back is as long. -/
theorem levenshtein_comm (u v : List Char) : levenshtein u v = levenshtein v u :=
  Nat.le_antisymm (changes_levenshtein v u).symm.levenshtein_le
    (changes_levenshtein u v).symm.levenshtein_le

/-- A way over another word is no shorter. -/
theorem levenshtein_triangle (u v w : List Char) :
    levenshtein u w ≤ levenshtein u v + levenshtein v w :=
  ((changes_levenshtein u v).trans (changes_levenshtein v w)).levenshtein_le

/-- **The distance of two words.** What is found row by row is the distance found from the front,
the least number of characters to insert, delete or replace. It is the same in both directions, zero
for equal words only, at least the difference of the lengths, and no longer than over a third
word. -/
theorem distance_least (a b : String) :
    distance a.toList b.toList = levenshtein a.toList b.toList ∧
      IsLeast {n | Changes n a.toList b.toList} (distance a.toList b.toList) ∧
      distance a.toList b.toList = distance b.toList a.toList ∧
      (distance a.toList b.toList = 0 ↔ a = b) ∧
      a.length ≤ b.length + distance a.toList b.toList ∧
      b.length ≤ a.length + distance a.toList b.toList ∧
      ∀ c : String, distance a.toList c.toList ≤
        distance a.toList b.toList + distance b.toList c.toList := by
  simp only [distance_eq, true_and]
  obtain ⟨hleft, hright⟩ := length_le_levenshtein a.toList b.toList
  refine ⟨levenshtein_isLeast _ _, levenshtein_comm _ _, ?_, ?_, ?_, fun c => ?_⟩
  · rw [levenshtein_eq_zero_iff, String.toList_inj]
  · rwa [String.length_toList, String.length_toList] at hleft
  · rwa [String.length_toList, String.length_toList] at hright
  · exact levenshtein_triangle _ _ _

end FrontEnd.Similar
