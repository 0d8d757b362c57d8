import FrontEnd.Diagnostic.Similar
import Mathlib.Order.Bounds.Defs
import Mathlib.Data.List.Basic

/-!
# Changes between words

A word is changed by inserting, deleting or replacing a single character. The Levenshtein distance
of two words is the least number of changes that turn one into the other. It is found from the
front: either the first characters stay in the same place, or one of them is inserted or deleted.
The rows of a table hold the same distances, found from the end.
-/

namespace FrontEnd.Similar

/-- A change of a single character. -/
inductive Change : List Char → List Char → Prop
  | insert (front back : List Char) (c : Char) : Change (front ++ back) (front ++ c :: back)
  | delete (front back : List Char) (c : Char) : Change (front ++ c :: back) (front ++ back)
  | replace (front back : List Char) (c d : Char) :
    Change (front ++ c :: back) (front ++ d :: back)

/-- Some number of changes, one after the other. -/
inductive Changes : Nat → List Char → List Char → Prop
  | none (word : List Char) : Changes 0 word word
  | more {n : Nat} {u v w : List Char} (first : Change u v) (rest : Changes n v w) :
    Changes (n + 1) u w

/-- The distances of a word with one more character in front, from those of the word. -/
def distanceCons (a : Char) (distance : List Char → Nat) : List Char → Nat
  | [] => distance [] + 1
  | b :: bs => min (min (distance (b :: bs) + 1) (distanceCons a distance bs + 1))
      (distance bs + if a = b then 0 else 1)

/-- The Levenshtein distance of two words. -/
def levenshtein : List Char → List Char → Nat
  | [] => List.length
  | a :: as => distanceCons a (levenshtein as)

section Recursion

variable (a b : Char) (as bs : List Char)

/-- From nothing as many characters are put in as there are. -/
@[simp] theorem levenshtein_nil_left : levenshtein [] bs = bs.length := rfl

/-- To nothing as many are taken away. -/
@[simp] theorem levenshtein_nil_right : levenshtein as [] = as.length := by
  induction as with
  | nil => rfl
  | cons a as ih => exact congrArg (· + 1) ih

/-- Otherwise the first characters are taken away, put in or matched. -/
theorem levenshtein_cons_cons : levenshtein (a :: as) (b :: bs) =
    min (min (levenshtein as (b :: bs) + 1) (levenshtein (a :: as) bs + 1))
      (levenshtein as bs + if a = b then 0 else 1) := rfl

/-- A character of the first word may be deleted. -/
theorem levenshtein_cons_left_le : levenshtein (a :: as) bs ≤ levenshtein as bs + 1 := by
  cases bs with
  | nil => simp
  | cons b bs =>
    rw [levenshtein_cons_cons]
    omega

/-- A character of the second word may be inserted. -/
theorem levenshtein_cons_right_le : levenshtein as (b :: bs) ≤ levenshtein as bs + 1 := by
  cases as with
  | nil => simp
  | cons a as =>
    rw [levenshtein_cons_cons]
    omega

/-- A character in front that is not there is not far away. -/
theorem levenshtein_le_cons_left : levenshtein as bs ≤ levenshtein (a :: as) bs + 1 := by
  induction bs with
  | nil => simp; omega
  | cons b bs ih =>
    have hmore := levenshtein_cons_right_le b as bs
    rw [levenshtein_cons_cons]
    omega

/-- Another character in front is not far away. -/
theorem levenshtein_replace_le (c : Char) :
    levenshtein (a :: as) bs ≤ levenshtein (c :: as) bs + 1 := by
  induction bs with
  | nil => simp
  | cons b bs ih =>
    rw [levenshtein_cons_cons, levenshtein_cons_cons]
    split <;> omega

variable {as}

/-- The same character may stand in front of two words. -/
theorem levenshtein_cons_le {u v : List Char}
    (h : ∀ w, levenshtein u w ≤ levenshtein v w + 1) :
    levenshtein (a :: u) bs ≤ levenshtein (a :: v) bs + 1 := by
  induction bs with
  | nil =>
    have hnil := h []
    simp only [levenshtein_nil_right, List.length_cons] at hnil ⊢
    omega
  | cons b bs ih =>
    have hfirst := h (b :: bs)
    have hboth := h bs
    rw [levenshtein_cons_cons, levenshtein_cons_cons]
    omega

end Recursion

/-- One change makes a difference of at most one. -/
theorem Change.levenshtein_le {u v : List Char} (h : Change u v) (w : List Char) :
    levenshtein u w ≤ levenshtein v w + 1 := by
  -- The change is made behind a common front part.
  have behind {u v : List Char} (h : ∀ w, levenshtein u w ≤ levenshtein v w + 1)
      (front : List Char) (w : List Char) :
      levenshtein (front ++ u) w ≤ levenshtein (front ++ v) w + 1 := by
    induction front generalizing w with
    | nil => exact h w
    | cons a front ih => exact levenshtein_cons_le a w ih
  cases h with
  | insert front back c => exact behind (levenshtein_le_cons_left c back) front w
  | delete front back c => exact behind (levenshtein_cons_left_le c back) front w
  | replace front back c d => exact behind (fun w => levenshtein_replace_le c back w d) front w

/-- A change is one behind a common first character too. -/
theorem Change.cons {u v : List Char} (a : Char) (h : Change u v) : Change (a :: u) (a :: v) := by
  cases h with
  | insert front back c => exact .insert (a :: front) back c
  | delete front back c => exact .delete (a :: front) back c
  | replace front back c d => exact .replace (a :: front) back c d

/-- Read backwards, a change is a change. -/
theorem Change.reverse {u v : List Char} (h : Change u v) : Change u.reverse v.reverse := by
  cases h with
  | insert front back c => simpa using Change.insert back.reverse front.reverse c
  | delete front back c => simpa using Change.delete back.reverse front.reverse c
  | replace front back c d => simpa using Change.replace back.reverse front.reverse c d

namespace Changes

variable {n : Nat} {u v : List Char}

/-- Changes are so behind a common first character. -/
theorem cons (a : Char) (h : Changes n u v) : Changes n (a :: u) (a :: v) := by
  induction h with
  | none word => exact .none (a :: word)
  | more first _ ih => exact .more (first.cons a) ih

/-- Read backwards, they are as many changes. -/
theorem reverse (h : Changes n u v) : Changes n u.reverse v.reverse := by
  induction h with
  | none word => exact .none word.reverse
  | more first _ ih => exact .more first.reverse ih

/-- No fewer changes turn a word into another than their distance. -/
theorem levenshtein_le (h : Changes n u v) : levenshtein u v ≤ n := by
  induction h with
  | none word =>
    induction word with
    | nil => exact Nat.le_refl 0
    | cons a word ih =>
      rw [levenshtein_cons_cons, if_pos rfl]
      omega
  | @more n u v w first _ ih =>
    have hfirst := first.levenshtein_le w
    omega

/-- All characters of a word are inserted. -/
theorem insertAll (word : List Char) : Changes word.length [] word := by
  induction word with
  | nil => exact .none []
  | cons a word ih => exact .more (.insert [] [] a) (ih.cons a)

/-- All characters of a word are deleted. -/
theorem deleteAll (word : List Char) : Changes word.length word [] := by
  induction word with
  | nil => exact .none []
  | cons a word ih => exact .more (.delete [] word a) ih

end Changes

/-- So many changes are enough. -/
theorem changes_levenshtein (as bs : List Char) : Changes (levenshtein as bs) as bs := by
  induction as generalizing bs with
  | nil => exact .insertAll bs
  | cons a as ih =>
    induction bs with
    | nil =>
      rw [levenshtein_nil_right]
      exact .deleteAll (a :: as)
    | cons b bs ihb =>
      have hdelete : Changes (levenshtein as (b :: bs) + 1) (a :: as) (b :: bs) :=
        .more (.delete [] as a) (ih (b :: bs))
      have hinsert : Changes (levenshtein (a :: as) bs + 1) (a :: as) (b :: bs) :=
        .more (.insert [] (a :: as) b) (ihb.cons b)
      have hreplace : Changes (levenshtein as bs + if a = b then 0 else 1) (a :: as) (b :: bs) := by
        split
        · rename_i heq
          exact heq ▸ (ih bs).cons a
        · exact .more (.replace [] as a b) ((ih bs).cons b)
      -- The smallest of three numbers is one of them.
      have smaller {m n : Nat} {u v : List Char} (hm : Changes m u v) (hn : Changes n u v) :
          Changes (min m n) u v := by
        rw [Nat.min_def]
        split
        · exact hm
        · exact hn
      exact smaller (smaller hdelete hinsert) hreplace

/-- The distance of two words is the least number of changes that turn one into the other. -/
theorem levenshtein_isLeast (as bs : List Char) :
    IsLeast {n | Changes n as bs} (levenshtein as bs) :=
  ⟨changes_levenshtein as bs, fun _ h => h.levenshtein_le⟩

/-- Reading both words from the end makes no difference. -/
theorem levenshtein_reverse (as bs : List Char) :
    levenshtein as.reverse bs.reverse = levenshtein as bs := by
  refine Nat.le_antisymm (changes_levenshtein as bs).reverse.levenshtein_le ?_
  have := (changes_levenshtein as.reverse bs.reverse).reverse.levenshtein_le
  simpa using this

/-- Words of different length are at least that far apart. -/
theorem length_le_levenshtein (as bs : List Char) :
    as.length ≤ bs.length + levenshtein as bs ∧ bs.length ≤ as.length + levenshtein as bs := by
  have grows {n : Nat} {u v : List Char} (h : Changes n u v) :
      u.length ≤ v.length + n ∧ v.length ≤ u.length + n := by
    induction h with
    | none word => omega
    | more first _ ih =>
      cases first <;> simp only [List.length_append, List.length_cons] at ih ⊢ <;> omega
  exact grows (changes_levenshtein as bs)

section Rows

/-- The cells of a row after its first one: the distances of a word to longer and longer ones, all
read from the end. -/
def cellsFrom (as front : List Char) : List Char → List Nat
  | [] => []
  | b :: bs => levenshtein as (b :: front) :: cellsFrom as (b :: front) bs

/-- The row of a word read from the end. -/
def rowOf (as bs : List Char) : List Nat := levenshtein as [] :: cellsFrom as [] bs

theorem cellsFrom_nil (front bs : List Char) :
    cellsFrom [] front bs = List.range' (front.length + 1) bs.length := by
  induction bs generalizing front with
  | nil => rfl
  | cons b bs ih =>
    rw [cellsFrom, ih, List.length_cons, List.length_cons, List.range'_succ]
    rfl

/-- The first row counts the characters of the second word. -/
theorem rowOf_nil (bs : List Char) : rowOf [] bs = List.range (bs.length + 1) := by
  rw [List.range_eq_range', List.range'_succ]
  exact congrArg (0 :: ·) (cellsFrom_nil [] bs)

/-- Each cell is found from those before, above and above that one before. -/
theorem cells_eq (a : Char) (as front bs : List Char) :
    cells a (levenshtein (a :: as) front) (levenshtein as front) bs (cellsFrom as front bs) =
      cellsFrom (a :: as) front bs := by
  induction bs generalizing front with
  | nil => rfl
  | cons b bs ih => exact congrArg (levenshtein (a :: as) (b :: front) :: ·) (ih (b :: front))

theorem nextRow_rowOf (a : Char) (as bs : List Char) :
    nextRow bs (rowOf as bs) a = rowOf (a :: as) bs :=
  congrArg (levenshtein (a :: as) [] :: ·) (cells_eq a as [] bs)

/-- The rows follow the first word, the last one is that of the whole word. -/
theorem foldl_nextRow (word as bs : List Char) :
    word.foldl (nextRow bs) (rowOf as bs) = rowOf (word.reverse ++ as) bs := by
  induction word generalizing as with
  | nil => rfl
  | cons a word ih =>
    rw [List.foldl_cons, nextRow_rowOf, ih, List.reverse_cons, List.append_assoc]
    rfl

/-- The last cell of a row holds the distance to the whole second word. -/
theorem getLastD_cellsFrom (as front bs : List Char) (d : Nat) :
    (levenshtein as front :: cellsFrom as front bs).getLastD d =
      levenshtein as (bs.reverse ++ front) := by
  induction bs generalizing front d with
  | nil => rfl
  | cons b bs ih =>
    rw [List.reverse_cons, List.append_assoc]
    exact ih (b :: front) (levenshtein as front)

/-- The distance that is computed row by row is the Levenshtein distance. -/
theorem distance_eq (as bs : List Char) : distance as bs = levenshtein as bs := by
  calc distance as bs
      = (as.foldl (nextRow bs) (rowOf [] bs)).getLastD 0 := by rw [rowOf_nil]; rfl
    _ = (rowOf as.reverse bs).getLastD 0 := by rw [foldl_nextRow, List.append_nil]
    _ = levenshtein as.reverse (bs.reverse ++ []) := getLastD_cellsFrom as.reverse [] bs 0
    _ = levenshtein as bs := by rw [List.append_nil, levenshtein_reverse]

end Rows

end FrontEnd.Similar
