/-!
# Similar names

The distance of two words is the least number of insertions, deletions and replacements of
single characters that turn one into the other. It is computed row by row: a row holds the
distances of one front part of the first word to all front parts of the second.
-/

namespace FrontEnd

namespace Similar

/-- The cells of a row after its first one. `left` is the cell before, `diagonal` the cell above
that one, and the list holds the cells above. -/
def cells (a : Char) : Nat → Nat → List Char → List Nat → List Nat
  | left, diagonal, b :: bs, up :: above =>
    let cell := min (min (up + 1) (left + 1)) (diagonal + if a = b then 0 else 1)
    cell :: cells a cell up bs above
  | _, _, _, _ => []

/-- The row of a front part with one more character, from the row of the front part. -/
def nextRow (bs : List Char) (row : List Nat) (a : Char) : List Nat :=
  match row with
  | [] => []
  | first :: above => (first + 1) :: cells a (first + 1) first bs above

/-- The distance of two words. -/
def distance (as bs : List Char) : Nat :=
  (as.foldl (nextRow bs) (List.range (bs.length + 1))).getLastD 0

/-- The largest distance at which a name still counts as similar. -/
def maxDistance (name : String) : Nat := if name.length ≤ 2 then 1 else 2

/-- The distance of a candidate that is similar to a name but not the name itself. Candidates
whose length in bytes differs by more than the largest distance are not considered. -/
def distance? (name candidate : String) : Option Nat :=
  let limit := maxDistance name
  let sizeGap := max name.utf8ByteSize candidate.utf8ByteSize
    - min name.utf8ByteSize candidate.utf8ByteSize
  if candidate = name ∨ limit < sizeGap then none
  else
    let d := distance name.toList candidate.toList
    if d ≤ limit then some d else none

/-- The better of the best candidate so far and a new one; the earlier one wins a tie. -/
def better (name : String) (best? : Option (String × Nat)) (candidate : String) :
    Option (String × Nat) :=
  match distance? name candidate, best? with
  | none, best? => best?
  | some d, none => some (candidate, d)
  | some d, some (best, d') => if d < d' then some (candidate, d) else some (best, d')

/-- The candidate closest to a name, the first of several, if one is similar. -/
def closest? (name : String) (candidates : List String) : Option String :=
  (candidates.foldl (better name) none).map (·.1)

end Similar

/-- The question whether a similar name was meant. -/
def didYouMean (name : String) (candidates : List String) : Option String :=
  (Similar.closest? name candidates).map fun found => "did you mean `" ++ found ++ "`?"

end FrontEnd
