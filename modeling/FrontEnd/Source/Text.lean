/-!
# Text addressed by bytes

Texts are sequences of characters, but spans count the bytes of their UTF-8 form. The functions
here cut a text at byte offsets. A cut inside a character or past the end does not exist, so
every one of them is partial and answers `none` there.
-/

namespace FrontEnd.Text

/-- Number of bytes of the UTF-8 form of some characters. -/
def byteSize (cs : List Char) : Nat := cs.foldr (fun c size => c.utf8Size + size) 0

@[simp] theorem byteSize_nil : byteSize [] = 0 := rfl

theorem byteSize_cons (c : Char) (cs : List Char) :
    byteSize (c :: cs) = c.utf8Size + byteSize cs := rfl

@[simp] theorem byteSize_append (as bs : List Char) :
    byteSize (as ++ bs) = byteSize as + byteSize bs := by
  induction as with
  | nil => simp
  | cons a as ih => rw [List.cons_append, byteSize_cons, byteSize_cons, ih, Nat.add_assoc]

/-- Cut at byte offset `n`; `none` unless `n` is a boundary between characters of the text. -/
def splitAt? : List Char → Nat → Option (List Char × List Char)
  | cs, 0 => some ([], cs)
  | [], _ + 1 => none
  | c :: cs, n + 1 =>
    if c.utf8Size ≤ n + 1 then
      (splitAt? cs (n + 1 - c.utf8Size)).map fun (front, rest) => (c :: front, rest)
    else none

/-- The characters between two byte offsets, both of which have to be boundaries. -/
def slice? (cs : List Char) (start stop : Nat) : Option (List Char) := do
  guard (start ≤ stop)
  let (_, rest) ← splitAt? cs start
  let (part, _) ← splitAt? rest (stop - start)
  return part

/-- The character that starts at a byte offset. -/
def charAt? (cs : List Char) (offset : Nat) : Option Char := do
  let (_, rest) ← splitAt? cs offset
  rest.head?

/-- The two parts of a cut give the text back. -/
theorem append_of_splitAt? {cs front rest : List Char} {n : Nat}
    (h : splitAt? cs n = some (front, rest)) : front ++ rest = cs := by
  fun_induction splitAt? cs n generalizing front with
  | case1 cs => simp_all
  | case2 => simp at h
  | case3 c cs n _ ih =>
    obtain ⟨⟨f, r⟩, hr, he⟩ := Option.map_eq_some_iff.1 h
    simp only [Prod.mk.injEq] at he
    obtain ⟨rfl, rfl⟩ := he
    simpa using ih hr
  | case4 => simp at h

/-- The front part of a cut has exactly the demanded number of bytes. -/
theorem byteSize_of_splitAt? {cs front rest : List Char} {n : Nat}
    (h : splitAt? cs n = some (front, rest)) : byteSize front = n := by
  fun_induction splitAt? cs n generalizing front with
  | case1 cs => simp_all
  | case2 => simp at h
  | case3 c cs n hc ih =>
    obtain ⟨⟨f, r⟩, hr, he⟩ := Option.map_eq_some_iff.1 h
    simp only [Prod.mk.injEq] at he
    obtain ⟨rfl, rfl⟩ := he
    have := ih hr
    rw [byteSize_cons]
    omega
  | case4 => simp at h

/-- Put a character in front of the first line, opening one when there is none. -/
def consLine (c : Char) : List (List Char) → List (List Char)
  | [] => [[c]]
  | l :: ls => (c :: l) :: ls

/-- The pieces of a text between line breaks: a line feed ends a line, one carriage return
before it belongs to the break, and an empty piece after the last break is not a line. -/
def lines : List Char → List (List Char)
  | [] => []
  | c :: rest =>
    if c = '\n' then [] :: lines rest
    else if c = '\r' ∧ rest.head? = some '\n' then lines rest
    else consLine c (lines rest)

end FrontEnd.Text
