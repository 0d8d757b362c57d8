import FrontEnd.Grammar.State
import FrontEnd.Proofs.Parts
import Mathlib.Data.List.Count
import Mathlib.Data.List.DropRight
import Mathlib.Data.List.Nodup

/-!
# Joints

Binary operators, assignment operators and most colons join what follows them to what stands before
them, and line breaks behind them have no meaning. Which tokens are used that way shows in the tree:
it has a node for what follows. To tell the token such a node starts with, every token is given a
file of its own, for a node is placed in the file of its first token.
-/

namespace FrontEnd

namespace Node

/-- The file of an expression or a type, or of the first one in a row. -/
def first? : {c : Category} → Node c → Option FileId
  | _, expr o _ => some o.span.file
  | _, type o _ => some o.span.file
  | _, present n => n.first?
  | _, cons n _ => n.first?
  | _, _ => none

/-- Where that starts which a node has behind an operator or a colon. The colons in front of the
result of a function, the bound of a generic parameter and the type of a constant one are left out:
line breaks behind them count. -/
def joint? : {c : Category} → Node c → Option FileId
  | _, binary _ _ right => right.first?
  | _, assign _ _ value => value.first?
  | _, varStmt _ _ t _ => t.first?
  | _, fieldItem _ _ t _ => t.first?
  | _, param _ _ t _ => t.first?
  | _, lambdaParam _ _ t => t.first?
  | _, entryField _ t => t.first?
  | _, argument (some _) value _ => value.first?
  | _, namedField _ value => value.first?
  | _, classItem _ _ _ supers _ => supers.first?
  | _, traitItem _ _ supers _ => supers.first?
  | _, objectItem _ supers _ => supers.first?
  | _, _ => none

/-- The joints in a tree, behind others. -/
def jointsAfter {c : Category} (js : List FileId) (n : Node c) : List FileId :=
  n.collect joint? js

/-- The joints in a tree that is joined itself to what comes before it. -/
def joinedAfter {c : Category} (js : List FileId) (n : Node c) : List FileId :=
  n.first?.elim (n.jointsAfter js) (n.jointsAfter js ++ [·])

/-- The joints of two sequences in a row. -/
theorem jointsAfter_ofList_append {c : Category} (xs ys : List (Node c)) (js : List FileId) :
    (ofList (xs ++ ys)).jointsAfter js = (ofList ys).jointsAfter ((ofList xs).jointsAfter js) := by
  induction xs generalizing js with
  | nil => rfl
  | cons x xs ih => exact ih (x.jointsAfter js)

end Node

/-- A line break that is put in. -/
def lineBreak : Token := ⟨.newline, default⟩

/-- What is known of the tokens of a text, each of which has a file of its own. -/
structure Loosening where
  /-- Whether a token is joined to what stands in front of it. -/
  joined : FileId → Bool
  /-- The token at the end of the text. -/
  final : Token
  eof : final.kind = .eof

namespace Loosening

variable (K : Loosening)

/-- The first of some tokens that is no line break. -/
def next (tokens : List Token) : Token :=
  (tokens.dropWhile fun t => t.kind = .newline).head?.getD K.final

/-- Whether some tokens are joined to what stands in front of them, as a number. -/
def due (tokens : List Token) : Nat := (K.joined (K.next tokens).span.file).toNat

/-- How many of some tokens join the others to them. -/
def weight : List Token → Nat
  | [] => 0
  | x :: xs => (if x.kind = .newline then 0 else K.due xs) + weight xs

/-- The second list of tokens is the first one with line breaks put in directly behind commas and
behind tokens that join the next ones to them. -/
inductive Spread : List Token → List Token → Prop
  | nil : Spread [] []
  | cons {x : Token} {xs ys : List Token} (breaks : Nat)
    (place : breaks ≠ 0 → x.kind = .symbol .comma ∨ x.kind ≠ .newline ∧ K.due xs = 1)
    (tail : Spread xs ys) : Spread (x :: xs) (x :: (List.replicate breaks lineBreak ++ ys))

variable {K : Loosening}

section Lists

/-- Line breaks do not count. -/
theorem next_dropWhile (tokens : List Token) :
    K.next (tokens.dropWhile fun t => t.kind = .newline) = K.next tokens := by
  unfold next
  rw [List.dropWhile_idempotent]

/-- The next token that counts is the first one, if it is no line break. -/
theorem next_cons {x : Token} (h : x.kind ≠ .newline) (xs : List Token) :
    K.next (x :: xs) = x := by
  unfold next
  rw [List.dropWhile_cons_of_neg (by simpa using h)]
  rfl

/-- Otherwise it is looked for behind it. -/
theorem next_cons_newline {x : Token} (h : x.kind = .newline) (xs : List Token) :
    K.next (x :: xs) = K.next xs := by
  unfold next
  rw [List.dropWhile_cons_of_pos (by simpa using h)]

/-- Line breaks in front do not change what is due. -/
theorem due_dropWhile (tokens : List Token) :
    K.due (tokens.dropWhile fun t => t.kind = .newline) = K.due tokens := by
  unfold due
  rw [next_dropWhile]

/-- A line break weighs nothing. -/
theorem weight_cons_newline {x : Token} (h : x.kind = .newline) (xs : List Token) :
    K.weight (x :: xs) = K.weight xs := by
  rw [weight, if_pos h, Nat.zero_add]

/-- Every other token weighs what is due behind it. -/
theorem weight_cons {x : Token} (h : x.kind ≠ .newline) (xs : List Token) :
    K.weight (x :: xs) = K.due xs + K.weight xs := by
  rw [weight, if_neg h]

/-- Line breaks in front weigh nothing. -/
theorem weight_dropWhile (tokens : List Token) :
    K.weight (tokens.dropWhile fun t => t.kind = .newline) = K.weight tokens := by
  induction tokens with
  | nil => rfl
  | cons x xs ih =>
    by_cases hx : x.kind = .newline
    · rw [List.dropWhile_cons_of_pos (by simpa using hx), ih, weight_cons_newline hx]
    · rw [List.dropWhile_cons_of_neg (by simpa using hx)]

/-- What is passed over may join others to it. -/
theorem weight_dropWhile_le (p : Token → Bool) (tokens : List Token) :
    K.weight (tokens.dropWhile p) ≤ K.weight tokens := by
  induction tokens with
  | nil => exact Nat.le_refl _
  | cons x xs ih =>
    by_cases hx : p x = true
    · rw [List.dropWhile_cons_of_pos hx, weight]
      exact Nat.le_add_left_of_le ih
    · rw [List.dropWhile_cons_of_neg hx]

/-- Every token that joins is followed by another one that is joined. -/
theorem weight_le (tokens : List Token) : K.weight tokens + K.due tokens ≤
    ((tokens ++ [K.final]).map (·.span.file)).countP K.joined := by
  induction tokens with
  | nil =>
    unfold weight due next
    rw [Nat.zero_add, List.nil_append, List.map_singleton, List.countP_singleton]
    cases h : K.joined K.final.span.file <;> simp [h]
  | cons x xs ih =>
    rw [List.cons_append, List.map_cons, List.countP_cons]
    by_cases hx : x.kind = .newline
    · rw [weight_cons_newline hx]
      unfold due at ih ⊢
      rw [next_cons_newline hx]
      omega
    · have hdue : K.due (x :: xs) = if K.joined x.span.file = true then 1 else 0 := by
        unfold due
        rw [next_cons hx]
        cases K.joined x.span.file <;> rfl
      rw [weight_cons hx, hdue]
      omega

end Lists

namespace Spread

variable {xs ys : List Token}

/-- Behind most tokens nothing is put in. -/
theorem keep (x : Token) (h : K.Spread xs ys) : K.Spread (x :: xs) (x :: ys) :=
  .cons 0 (absurd rfl) h

/-- Nothing is put in at the front. -/
theorem head? (h : K.Spread xs ys) : ys.head? = xs.head? := by
  cases h <;> rfl

/-- What is put in is passed over where line breaks are. -/
theorem dropWhile_breaks {p : Token → Bool} (hp : p lineBreak = true) (n : Nat)
    (ys : List Token) : (List.replicate n lineBreak ++ ys).dropWhile p = ys.dropWhile p := by
  induction n with
  | zero => rfl
  | succ n ih => rw [List.replicate_succ, List.cons_append, List.dropWhile_cons_of_pos hp, ih]

/-- Where line breaks are passed over, what is left was spread the same way. -/
theorem dropWhile (h : K.Spread xs ys) {p : Token → Bool} (hp : p lineBreak = true) :
    K.Spread (xs.dropWhile p) (ys.dropWhile p) := by
  induction h with
  | nil => exact .nil
  | @cons x xs ys breaks place tail ih =>
    by_cases hx : p x = true
    · rw [List.dropWhile_cons_of_pos hx, List.dropWhile_cons_of_pos hx, dropWhile_breaks hp]
      exact ih
    · rw [List.dropWhile_cons_of_neg hx, List.dropWhile_cons_of_neg hx]
      exact .cons breaks place tail

/-- Nothing can be put in behind a token that neither joins nor is a comma. -/
theorem tail (h : K.Spread xs ys) {x : Token} {tokens : List Token} (hxs : xs = x :: tokens)
    (hx : x.kind ≠ .symbol .comma) (hdue : x.kind = .newline ∨ K.due tokens = 0) :
    ∃ others, ys = x :: others ∧ K.Spread tokens others := by
  cases h with
  | nil => cases hxs
  | @cons _ _ others breaks place tail =>
    cases hxs
    obtain rfl : breaks = 0 := by
      by_contra hne
      rcases place hne with hcomma | ⟨hnewline, hone⟩
      · exact hx hcomma
      · rcases hdue with hnl | hzero
        · exact hnewline hnl
        · omega
    exact ⟨others, rfl, tail⟩

end Spread

end Loosening

end FrontEnd
