import FrontEnd.Grammar.Expr

/-!
# Operations and how they are grouped

An operation is a tree of operators over names, as an expression has it when numbers and places are
left out. How operators bind decides which of the trees with some reading is meant: there is at most
one tree in which every operator has only operators that bind at least as tight below it, and
strictly tighter ones on the side it does not group to.
-/

namespace FrontEnd

/-- The operators that stand between two operands. -/
inductive InfixOp where
  | binary (op : BinaryOp)
  | assign (op : AssignOp)
deriving DecidableEq

/-- How tight a binary operator binds: the sixteen levels from the loosest to the tightest, and
powers above all of them. -/
def BinaryOp.strength : BinaryOp → Nat
  | pipe => 1
  | or => 2
  | and => 3
  | bitOr => 4
  | xor => 5
  | bitAnd => 6
  | eq | notEq | refEq | refNotEq => 7
  | lt | gt | le | ge => 8
  | spaceship => 9
  | is | notIs | in_ | notIn => 10
  | nullCoalesce => 11
  | shl | shr => 12
  | custom _ => 13
  | range | rangeRightOpen | rangeInclusive | rangeLeftOpen | rangeOpen => 14
  | add | sub => 15
  | mul | div | mod => 16
  | power => 17

theorem BinaryOp.strength_pos (op : BinaryOp) : 0 < op.strength := by
  cases op <;> exact Nat.succ_pos _

namespace InfixOp

/-- How tight an operator binds; assignments are the loosest. -/
def strength : InfixOp → Nat
  | binary op => op.strength
  | assign _ => 0

/-- Whether a chain of the operator is grouped to the right, as powers and assignments are. -/
def groupsRight : InfixOp → Bool
  | binary .power | assign _ => true
  | binary _ => false

/-- The operators that are grouped to the right are the loosest and the tightest ones. -/
theorem groupsRight_iff {op : InfixOp} :
    op.groupsRight = true ↔ op.strength = 0 ∨ op.strength = 17 := by
  cases op with
  | assign op => exact iff_of_true rfl (Or.inl rfl)
  | binary op => cases op <;> simp [groupsRight, strength, BinaryOp.strength]

/-- Operators of one level are grouped to the same side. -/
theorem groupsRight_eq {op op' : InfixOp} (h : op.strength = op'.strength) :
    op.groupsRight = op'.groupsRight :=
  Bool.eq_iff_iff.2 (by rw [groupsRight_iff, groupsRight_iff, h])

/-- Powers are the tightest. -/
theorem strength_lt {op : InfixOp} (h : op ≠ .binary .power) : op.strength < 17 := by
  cases op with
  | assign aop => exact Nat.succ_pos 16
  | binary bop =>
    cases bop with
    | power => exact absurd rfl h
    | custom ident => exact Nat.lt_add_of_pos_right (k := 4) (by decide)
    | _ => decide

end InfixOp

/-- A name, and operators with a name behind each of them. -/
@[ext]
structure Sequence where
  /-- The first name. -/
  first : Ident
  /-- The operators, each with the name behind it. -/
  others : List (InfixOp × Ident)
deriving DecidableEq

/-- The sequence of an operator between two sequences. -/
def Sequence.join (xs : Sequence) (op : InfixOp) (ys : Sequence) : Sequence :=
  ⟨xs.first, xs.others ++ (op, ys.first) :: ys.others⟩

/-- Operators over names. -/
inductive Operation where
  | operand (name : Ident)
  | apply (left : Operation) (op : InfixOp) (right : Operation)
deriving DecidableEq

/-- The operation an expression is, unless there is more in it than names and operators between
them. -/
def Node.operation? : {c : Category} → Node c → Option Operation
  | _, .expr _ form => form.operation?
  | _, .name ident _ => some (.operand ident)
  | _, .binary left op right => do
    return .apply (← left.operation?) (.binary op) (← right.operation?)
  | _, .assign target op value => do
    return .apply (← target.operation?) (.assign op) (← value.operation?)
  | _, _ => none

namespace Operation

/-- The names and operators from the left to the right. -/
def reading : Operation → Sequence
  | operand name => ⟨name, []⟩
  | apply left op right => left.reading.join op right.reading

/-- How tight an operation holds together: names more than all operators. -/
def strength : Operation → Nat
  | operand _ => 18
  | apply _ op _ => op.strength

/-- Whether every operator has operations below it that are strictly tighter, but on the side to
which it groups at least as tight. -/
def Grouped : Operation → Prop
  | operand _ => True
  | apply left op right => left.Grouped ∧ right.Grouped ∧
    if op.groupsRight then op.strength < left.strength ∧ op.strength ≤ right.strength
    else op.strength ≤ left.strength ∧ op.strength < right.strength

instance decidableGrouped : (t : Operation) → Decidable t.Grouped
  | operand _ => isTrue trivial
  | apply left op right =>
    have := left.decidableGrouped
    have := right.decidableGrouped
    inferInstanceAs (Decidable (left.Grouped ∧ right.Grouped ∧ if op.groupsRight then _ else _))

variable {t u left right left' right' : Operation} {op op' : InfixOp}

/-- In either case all operations below an operator are at least as tight. -/
theorem Grouped.le (h : (apply left op right).Grouped) :
    op.strength ≤ left.strength ∧ op.strength ≤ right.strength := by
  have hsides := h.2.2
  split at hsides <;> omega

/-- The root of an operation is an operator that binds no tighter than the others. -/
theorem Grouped.strength_le (h : t.Grouped) {x : InfixOp × Ident} (hx : x ∈ t.reading.others) :
    t.strength ≤ x.1.strength := by
  induction t with
  | operand name => cases hx
  | apply left op right hleft hright =>
    obtain ⟨hle, hle'⟩ := h.le
    rcases List.mem_append.1 hx with hx | hx
    · exact Nat.le_trans hle (hleft h.1 hx)
    · rcases List.mem_cons.1 hx with rfl | hx
      · exact Nat.le_refl _
      · exact Nat.le_trans hle' (hright h.2.1 hx)

/-- Two operators cannot both be the root of operations that are read alike: the names and operators
to the left of one root are not more than those to the left of the other. -/
theorem Grouped.nothing_between (h : (apply left op right).Grouped)
    (h' : (apply left' op' right').Grouped) {between : List (InfixOp × Ident)}
    (hleft : left'.reading.others = left.reading.others ++ between)
    (hright : (op, right.reading.first) :: right.reading.others =
      between ++ (op', right'.reading.first) :: right'.reading.others) : between = [] := by
  cases between with
  | nil => rfl
  | cons x between =>
    exfalso
    obtain ⟨hroot, hbehind⟩ : _ ∧ _ := List.cons.inj hright
    obtain rfl := hroot
    have hop : right.strength ≤ op'.strength := by
      refine h.2.1.strength_le (x := (op', right'.reading.first)) ?_
      rw [hbehind]
      exact List.mem_append_right _ List.mem_cons_self
    have hop' : left'.strength ≤ op.strength := by
      refine h'.1.strength_le (x := (op, right.reading.first)) ?_
      rw [hleft]
      exact List.mem_append_right _ List.mem_cons_self
    have hle := h.le.2
    have hle' := h'.le.1
    have hsides := h.2.2
    have hsides' := h'.2.2
    -- Both operators are of one level, so they are grouped to the same side.
    rw [InfixOp.groupsRight_eq (show op'.strength = op.strength by omega)] at hsides'
    split at hsides
    · rename_i hgroups
      rw [if_pos hgroups] at hsides'
      omega
    · omega

/-- There is at most one way to group what is read. -/
theorem Grouped.unique (ht : t.Grouped) (hu : u.Grouped) (h : t.reading = u.reading) : t = u := by
  induction t generalizing u with
  | operand name =>
    cases u with
    | operand name' => exact congrArg operand (congrArg Sequence.first h)
    | apply _ _ _ =>
      exact absurd (congrArg Sequence.others h).symm (by simp [reading, Sequence.join])
  | apply left op right hleft hright =>
    cases u with
    | operand _ => exact absurd (congrArg Sequence.others h) (by simp [reading, Sequence.join])
    | apply left' op' right' =>
      have hfirst : left.reading.first = left'.reading.first := (congrArg Sequence.first h :)
      have hothers : left.reading.others ++ (op, right.reading.first) :: right.reading.others =
          left'.reading.others ++ (op', right'.reading.first) :: right'.reading.others :=
        (congrArg Sequence.others h :)
      obtain ⟨hbefore, hbehind⟩ : left.reading.others = left'.reading.others ∧
          (op, right.reading.first) :: right.reading.others =
            (op', right'.reading.first) :: right'.reading.others := by
        rcases List.append_eq_append_iff.1 hothers with
          ⟨between, hmore, hless⟩ | ⟨between, hmore, hless⟩
        · obtain rfl := ht.nothing_between hu hmore hless
          exact ⟨by simpa using hmore.symm, by simpa using hless⟩
        · obtain rfl := hu.nothing_between ht hmore hless
          exact ⟨by simpa using hmore, by simpa using hless.symm⟩
      obtain ⟨hroot, hlast⟩ : _ ∧ _ := List.cons.inj hbehind
      obtain ⟨rfl, hsecond⟩ := Prod.mk.inj hroot
      have hl : left.reading = left'.reading := Sequence.ext hfirst hbefore
      have hr : right.reading = right'.reading := Sequence.ext hsecond hlast
      rw [hleft ht.1 hu.1 hl, hright ht.2.1 hu.2.1 hr]

end Operation

end FrontEnd
