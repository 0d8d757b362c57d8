import FrontEnd.Proofs.LineRanges
import FrontEnd.Proofs.Similar.Changes

/-!
# The closest of several names

Of the candidates that are near enough to a name the closest one is found, and of several the first.
Candidates whose size in bytes is too different are passed over before their distance is known. That
loses none of a word with characters of one byte each, but it may lose a candidate in which a
single character of several bytes stands in the place of another one.
-/

namespace FrontEnd

namespace Similar

/-- How far a candidate is from a name. -/
def away (name candidate : String) : Nat := levenshtein name.toList candidate.toList

/-- A candidate that may be meant by a name, but is not the name. -/
structure Near (name candidate : String) : Prop where
  ne : candidate ≠ name
  le : away name candidate ≤ maxDistance name

/-- Words whose sizes in bytes differ no more than the distance of similar words may be. -/
structure Comparable (name candidate : String) : Prop where
  left : name.utf8ByteSize ≤ candidate.utf8ByteSize + maxDistance name
  right : candidate.utf8ByteSize ≤ name.utf8ByteSize + maxDistance name

/-- The first of the candidates with some property that are closest to a name, if there is one. -/
def Picks (name : String) (fits : String → Prop) (candidates : List String) : Option String → Prop
  | none => ∀ candidate ∈ candidates, ¬fits candidate
  | some found => fits found ∧ ∃ earlier later, candidates = earlier ++ found :: later ∧
    (∀ candidate ∈ earlier, fits candidate → away name found < away name candidate) ∧
    ∀ candidate ∈ later, fits candidate → away name found ≤ away name candidate

variable {name candidate : String} {fits : String → Prop} {candidates : List String}

/-- Only what holds of the candidates matters. -/
theorem Picks.congr {fits' : String → Prop} {found? : Option String}
    (h : Picks name fits candidates found?) (hfits : ∀ c ∈ candidates, fits c ↔ fits' c) :
    Picks name fits' candidates found? := by
  cases found? with
  | none => exact fun c hc hfit => h c hc ((hfits c hc).2 hfit)
  | some found =>
    obtain ⟨hfound, earlier, later, rfl, hearlier, hlater⟩ := h
    refine ⟨(hfits found (by simp)).1 hfound, earlier, later, rfl, fun c hc hfit => ?_,
      fun c hc hfit => ?_⟩
    · exact hearlier c hc ((hfits c (by simp [hc])).2 hfit)
    · exact hlater c hc ((hfits c (by simp [hc])).2 hfit)

/-- What was picked stays if one more candidate does not fit or is not closer. -/
theorem Picks.stays {found? : Option String} (h : Picks name fits candidates found?)
    (hstays : fits candidate → ∃ found ∈ found?, away name found ≤ away name candidate) :
    Picks name fits (candidates ++ [candidate]) found? := by
  cases found? with
  | none =>
    intro c hc hfit
    rcases List.mem_append.1 hc with hc | hc
    · exact h c hc hfit
    · obtain ⟨_, ⟨⟩, -⟩ := hstays (List.mem_singleton.1 hc ▸ hfit)
  | some found =>
    obtain ⟨hfound, earlier, later, rfl, hearlier, hlater⟩ := h
    refine ⟨hfound, earlier, later ++ [candidate], by simp, hearlier, fun c hc hfit => ?_⟩
    rcases List.mem_append.1 hc with hc | hc
    · exact hlater c hc hfit
    · obtain rfl := List.mem_singleton.1 hc
      obtain ⟨_, ⟨⟩, hle⟩ := hstays hfit
      exact hle

/-- One more candidate is picked if it is closer than what was picked before. -/
theorem Picks.takes {found? : Option String} (h : Picks name fits candidates found?)
    (hfits : fits candidate) (hcloser : ∀ found ∈ found?, away name candidate < away name found) :
    Picks name fits (candidates ++ [candidate]) (some candidate) := by
  refine ⟨hfits, candidates, [], rfl, fun c hc hfit => ?_, List.forall_mem_nil _⟩
  cases found? with
  | none => exact absurd hfit (h c hc)
  | some found =>
    have hlt := hcloser found rfl
    obtain ⟨-, earlier, later, rfl, hearlier, hlater⟩ := h
    rcases List.mem_append.1 hc with hc | hc
    · exact hlt.trans (hearlier c hc hfit)
    · rcases List.mem_cons.1 hc with rfl | hc
      · exact hlt
      · exact hlt.trans_le (hlater c hc hfit)

/-- The distance of a candidate is known if it is near and its size is comparable. -/
theorem distance?_eq (name candidate : String) :
    (Near name candidate ∧ Comparable name candidate →
      distance? name candidate = some (away name candidate)) ∧
    (¬(Near name candidate ∧ Comparable name candidate) → distance? name candidate = none) := by
  unfold distance?
  dsimp only
  rw [distance_eq]
  change (_ → (if _ then _ else if away name candidate ≤ _ then some (away name candidate)
    else none) = _) ∧ (_ → (if _ then _ else if away name candidate ≤ _ then
      some (away name candidate) else none) = _)
  refine ⟨fun ⟨near, comparable⟩ => ?_, fun hnot => ?_⟩
  · have hleft := comparable.left
    have hright := comparable.right
    rw [if_neg (by rintro (heq | hgap); exacts [near.ne heq, by omega]), if_pos near.le]
  · split
    · rfl
    · rename_i hconsidered
      obtain ⟨hne, hgap⟩ := not_or.1 hconsidered
      exact if_neg fun hle => hnot ⟨⟨hne, hle⟩, by omega, by omega⟩

/-- The best of the candidates that were seen, with its distance. -/
def Best (name : String) (seen : List String) (best? : Option (String × Nat)) : Prop :=
  Picks name (fun c => Near name c ∧ Comparable name c) seen (best?.map (·.1)) ∧
    ∀ best ∈ best?, best.2 = away name best.1

/-- One more candidate is seen. -/
theorem Best.step {seen : List String} {best? : Option (String × Nat)}
    (h : Best name seen best?) (candidate : String) :
    Best name (seen ++ [candidate]) (better name best? candidate) := by
  obtain ⟨hpicks, hdistance⟩ := h
  obtain ⟨hsome, hnone⟩ := distance?_eq name candidate
  unfold better
  by_cases hfits : Near name candidate ∧ Comparable name candidate
  · rw [hsome hfits]
    cases best? with
    | none =>
      refine ⟨hpicks.takes hfits nofun, ?_⟩
      rintro _ ⟨⟩
      rfl
    | some best =>
      obtain ⟨best, d⟩ := best
      obtain rfl : d = away name best := hdistance _ rfl
      dsimp only
      split
      · rename_i hcloser
        refine ⟨hpicks.takes hfits ?_, ?_⟩
        · rintro _ ⟨⟩
          exact hcloser
        · rintro _ ⟨⟩
          rfl
      · rename_i hfarther
        exact ⟨hpicks.stays fun _ => ⟨best, rfl, Nat.not_lt.1 hfarther⟩, hdistance⟩
  · rw [hnone hfits]
    exact ⟨hpicks.stays fun hfit => absurd hfit hfits, hdistance⟩

/-- All candidates are seen. -/
theorem Best.run {seen : List String} {best? : Option (String × Nat)} (h : Best name seen best?)
    (candidates : List String) :
    Best name (seen ++ candidates) (candidates.foldl (better name) best?) := by
  induction candidates generalizing seen best? with
  | nil => rwa [List.append_nil]
  | cons candidate candidates ih =>
    have hrest := ih (h.step candidate)
    rwa [List.append_assoc] at hrest

/-- The closest of the candidates whose sizes are comparable is found. -/
theorem closest?_picks (name : String) (candidates : List String) :
    Picks name (fun c => Near name c ∧ Comparable name c) candidates
    (closest? name candidates) := by
  have start : Best name [] none := ⟨List.forall_mem_nil _, nofun⟩
  exact (start.run candidates).1

/-- Of words with characters of one byte each, the near ones have comparable sizes. -/
theorem Near.comparable (h : Near name candidate) (hname : ∀ c ∈ name.toList, c.utf8Size = 1)
    (hcandidate : ∀ c ∈ candidate.toList, c.utf8Size = 1) : Comparable name candidate := by
  have size {word : String} (hword : ∀ c ∈ word.toList, c.utf8Size = 1) :
      word.utf8ByteSize = word.toList.length := by
    rw [Text.utf8ByteSize_eq]
    generalize word.toList = cs at hword
    induction cs with
    | nil => rfl
    | cons c cs ih =>
      obtain ⟨hc, hcs⟩ := List.forall_mem_cons.1 hword
      rw [Text.byteSize_cons, ih hcs, hc, List.length_cons, Nat.add_comm]
  obtain ⟨hleft, hright⟩ := length_le_levenshtein name.toList candidate.toList
  have hle : levenshtein name.toList candidate.toList ≤ maxDistance name := h.le
  constructor <;> rw [size hname, size hcandidate] <;> omega

/-- Among words with characters of one byte each, the closest one is found. -/
theorem closest?_picks_near (hname : ∀ c ∈ name.toList, c.utf8Size = 1)
    (hcandidates : ∀ word ∈ candidates, ∀ c ∈ word.toList, c.utf8Size = 1) :
    Picks name (Near name) candidates (closest? name candidates) :=
  (closest?_picks name candidates).congr fun word hword =>
    ⟨And.left, fun h => ⟨h, h.comparable hname (hcandidates word hword)⟩⟩

end Similar

open FrontEnd.Similar

/-- **The closest name.** The question names the first of the closest candidates among those that
are near enough and of comparable size, and there is none exactly if there is no such candidate. If
all candidates that are near enough have comparable sizes, it is the closest one of all. -/
theorem didYouMean_closest (name : String) (candidates : List String) : ∃ found?,
    didYouMean name candidates = found?.map (fun found => "did you mean `" ++ found ++ "`?") ∧
      Picks name (fun c => Near name c ∧ Comparable name c) candidates found? ∧
      ((∀ c ∈ candidates, Near name c → Comparable name c) →
        Picks name (Near name) candidates found?) := by
  have hpicks := closest?_picks name candidates
  refine ⟨closest? name candidates, rfl, hpicks, fun hall => hpicks.congr fun c hc => ?_⟩
  exact ⟨And.left, fun near => ⟨near, hall c hc near⟩⟩

/-- An arrow of three bytes in the place of a single letter is not asked for, although it is
near. -/
theorem didYouMean_passes_over :
    didYouMean "x" ["→"] = none ∧ Near "x" "→" ∧ ¬Picks "x" (Near "x") ["→"] none := by
  have near : Near "x" "→" := ⟨by decide, by decide⟩
  exact ⟨by decide, near, fun h => h "→" (List.mem_singleton.2 rfl) near⟩

end FrontEnd
