import FrontEnd.Proofs.Following.Comparison

/-!
# Runs side by side

`Follows` says that a parser on the right does what a parser on the left does, as long as the left
run is not given up: both have results that are alike, or both fail, and the states stay linked. It
also keeps what is known of the left run alone, so that a run that is lost, or at the end of its
text, is known to stay so. The rules follow the way parsers are put together.

How much is known at the end of the left text may depend on the result. A parser with a firm grip
has linked states even there. With a slack grip the states may have drifted apart; only a parser
that has to read a token, and so fails there, can be run next.
-/

namespace FrontEnd

/-- Whether a brace may start a struct value when some of the open groups are closed. -/
def ParserState.braceOutside (s : ParserState) (δ : Nat) : Bool :=
  ((s.groups.take δ).getLast?.map (·.outerAllowsBrace)).getD s.allowsBrace

/-- Groups may be closed in two steps. -/
theorem ParserState.braceOutside_add {s s' : ParserState} {δ δ' : Nat}
    (hgroups : s'.groups = s.groups.drop δ) (hbrace : s'.allowsBrace = s.braceOutside δ) :
    s'.braceOutside δ' = s.braceOutside (δ + δ') := by
  unfold braceOutside at hbrace ⊢
  rw [hgroups, hbrace, List.take_add, List.getLast?_append]
  cases ((s.groups.drop δ).take δ').getLast? <;> rfl

theorem ParserState.closeGroup_brace (s : ParserState) :
    s.closeGroup.allowsBrace = s.braceOutside 1 := by
  obtain ⟨_, _, _, groups, _⟩ := s
  cases groups <;> rfl

/-- A left run with a result, which closes `δ` of the groups that were open. -/
structure OkRun (δ : Nat) (a b : Grip) (s s' : ParserState) : Prop where
  onward : s.Onward s'
  groups : s'.groups = s.groups.drop δ
  brace : s'.allowsBrace = s.braceOutside δ
  /-- At the end of the text no group is closed, and no grip is made firm. -/
  stops : s.rest = [] → δ = 0 ∧ (a = .slack → b = .slack)

/-- A left run that fails. At the end of the text all errors are fatal. -/
structure FailedRun (δ : Nat) (e : SyntaxError) (s s' : ParserState) : Prop where
  onward : s.Onward s'
  groups : s.groups.drop δ <:+ s'.groups
  fatal : s'.rest = [] → e.isFatal = true

/-- What is known of the left run alone. -/
def RunOutcome {α : Type} (δ : Nat) (a : Grip) (b : α → Grip) (s : ParserState) :
    EStateM.Result SyntaxError ParserState α → Prop
  | .ok x s' => OkRun δ a (b x) s s'
  | .error e s' => FailedRun δ e s s'

/-- What is known of both runs. -/
def Comparison.PairOutcome {α : Type} [Labeled α] (K : Comparison) (b : α → Grip) :
    EStateM.Result SyntaxError ParserState α → EStateM.Result SyntaxError ParserState α → Prop
  | .ok x s', r => K.Lost s' ∨ (b x = .slack ∧ K.Ended s') ∨
    ∃ y t', r = .ok y t' ∧ K.like.Alike x y ∧ K.Linked s' t'
  | .error e s', r => K.Given e s' ∨
    ∃ e' t', r = .error e' t' ∧ K.Errors e e' ∧ K.Linked s' t'

section Outcomes

variable {α β : Type} {K : Comparison} {δ δ' : Nat} {a : Grip} {b : α → Grip} {c : β → Grip}
  {s s₁ : ParserState}

/-- What is known of a run and of the one after it is known of both. -/
theorem RunOutcome.bind {p : Parser β} {f : β → Parser α} (first : RunOutcome δ a c s (p s))
    (hf : ∀ x s₁, p s = .ok x s₁ → RunOutcome δ' (c x) b s₁ (f x s₁)) :
    RunOutcome (δ + δ') a b s ((p >>= f) s) := by
  change RunOutcome _ a b s (EStateM.bind p f s)
  unfold EStateM.bind
  cases run₁ : p s with
  | error e s₁ =>
    rw [run₁] at first
    refine ⟨first.onward, ?_, first.fatal⟩
    rw [← List.drop_drop]
    exact (List.drop_suffix ..).trans first.groups
  | ok x s₁ =>
    rw [run₁] at first
    have second := hf x s₁ run₁
    dsimp only
    cases run₂ : f x s₁ with
    | error e s' =>
      rw [run₂] at second
      refine ⟨first.onward.trans second.onward, ?_, second.fatal⟩
      rw [← List.drop_drop, ← first.groups]
      exact second.groups
    | ok z s' =>
      rw [run₂] at second
      refine ⟨first.onward.trans second.onward, ?_, ?_, fun hnil => ?_⟩
      · rw [second.groups, first.groups, List.drop_drop]
      · rw [second.brace, ParserState.braceOutside_add first.groups first.brace]
      · obtain ⟨hδ, hac⟩ := first.stops hnil
        obtain ⟨hδ', hcb⟩ := second.stops (first.onward.rest_nil hnil)
        exact ⟨by rw [hδ, hδ'], fun ha => hcb (hac ha)⟩

/-- What is done behind an opening delimiter. -/
theorem RunOutcome.enter {i : Bool} (hrest : s.rest ≠ [])
    {r : EStateM.Result SyntaxError ParserState α}
    (run : RunOutcome 1 .slack b (s.advance.openGroup i) r) : RunOutcome 0 a b s r := by
  have onward := s.advance_onward.trans (s.advance.openGroup_onward i)
  have hgroups : (s.advance.openGroup i).groups.drop 1 = s.groups := by
    rw [ParserState.openGroup_groups, ParserState.advance_groups]
    rfl
  have hbrace : (s.advance.openGroup i).braceOutside 1 = s.allowsBrace := by
    unfold ParserState.braceOutside
    rw [ParserState.openGroup_groups, ← s.advance_brace]
    rfl
  cases r with
  | error e s' => exact ⟨onward.trans run.onward, hgroups ▸ run.groups, run.fatal⟩
  | ok x s' =>
    exact ⟨onward.trans run.onward, run.groups.trans hgroups, run.brace.trans hbrace,
      fun hnil => absurd hnil hrest⟩

variable [Labeled α] {r r' : EStateM.Result SyntaxError ParserState α}

/-- What comes after a lost state is lost, or the run is given up. -/
theorem Comparison.PairOutcome.lost (h : RunOutcome δ a b s₁ r) (hlost : K.Lost s₁) :
    K.PairOutcome b r r' := by
  cases r with
  | error e s' => exact Or.inl (K.lost_given hlost h.onward h.fatal)
  | ok z s' =>
    refine Or.inl (K.lost_onward hlost h.onward fun hnil => ?_)
    rw [h.groups, (h.stops hnil).1, List.drop_zero]

/-- At the end of the left text nothing is known of the right state, if the grip is slack. -/
theorem Comparison.PairOutcome.ended (h : RunOutcome δ .slack b s₁ r) (hended : K.Ended s₁) :
    K.PairOutcome b r r' := by
  have hnil := K.ended_rest hended
  cases r with
  | error e s' =>
    exact Or.inl (K.ended_given (K.ended_onward hended h.onward) (h.fatal (h.onward.rest_nil hnil)))
  | ok z s' => exact Or.inr (Or.inl ⟨(h.stops hnil).2 rfl, K.ended_onward hended h.onward⟩)

end Outcomes

/-- The right parser follows the left one, from a grip `a` to one given by the result, from all left
states in which `pre` holds. -/
structure FollowsTo {α : Type} [Labeled α] (K : Comparison) (δ : Nat) (a : Grip) (b : α → Grip)
    (pre : ParserState → Prop) (p q : Parser α) : Prop where
  runs : ∀ ⦃s⦄, s.final.kind = .eof → pre s → RunOutcome δ a b s (p s)
  pairs : ∀ ⦃s t⦄, K.Linked s t → pre s → ¬K.Lost s → (a = .slack → ¬K.Ended s) →
    δ ≤ s.groups.length → K.PairOutcome b (p s) (q t)

/-- The right parser follows the left one from a grip to another one. -/
abbrev Follows {α : Type} [Labeled α] (K : Comparison) (δ : Nat) (a b : Grip)
    (pre : ParserState → Prop) (p q : Parser α) : Prop :=
  FollowsTo K δ a (fun _ => b) pre p q

namespace FollowsTo

variable {α β : Type} [Labeled α] [Labeled β] {K : Comparison} {δ δ' : Nat} {a d : Grip}
  {b : α → Grip} {c : β → Grip} {pre : ParserState → Prop}

/-- A run with a result that is not lost, and has a firm grip, is followed to a result. -/
theorem result_right {p q : Parser α} (h : FollowsTo K 0 .firm b pre p q) {s s' t : ParserState}
    {x : α} (hlinked : K.Linked s t) (hpre : pre s) (hkept : ¬K.Lost s) (hrun : p s = .ok x s')
    (hkept' : ¬K.Lost s') (hb : b x = .firm) :
    ∃ y t', q t = .ok y t' ∧ K.like.Alike x y ∧ K.Linked s' t' := by
  have pair := h.pairs hlinked hpre hkept (by simp) (Nat.zero_le _)
  rw [hrun] at pair
  rcases pair with hlost | ⟨hslack, -⟩ | hright
  · exact absurd hlost hkept'
  · rw [hb] at hslack
    cases hslack
  · exact hright

/-- A result without reading. -/
theorem result_to {x y : α} (h : K.like.Alike x y) (hb : a = .slack → b x = .slack) :
    FollowsTo K 0 a b pre (Pure.pure x) (Pure.pure y) where
  runs := fun s _ _ => ⟨.refl s, rfl, rfl, fun _ => ⟨rfl, hb⟩⟩
  pairs := fun _ t hlinked _ _ _ _ => Or.inr (Or.inr ⟨y, t, rfl, h, hlinked⟩)

/-- The grip is kept. -/
theorem result {x y : α} (h : K.like.Alike x y) :
    Follows K 0 d d pre (Pure.pure x) (Pure.pure y) :=
  result_to h id

/-- A firm grip may become any. -/
theorem result_firm {x y : α} (h : K.like.Alike x y) :
    FollowsTo K 0 .firm b pre (Pure.pure x) (Pure.pure y) :=
  result_to h (by simp)

/-- One parser after another, where the left state between them is known to satisfy `mid`. -/
theorem seq_known (mid : β → ParserState → Prop) {p q : Parser β} {f f' : β → Parser α}
    (hp : FollowsTo K δ a c pre p q)
    (hmid : ∀ s x s', s.final.kind = .eof → pre s → p s = .ok x s' → mid x s')
    (hf : ∀ x y, K.like.Alike x y → FollowsTo K δ' (c x) b (mid x) (f x) (f' y)) :
    FollowsTo K (δ + δ') a b pre (p >>= f) (q >>= f') where
  runs := by
    intro s eof hpre
    have first := hp.runs eof hpre
    refine first.bind fun x s₁ run₁ => ?_
    rw [run₁] at first
    obtain ⟨y, hxy⟩ := K.like.exists_alike x
    exact (hf x y hxy).runs (first.onward.final ▸ eof) (hmid s x s₁ eof hpre run₁)
  pairs := by
    intro s t hlinked hpre hlost hgrip hδ
    have eof := K.eof hlinked
    change K.PairOutcome b (EStateM.bind p f s) (EStateM.bind q f' t)
    unfold EStateM.bind
    have first := hp.runs eof hpre
    have pair := hp.pairs hlinked hpre hlost hgrip (by omega)
    cases run₁ : p s with
    | error e s₁ =>
      rw [run₁] at pair
      rcases pair with hgiven | ⟨e', t₁, run', he', hlinked₁⟩
      · exact Or.inl hgiven
      · rw [run']
        exact Or.inr ⟨e', t₁, rfl, he', hlinked₁⟩
    | ok x s₁ =>
      rw [run₁] at pair first
      have hmid₁ := hmid s x s₁ eof hpre run₁
      obtain ⟨x', hxx'⟩ := K.like.exists_alike x
      have second := (hf x x' hxx').runs (first.onward.final ▸ eof) hmid₁
      by_cases hlost₁ : K.Lost s₁
      · exact .lost second hlost₁
      · by_cases hend₁ : c x = .slack ∧ K.Ended s₁
        · rw [hend₁.1] at second
          exact .ended second hend₁.2
        · rcases pair with hlost' | hend' | ⟨y, t₁, run', hxy, hlinked₁⟩
          · exact absurd hlost' hlost₁
          · exact absurd hend' hend₁
          · rw [run']
            refine (hf x y hxy).pairs hlinked₁ hmid₁ hlost₁ (fun hc he => hend₁ ⟨hc, he⟩) ?_
            rw [first.groups, List.length_drop]
            omega

/-- One parser that keeps the groups and another one after it. -/
theorem bind_known (mid : β → ParserState → Prop) {p q : Parser β} {f f' : β → Parser α}
    (hp : FollowsTo K 0 a c pre p q)
    (hmid : ∀ s x s', s.final.kind = .eof → pre s → p s = .ok x s' → mid x s')
    (hf : ∀ x y, K.like.Alike x y → FollowsTo K δ (c x) b (mid x) (f x) (f' y)) :
    FollowsTo K δ a b pre (p >>= f) (q >>= f') :=
  Nat.zero_add δ ▸ seq_known mid hp hmid hf

theorem bind {p q : Parser β} {f f' : β → Parser α} (hp : FollowsTo K 0 a c pre p q)
    (hf : ∀ x y, K.like.Alike x y → FollowsTo K δ (c x) b (fun _ => True) (f x) (f' y)) :
    FollowsTo K δ a b pre (p >>= f) (q >>= f') :=
  bind_known (fun _ _ => True) hp (fun _ _ _ _ _ _ => trivial) hf

/-- One parser that closes a group and another one after it. -/
theorem bind_leave {p q : Parser β} {f f' : β → Parser α} (hp : FollowsTo K 1 a c pre p q)
    (hf : ∀ x y, K.like.Alike x y → FollowsTo K 0 (c x) b (fun _ => True) (f x) (f' y)) :
    FollowsTo K 1 a b pre (p >>= f) (q >>= f') :=
  seq_known (fun _ _ => True) hp (fun _ _ _ _ _ _ => trivial) hf

/-- Less is assumed of the left state. -/
theorem mono {pre' : ParserState → Prop} {p q : Parser α} (h : FollowsTo K δ a b pre p q)
    (hpre : ∀ s, pre' s → pre s) : FollowsTo K δ a b pre' p q where
  runs := fun s eof hs => h.runs eof (hpre s hs)
  pairs := fun s _ hlinked hs => h.pairs hlinked (hpre s hs)

/-- What holds of all runs holds of those from some states. -/
theorem anywhere {p q : Parser α} (h : FollowsTo K δ a b (fun _ => True) p q) :
    FollowsTo K δ a b pre p q :=
  h.mono fun _ _ => trivial

/-- A grip may be slackened, and one that is not needed may be asked for. -/
theorem regrip {b' : α → Grip} {p q : Parser α} (h : FollowsTo K δ a b pre p q)
    (hb : ∀ x, b x = .slack → b' x = .slack) (ha : a = .firm → d = .slack → ∀ x, b' x = .slack) :
    FollowsTo K δ d b' pre p q where
  runs := by
    intro s eof hpre
    have run := h.runs eof hpre
    cases hrun : p s with
    | error e s' =>
      rw [hrun] at run
      exact run
    | ok x s' =>
      rw [hrun] at run
      refine ⟨run.onward, run.groups, run.brace, fun hnil => ⟨(run.stops hnil).1, ?_⟩⟩
      cases a with
      | firm => exact fun hd => ha rfl hd x
      | slack => exact fun _ => hb x ((run.stops hnil).2 rfl)
  pairs := by
    intro s t hlinked hpre hlost hgrip hδ
    by_cases hend : a = .slack ∧ K.Ended s
    · obtain ⟨rfl, hended⟩ := hend
      have hnil := K.ended_rest hended
      have run := h.runs (K.eof hlinked) hpre
      cases hrun : p s with
      | error e s' =>
        rw [hrun] at run
        exact Or.inl (K.ended_given (K.ended_onward hended run.onward)
          (run.fatal (run.onward.rest_nil hnil)))
      | ok x s' =>
        rw [hrun] at run
        exact Or.inr (Or.inl ⟨hb x ((run.stops hnil).2 rfl), K.ended_onward hended run.onward⟩)
    · have pair := h.pairs hlinked hpre hlost (fun ha he => hend ⟨ha, he⟩) hδ
      cases hrun : p s with
      | error e s' =>
        rw [hrun] at pair
        exact pair
      | ok x s' =>
        rw [hrun] at pair
        exact pair.imp_right (Or.imp_left (And.imp_left (hb x)))

/-- A parser can be run with a firmer grip than it needs. -/
theorem tighten {p q : Parser α} (h : FollowsTo K δ a b pre p q) (hd : d = .slack → a = .slack) :
    FollowsTo K δ d b pre p q :=
  h.regrip (fun _ => id) fun ha hd' => nomatch ha.symm.trans (hd hd')

/-- A parser that needs no grip can be run with any. -/
theorem of_slack {p q : Parser α} (h : FollowsTo K δ .slack b pre p q) :
    FollowsTo K δ a b pre p q :=
  h.tighten fun _ => rfl

/-- A firm grip does for every parser. -/
theorem with_firm {p q : Parser α} (h : FollowsTo K δ a b pre p q) :
    FollowsTo K δ .firm b pre p q :=
  h.tighten Grip.firm_elim

/-- The grip behind a parser may be used as a slack one. -/
theorem loosen {b' : α → Grip} {p q : Parser α} (h : FollowsTo K δ a b pre p q)
    (hb : ∀ x, b x = .slack → b' x = .slack) : FollowsTo K δ a b' pre p q :=
  h.regrip hb fun ha ha' => nomatch ha.symm.trans ha'

/-- A parser that keeps a firm grip keeps every grip. -/
theorem of_firm {p q : Parser α} (h : Follows K δ .firm .firm pre p q) :
    Follows K δ a a pre p q :=
  h.regrip (by simp) fun _ ha _ => ha

/-- A grip may be slackened. -/
theorem slacken {p q : Parser α} (h : FollowsTo K δ a b pre p q) : Follows K δ d .slack pre p q :=
  h.regrip (fun _ _ => rfl) fun _ _ _ => rfl

/-- A parser whose result is changed. -/
theorem map {p q : Parser β} {f : β → α} (hp : FollowsTo K δ a (fun x => b (f x)) pre p q)
    (hf : ∀ x y, K.like.Alike x y → K.like.Alike (f x) (f y)) :
    FollowsTo K δ a b pre (f <$> p) (f <$> q) where
  runs := by
    intro s eof hpre
    change RunOutcome δ a b s (EStateM.map f p s)
    unfold EStateM.map
    have run := hp.runs eof hpre
    cases hrun : p s with
    | error e s' =>
      rw [hrun] at run
      exact run
    | ok x s' =>
      rw [hrun] at run
      exact run
  pairs := by
    intro s t hlinked hpre hlost hgrip hδ
    change K.PairOutcome b (EStateM.map f p s) (EStateM.map f q t)
    unfold EStateM.map
    have pair := hp.pairs hlinked hpre hlost hgrip hδ
    cases hrun : p s with
    | error e s' =>
      rw [hrun] at pair
      rcases pair with hgiven | ⟨e', t', run', he', hlinked'⟩
      · exact Or.inl hgiven
      · rw [run']
        exact Or.inr ⟨e', t', rfl, he', hlinked'⟩
    | ok x s' =>
      rw [hrun] at pair
      rcases pair with hlost' | hend | ⟨y, t', run', hxy, hlinked'⟩
      · exact Or.inl hlost'
      · exact Or.inr (Or.inl hend)
      · rw [run']
        exact Or.inr (Or.inr ⟨f y, t', rfl, hf x y hxy, hlinked'⟩)

/-- A parser whose result is not used. -/
theorem discard {p q : Parser β} (hp : Follows K δ a d pre p q) :
    Follows K δ a d pre (Functor.discard p) (Functor.discard q) :=
  map (f := fun _ => ()) hp fun _ _ _ => rfl

/-- A parser that does not read shows the states it is run in. -/
theorem peek {γ : Type} [Labeled γ] (view : ParserState → γ) {f f' : γ → Parser α}
    (hview : ∀ s t, K.Linked s t → pre s → (a = .slack → ¬K.Ended s) →
      K.like.Alike (view s) (view t))
    (hf : ∀ x y, K.like.Alike x y → FollowsTo K δ a b (fun s => pre s ∧ view s = x) (f x) (f' y)) :
    FollowsTo K δ a b pre ((view <$> get) >>= f) ((view <$> get) >>= f') where
  runs := fun s eof hpre => by
    obtain ⟨y, hy⟩ := K.like.exists_alike (view s)
    exact (hf (view s) y hy).runs eof ⟨hpre, rfl⟩
  pairs := fun s t hlinked hpre hlost hgrip hδ =>
    (hf (view s) (view t) (hview s t hlinked hpre hgrip)).pairs hlinked ⟨hpre, rfl⟩ hlost hgrip hδ

/-- The states are looked at, where all that matters is some relation between them. -/
theorem look (R : ParserState → ParserState → Prop) {f f' : ParserState → Parser α}
    (hrefl : ∀ s, R s s)
    (hR : ∀ s t, K.Linked s t → pre s → (a = .slack → ¬K.Ended s) → R s t)
    (hf : ∀ s₀ t₀, R s₀ t₀ → FollowsTo K δ a b (fun s => pre s ∧ s = s₀) (f s₀) (f' t₀)) :
    FollowsTo K δ a b pre (get >>= f) (get >>= f') where
  runs := fun s eof hpre => (hf s s (hrefl s)).runs eof ⟨hpre, rfl⟩
  pairs := fun s t hlinked hpre hlost hgrip hδ =>
    (hf s t (hR s t hlinked hpre hgrip)).pairs hlinked ⟨hpre, rfl⟩ hlost hgrip hδ

/-- Where a token is at hand, a firm grip need not be asked for. -/
theorem of_token {p q : Parser α} (h : FollowsTo K δ .firm b pre p q)
    (hpre : ∀ s, pre s → s.kind ≠ .eof) : FollowsTo K δ a b pre p q where
  runs := by
    intro s eof hs
    have run := h.runs eof hs
    cases hrun : p s with
    | error e s' =>
      rw [hrun] at run
      exact run
    | ok x s' =>
      rw [hrun] at run
      refine ⟨run.onward, run.groups, run.brace, fun hnil => absurd hnil ?_⟩
      exact ParserState.rest_ne_nil eof (hpre s hs)
  pairs := fun s t hlinked hs hlost _ hδ => h.pairs hlinked hs hlost (by simp) hδ

/-- From no state there is nothing to follow. -/
theorem of_false {p q : Parser α} (hpre : ∀ s, ¬pre s) : FollowsTo K δ a b pre p q :=
  ⟨fun s _ hs => absurd hs (hpre s), fun s _ _ hs => absurd hs (hpre s)⟩

/-- A choice by a condition. -/
theorem ite {cond : Prop} [Decidable cond] {p p' q q' : Parser α}
    (hp : cond → FollowsTo K δ a b pre p p') (hq : ¬cond → FollowsTo K δ a b pre q q') :
    FollowsTo K δ a b pre (if cond then p else q) (if cond then p' else q') := by
  split
  · exact hp ‹cond›
  · exact hq ‹¬cond›

/-- A change of the states. -/
theorem update {f f' : ParserState → ParserState}
    (hf : ∀ s, s.final.kind = .eof → pre s → OkRun δ a d s (f s))
    (hlink : ∀ s t, K.Linked s t → pre s → ¬K.Lost s → (a = .slack → ¬K.Ended s) →
      δ ≤ s.groups.length →
      K.Lost (f s) ∨ (d = .slack ∧ K.Ended (f s)) ∨ K.Linked (f s) (f' t)) :
    Follows K δ a d pre (modify f) (modify f') where
  runs := hf
  pairs := fun s t hlinked hpre hlost hgrip hδ =>
    (hlink s t hlinked hpre hlost hgrip hδ).imp_right
      (Or.imp_right fun hlinked' => ⟨(), f' t, rfl, rfl, hlinked'⟩)

/-- What is followed at all is followed between braces. -/
theorem inside {p q : Parser α} (h : FollowsTo K δ a b pre p q) :
    FollowsTo K.inside δ a b pre p q where
  runs := h.runs
  pairs := by
    intro s t hlinked hpre hlost hgrip hδ
    have pair := h.pairs hlinked hpre (fun hlost' => hlost (Or.inl hlost')) hgrip hδ
    cases hrun : p s with
    | error e s' =>
      rw [hrun] at pair
      exact pair.imp_left Or.inl
    | ok x s' =>
      rw [hrun] at pair
      exact pair.imp_left Or.inl

/-- Where braces are compared, there is no difference between them. -/
theorem of_inside {p q : Parser α} (h : FollowsTo K.inside δ a b pre p q) (hbraces : K.braces) :
    FollowsTo K δ a b pre p q where
  runs := h.runs
  pairs := by
    intro s t hlinked hpre hlost hgrip hδ
    have hkept : ¬K.inside.Lost s := not_or.2 ⟨hlost, not_not.2 hbraces⟩
    have pair := h.pairs hlinked hpre hkept hgrip hδ
    cases hrun : p s with
    | error e s' =>
      rw [hrun] at pair
      exact pair.imp_left fun hgiven => hgiven.resolve_right (absurd hbraces)
    | ok x s' =>
      rw [hrun] at pair
      exact pair.imp_left fun hlost' => hlost'.resolve_right (absurd hbraces)

/-- A group is entered and left again by what comes after. -/
theorem enter_bind {i : Bool} {f f' : Unit → Parser α}
    (hopen : ∀ s, pre s → s.kind.isOpening = true ∧ (s.kind ≠ .symbol .lBrace → i = true))
    (hf : FollowsTo K 1 .slack b (fun _ => True) (f ()) (f' ())) :
    FollowsTo K 0 a b pre (Parse.advance >>= fun _ => Parse.openGroup i >>= f)
      (Parse.advance >>= fun _ => Parse.openGroup i >>= f') where
  runs := by
    intro s eof hpre
    have onward := s.advance_onward.trans (s.advance.openGroup_onward i)
    have hrest : s.rest ≠ [] :=
      ParserState.rest_ne_nil eof (ne_eof_of_isOpening (hopen s hpre).1)
    exact RunOutcome.enter hrest (hf.runs (onward.final ▸ eof) trivial)
  pairs := by
    intro s t hlinked hpre _ _ _
    have eof := K.eof hlinked
    have hrest : s.rest ≠ [] :=
      ParserState.rest_ne_nil eof (ne_eof_of_isOpening (hopen s hpre).1)
    have onward := s.advance_onward.trans (s.advance.openGroup_onward i)
    have hgroups : (s.advance.openGroup i).groups ≠ [] := by
      rw [ParserState.openGroup_groups]
      exact List.cons_ne_nil _ _
    change K.PairOutcome b (f () (s.advance.openGroup i)) (f' () (t.advance.openGroup i))
    by_cases hlost : K.Lost (s.advance.openGroup i)
    · exact .lost (hf.runs (onward.final ▸ eof) trivial) hlost
    · rcases K.enter hlinked hrest (hopen s hpre).1 (hopen s hpre).2 with hlost' | hlinked'
      · exact absurd hlost' hlost
      · exact hf.pairs hlinked' trivial hlost (fun _ hend => hlost (K.ended_lost hend hgroups))
          (List.length_pos_iff.2 hgroups)

/-- A group of braces is entered. Where these are left out, nothing has to be shown of it. -/
theorem enter_brace {i : Bool} {f f' : Unit → Parser α}
    (hbrace : ∀ s, pre s → s.kind = .symbol .lBrace)
    (hf : FollowsTo K.inside 1 .slack b (fun _ => True) (f ()) (f' ())) :
    FollowsTo K 0 a b pre (Parse.advance >>= fun _ => Parse.openGroup i >>= f)
      (Parse.advance >>= fun _ => Parse.openGroup i >>= f') := by
  have hopen (s : ParserState) (hs : pre s) :
      s.kind.isOpening = true ∧ (s.kind ≠ .symbol .lBrace → i = true) := by
    rw [hbrace s hs]
    exact ⟨rfl, absurd rfl⟩
  have entered : FollowsTo K.inside 0 a b pre
      (Parse.advance >>= fun _ => Parse.openGroup i >>= f)
      (Parse.advance >>= fun _ => Parse.openGroup i >>= f') := enter_bind hopen hf
  by_cases hbraces : K.braces
  · exact entered.of_inside hbraces
  · refine ⟨entered.runs, fun s t hlinked hpre _ _ _ => ?_⟩
    have eof := K.eof hlinked
    have hrest : s.rest ≠ [] :=
      ParserState.rest_ne_nil eof (ne_eof_of_isOpening (hopen s hpre).1)
    have onward := s.advance_onward.trans (s.advance.openGroup_onward i)
    have run : RunOutcome 1 .slack b (s.advance.openGroup i) (f () (s.advance.openGroup i)) :=
      hf.runs (onward.final ▸ eof) trivial
    exact .lost run (K.braced hbraces hlinked hrest (hbrace s hpre))

end FollowsTo

end FrontEnd
