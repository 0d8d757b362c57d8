import FrontEnd.Proofs.Following.Simulation

/-!
# Parsers that get on

Every parser is given a bound on the number of remaining tokens, for the depth of its recursion and
the rounds of its loops. `Progresses` compares a parser with the same one under another bound, from
states with fewer tokens left than both allow: they do the same, the text is read from the front,
and a run that stops has a reason to, which is never that the bound was used up. How much a run with
a result has read at least is its pace; the rules follow the way parsers are put together, and the
bound may be one less behind a token that was read.
-/

namespace FrontEnd

/-- An error that names what was expected without a comma, so that the text in front of the first
comma of its message is the whole of what was expected. -/
def SyntaxError.Plain (e : SyntaxError) : Prop :=
  ∀ what found, e.problem = .expected what found → ',' ∉ what.toList

/-- What the parser may report and then go on: warnings about parentheses, and errors that are not
fatal. -/
inductive Diagnostic.Recordable : Diagnostic → Prop
  | warning {form : ExprForm} {text : String} {span : Span}
    (useless : uselessParens? form = some text) : Recordable (.warning text span)
  | error {e : SyntaxError} (fatal : e.isFatal = false) (plain : e.Plain) :
    Recordable e.toDiagnostic

/-- Why a parser may stop in some state. -/
inductive SyntaxError.Justified (s : ParserState) : SyntaxError → Prop
  /-- The text ends where something else was expected. -/
  | ended {what : String} (plain : ',' ∉ what.toList) :
    Justified s ⟨.expected what .eof, s.final.span⟩
  /-- Too many errors were recorded. -/
  | full {span : Span} (count : maxErrors ≤ s.errorCount) : Justified s ⟨.tooManyErrors, span⟩
  /-- Reading goes on at the next boundary. -/
  | passing {e : SyntaxError} (fatal : e.isFatal = false) (plain : e.Plain) : Justified s e

/-- A fatal error stands for the end of the text or for too many errors. -/
theorem SyntaxError.Justified.of_fatal {s : ParserState} {e : SyntaxError} (h : e.Justified s)
    (fatal : e.isFatal = true) :
    (∃ what, ',' ∉ what.toList ∧ e = ⟨.expected what .eof, s.final.span⟩) ∨
      maxErrors ≤ s.errorCount ∧ e.problem = .tooManyErrors := by
  cases h with
  | ended plain => exact Or.inl ⟨_, plain, rfl⟩
  | full count => exact Or.inr ⟨count, rfl⟩
  | passing passes => exact absurd fatal (Bool.eq_false_iff.1 passes)

/-- No parser stops because it does not advance. -/
theorem SyntaxError.Justified.not_stalled {s : ParserState} {e : SyntaxError}
    (h : e.Justified s) : e.problem ≠ .stalled := by
  intro hstalled
  have fatal : e.isFatal = true := by
    unfold isFatal
    rw [hstalled]
  rcases h.of_fatal fatal with ⟨what, -, rfl⟩ | ⟨-, hfull⟩
  · cases hstalled
  · rw [hfull] at hstalled
    cases hstalled

/-- What was expected may be said at every token. -/
theorem ParserState.Sound.justified {s : ParserState} (sound : s.Sound) {what : String}
    (plain : ',' ∉ what.toList) : (s.expectedError what).Justified s := by
  unfold expectedError
  by_cases hend : s.kind = .eof
  · have hcurrent : s.current = s.final := by
      unfold current
      rw [sound.kind_eq_eof.1 hend]
      rfl
    rw [hend, hcurrent]
    exact .ended plain
  · refine .passing (beq_eq_false_iff_ne.2 hend) ?_
    rintro _ _ ⟨⟩
    exact plain

/-- What a later state shares with an earlier one, where nothing fatal was recorded. -/
structure ParserState.Leads (s s' : ParserState) : Prop extends s.Onward s' where
  recorded : (∀ d ∈ s.diagnostics, d.Recordable) → ∀ d ∈ s'.diagnostics, d.Recordable

namespace ParserState

/-- A state that reports the same. -/
theorem Onward.leads {s s' : ParserState} (h : s.Onward s')
    (hsame : s'.diagnostics = s.diagnostics) : s.Leads s' :=
  ⟨h, by rw [hsame]; exact id⟩

/-- No step leads anywhere else. -/
theorem Leads.refl (s : ParserState) : s.Leads s := (Onward.refl s).leads rfl

/-- Two steps in a row lead where the second one does. -/
theorem Leads.trans {s s' s'' : ParserState} (h : s.Leads s') (h' : s'.Leads s'') :
    s.Leads s'' :=
  ⟨h.toOnward.trans h'.toOnward, fun hs => h'.recorded (h.recorded hs)⟩

/-- There are no more tokens left. -/
theorem Onward.length_le {s s' : ParserState} (h : s.Onward s') :
    s'.rest.length ≤ s.rest.length :=
  h.rest.length_le

/-- A report of a permitted kind. -/
theorem report_leads {d : Diagnostic} (h : d.Recordable) (s : ParserState) :
    s.Leads (s.report d) := by
  refine ⟨s.report_onward d, fun hs d' hd' => ?_⟩
  rcases List.mem_append.1 hd' with hd' | hd'
  · exact hs d' hd'
  · rw [List.mem_singleton.1 hd']
    exact h

/-- A step over the token at hand reads it, unless the text ends there. -/
theorem advance_length {s : ParserState} (h : s.rest ≠ []) :
    s.advance.rest.length < s.rest.length := by
  obtain ⟨t, rest, hrest⟩ := List.exists_cons_of_ne_nil h
  rw [advance_eq hrest, hrest]
  exact Nat.lt_succ_of_le (List.dropWhile_suffix _).length_le

end ParserState

/-- What a run with a result has done at least. -/
inductive Pace where
  /-- Nothing may have happened. -/
  | stays
  /-- A token was read or an error was recorded. -/
  | reports
  /-- A token was read. -/
  | reads

/-- Whether two states show some pace. -/
def Pace.Made : Pace → ParserState → ParserState → Prop
  | stays, _, _ => True
  | reports, s, s' => s'.rest.length < s.rest.length ∨ s.errorCount < s'.errorCount
  | reads, s, s' => s'.rest.length < s.rest.length

/-- A token that was read will do for every pace. -/
theorem Pace.made_of_lt {pace : Pace} {s s' : ParserState}
    (h : s'.rest.length < s.rest.length) : pace.Made s s' := by
  cases pace with
  | stays => trivial
  | reports => exact Or.inl h
  | reads => exact h

/-- What was done since a later state was done since an earlier one. -/
theorem Pace.Made.since {pace : Pace} {s s₁ s' : ParserState} (h : pace.Made s₁ s')
    (on : s.Onward s₁) : pace.Made s s' := by
  cases pace with
  | stays => trivial
  | reports =>
    rcases h with hlt | hlt
    · exact Or.inl (Nat.lt_of_lt_of_le hlt on.length_le)
    · exact Or.inr (Nat.lt_of_le_of_lt on.count hlt)
  | reads => exact Nat.lt_of_lt_of_le h on.length_le

/-- What was done before an earlier state was done before a later one. -/
theorem Pace.Made.until {pace : Pace} {s s₁ s' : ParserState} (h : pace.Made s s₁)
    (on : s₁.Onward s') : pace.Made s s' := by
  cases pace with
  | stays => trivial
  | reports =>
    rcases h with hlt | hlt
    · exact Or.inl (Nat.lt_of_le_of_lt on.length_le hlt)
    · exact Or.inr (Nat.lt_of_lt_of_le hlt on.count)
  | reads => exact Nat.lt_of_le_of_lt on.length_le h

/-- What a run from `s` shows. -/
def ProgressOutcome {α : Type} (pace : Pace) (s : ParserState) :
    EStateM.Result SyntaxError ParserState α → Prop
  | .ok _ s' => s.Leads s' ∧ pace.Made s s'
  | .error e s' => s.Leads s' ∧ e.Justified s'

/-- From states with fewer than `n` tokens left in which `pre` holds, two parsers do the same, at
some pace. -/
def Progresses {α : Type} (n : Nat) (pace : Pace) (pre : ParserState → Prop) (p q : Parser α) :
    Prop :=
  ∀ ⦃s⦄, s.Sound → s.rest.length < n → pre s → q s = p s ∧ ProgressOutcome pace s (p s)

/-- Induction on the rounds of a loop under two bounds, as many of them as both admit. -/
theorem rounds_induction {motive : (k n n' : Nat) → k ≤ n → k ≤ n' → Prop}
    (zero : ∀ n n', motive 0 n n' (Nat.zero_le n) (Nat.zero_le n'))
    (succ : ∀ k n n' (hn : k ≤ n) (hn' : k ≤ n'), motive k n n' hn hn' →
      motive (k + 1) (n + 1) (n' + 1) (Nat.succ_le_succ hn) (Nat.succ_le_succ hn'))
    (k n n' : Nat) (hn : k ≤ n) (hn' : k ≤ n') : motive k n n' hn hn' := by
  induction k generalizing n n' with
  | zero => exact zero n n'
  | succ k ih =>
    obtain ⟨n, rfl⟩ : ∃ i, n = i + 1 := ⟨n - 1, by omega⟩
    obtain ⟨n', rfl⟩ : ∃ i, n' = i + 1 := ⟨n' - 1, by omega⟩
    exact succ k n n' _ _ (ih n n' (Nat.le_of_succ_le_succ hn) (Nat.le_of_succ_le_succ hn'))

namespace Progresses

variable {α β : Type} {n k : Nat} {pace c : Pace} {pre : ParserState → Prop}

/-- There are no states with fewer than no tokens left. -/
theorem zero {p q : Parser α} : Progresses 0 pace pre p q :=
  fun s _ hlt => absurd hlt (Nat.not_lt_zero s.rest.length)

/-- A slower pace, fewer tokens and more that is known. -/
theorem mono {pre' : ParserState → Prop} {p q : Parser α} (h : Progresses n c pre p q)
    (hpace : ∀ s s', s.Leads s' → c.Made s s' → pace.Made s s') (hk : k ≤ n)
    (hpre : ∀ s, pre' s → pre s) : Progresses k pace pre' p q := by
  intro s sound hlt hs
  obtain ⟨heq, run⟩ := h sound (Nat.lt_of_lt_of_le hlt hk) (hpre s hs)
  refine ⟨heq, ?_⟩
  cases hrun : p s with
  | error e s' =>
    rw [hrun] at run
    exact run
  | ok x s' =>
    rw [hrun] at run
    exact ⟨run.1, hpace s s' run.1 run.2⟩

/-- Behind tokens that were read, all that matters is that a parser gets on. -/
theorem later {p q : Parser α} (h : Progresses n c (fun _ => True) p q) (hk : k ≤ n) :
    Progresses k .stays pre p q :=
  h.mono (fun _ _ _ _ => trivial) hk fun _ _ => trivial

/-- With fewer tokens. -/
theorem fewer {p q : Parser α} (h : Progresses n pace pre p q) (hk : k ≤ n) :
    Progresses k pace pre p q :=
  h.mono (fun _ _ _ => id) hk fun _ => id

/-- What holds of runs from some states holds of those from fewer states. -/
theorem known {pre' : ParserState → Prop} {p q : Parser α} (h : Progresses n pace pre' p q)
    (hpre : ∀ s, pre s → pre' s) : Progresses n pace pre p q :=
  h.mono (fun _ _ _ => id) (Nat.le_refl n) hpre

/-- What holds of all runs holds of those from some states. -/
theorem anywhere {p q : Parser α} (h : Progresses n pace (fun _ => True) p q) :
    Progresses n pace pre p q :=
  h.known fun _ _ => trivial

/-- A parser that reads a token. -/
theorem of_reads {p q : Parser α} (h : Progresses n .reads pre p q) :
    Progresses n pace pre p q :=
  h.mono (fun _ _ _ => Pace.made_of_lt) (Nat.le_refl n) fun _ => id

/-- A result without reading. -/
theorem pure {x : α} : Progresses n .stays pre (Pure.pure x) (Pure.pure x) :=
  fun s _ _ _ => ⟨rfl, .refl s, trivial⟩

/-- A failure that has a reason. -/
theorem failed {e : SyntaxError} (h : ∀ s, s.Sound → pre s → e.Justified s) :
    Progresses n pace pre (throw e : Parser α) (throw e) :=
  fun s sound _ hs => ⟨rfl, .refl s, h s sound hs⟩

/-- Nothing comes after a failure. -/
theorem failed_bind {e : SyntaxError} {f f' : α → Parser β}
    (h : ∀ s, s.Sound → pre s → e.Justified s) :
    Progresses n pace pre ((throw e : Parser α) >>= f) (throw e >>= f') :=
  fun s sound _ hs => ⟨rfl, .refl s, h s sound hs⟩

/-- One parser after another, where it is known which state lies between them. -/
theorem seq {a b : Pace} {p q : Parser α} {f f' : α → Parser β} (hp : Progresses n a pre p q)
    (hf : ∀ x s s₁, s.Sound → s.rest.length < n → s.Leads s₁ → a.Made s s₁ →
      f' x s₁ = f x s₁ ∧ ProgressOutcome b s₁ (f x s₁))
    (hc : ∀ s s₁ s', s.Leads s₁ → s₁.Leads s' → a.Made s s₁ → b.Made s₁ s' → c.Made s s') :
    Progresses n c pre (p >>= f) (q >>= f') := by
  intro s sound hlt hs
  obtain ⟨heq, first⟩ := hp sound hlt hs
  change EStateM.bind q f' s = EStateM.bind p f s ∧ ProgressOutcome c s (EStateM.bind p f s)
  unfold EStateM.bind
  rw [heq]
  cases hrun : p s with
  | error e s₁ =>
    rw [hrun] at first
    exact ⟨rfl, first⟩
  | ok x s₁ =>
    rw [hrun] at first
    obtain ⟨heq', second⟩ := hf x s s₁ sound hlt first.1 first.2
    refine ⟨heq', ?_⟩
    dsimp only
    cases hrun' : f x s₁ with
    | error e s' =>
      rw [hrun'] at second
      exact ⟨first.1.trans second.1, second.2⟩
    | ok y s' =>
      rw [hrun'] at second
      exact ⟨first.1.trans second.1, hc s s₁ s' first.1 second.1 first.2 second.2⟩

/-- One parser after another. -/
theorem bind {a : Pace} {p q : Parser α} {f f' : α → Parser β} (hp : Progresses n a pre p q)
    (hf : ∀ x, Progresses n c (fun _ => True) (f x) (f' x)) :
    Progresses n c pre (p >>= f) (q >>= f') :=
  hp.seq (fun x _ _ sound hlt leads _ =>
      hf x (leads.sound sound) (Nat.lt_of_le_of_lt leads.length_le hlt) trivial)
    fun _ _ _ leads _ _ made => made.since leads.toOnward

/-- One parser after another, the first of which sets the pace. -/
theorem bind_then {p q : Parser α} {f f' : α → Parser β} (hp : Progresses n c pre p q)
    (hf : ∀ x, Progresses n .stays (fun _ => True) (f x) (f' x)) :
    Progresses n c pre (p >>= f) (q >>= f') :=
  hp.seq (fun x _ _ sound hlt leads _ =>
      hf x (leads.sound sound) (Nat.lt_of_le_of_lt leads.length_le hlt) trivial)
    fun _ _ _ _ leads made _ => made.until leads.toOnward

/-- A token is read; behind it there are fewer. -/
theorem read_bind {p q : Parser α} {f f' : α → Parser β} (hp : Progresses (n + 1) .reads pre p q)
    (hf : ∀ x, Progresses n .stays (fun _ => True) (f x) (f' x)) :
    Progresses (n + 1) pace pre (p >>= f) (q >>= f') :=
  hp.seq (fun x _ _ sound hlt leads made =>
      hf x (leads.sound sound) (Nat.lt_of_lt_of_le made (Nat.le_of_lt_succ hlt)) trivial)
    fun _ _ _ _ leads made _ => Pace.made_of_lt (Nat.lt_of_le_of_lt leads.length_le made)

/-- The order in which parsers are put together does not matter. -/
theorem assoc {γ : Type} {p q : Parser α} {r r' : α → Parser β} {f f' : β → Parser γ}
    (h : Progresses n pace pre (p >>= fun x => r x >>= f) (q >>= fun x => r' x >>= f')) :
    Progresses n pace pre ((p >>= r) >>= f) ((q >>= r') >>= f') := by
  rwa [bind_assoc, bind_assoc]

/-- A parser whose result is changed. -/
theorem map {p q : Parser α} {f : α → β} (hp : Progresses n pace pre p q) :
    Progresses n pace pre (f <$> p) (f <$> q) := by
  intro s sound hlt hs
  obtain ⟨heq, run⟩ := hp sound hlt hs
  change EStateM.map f q s = EStateM.map f p s ∧ ProgressOutcome pace s (EStateM.map f p s)
  unfold EStateM.map
  rw [heq]
  refine ⟨rfl, ?_⟩
  cases hrun : p s with
  | error e s' =>
    rw [hrun] at run
    exact run
  | ok x s' =>
    rw [hrun] at run
    exact run

/-- A parser whose result is not used. -/
theorem discard {p q : Parser α} (hp : Progresses n pace pre p q) :
    Progresses n pace pre (Functor.discard p) (Functor.discard q) :=
  hp.map

/-- A look at the state. -/
theorem peek (view : ParserState → α) {f f' : α → Parser β}
    (hf : ∀ x, Progresses n pace (fun s => pre s ∧ view s = x) (f x) (f' x)) :
    Progresses n pace pre ((view <$> get) >>= f) ((view <$> get) >>= f') :=
  fun s sound hlt hs => hf (view s) sound hlt ⟨hs, rfl⟩

/-- A look at the whole state. -/
theorem state {f f' : ParserState → Parser α}
    (hf : ∀ x, Progresses n pace (fun s => pre s ∧ s = x) (f x) (f' x)) :
    Progresses n pace pre (get >>= f) (get >>= f') :=
  fun s sound hlt hs => hf s sound hlt ⟨hs, rfl⟩

/-- A change of the state. -/
theorem update {f : ParserState → ParserState}
    (h : ∀ s, s.Sound → pre s → s.Leads (f s) ∧ pace.Made s (f s)) :
    Progresses n pace pre (modify f) (modify f) :=
  fun s sound _ hs => ⟨rfl, h s sound hs⟩

/-- A change that does not read and does not report. -/
theorem quiet {f : ParserState → ParserState}
    (h : ∀ s, s.Onward (f s) ∧ (f s).diagnostics = s.diagnostics) :
    Progresses n .stays pre (modify f) (modify f) :=
  update fun s _ _ => ⟨(h s).1.leads (h s).2, trivial⟩

/-- A change of the state after which more is known. -/
theorem update_bind {f : ParserState → ParserState} (post : ParserState → Prop)
    {p q : Unit → Parser α} (h : ∀ s, s.Sound → pre s → s.Leads (f s) ∧ post (f s))
    (hp : Progresses n pace post (p ()) (q ())) :
    Progresses n pace pre (modify f >>= p) (modify f >>= q) := by
  intro s sound hlt hs
  obtain ⟨leads, hpost⟩ := h s sound hs
  obtain ⟨heq, run⟩ := hp (leads.sound sound) (Nat.lt_of_le_of_lt leads.length_le hlt) hpost
  refine ⟨heq, ?_⟩
  change ProgressOutcome pace s (p () (f s))
  cases hrun : p () (f s) with
  | error e s' =>
    rw [hrun] at run
    exact ⟨leads.trans run.1, run.2⟩
  | ok x s' =>
    rw [hrun] at run
    exact ⟨leads.trans run.1, run.2.since leads.toOnward⟩

/-- A choice by a condition. -/
theorem ite {cond : Prop} [Decidable cond] {p p' q q' : Parser α}
    (hp : cond → Progresses n pace pre p p') (hq : ¬cond → Progresses n pace pre q q') :
    Progresses n pace pre (if cond then p else q) (if cond then p' else q') := by
  split
  · exact hp ‹cond›
  · exact hq ‹¬cond›

end Progresses

namespace Parse

open Progresses

variable {α : Type} {n : Nat} {pace : Pace} {pre : ParserState → Prop}

/-- A step may stay at the end of the text. -/
theorem advance_progresses : Progresses n .stays pre advance advance :=
  quiet fun s => ⟨s.advance_onward, s.advance_kept.2⟩

/-- A step over a token that is there. -/
theorem advance_reads_token (h : ∀ s, pre s → s.kind ≠ .eof) :
    Progresses n .reads pre advance advance :=
  update fun s sound hs => ⟨s.advance_onward.leads s.advance_kept.2,
    ParserState.advance_length (sound.rest_ne_nil (h s hs))⟩

/-- Line breaks are stepped over. -/
theorem skipNewlines_progresses : Progresses n .stays pre skipNewlines skipNewlines :=
  quiet fun s => ⟨s.skipWhile_onward _, rfl⟩

/-- The ends of statements are stepped over. -/
theorem skipTerminators_progresses : Progresses n .stays pre skipTerminators skipTerminators :=
  quiet fun s => ⟨s.skipWhile_onward _, rfl⟩

/-- So is what stands between the entries of a list. -/
theorem skipSeparators_progresses : Progresses n .stays pre skipSeparators skipSeparators :=
  quiet fun s => ⟨s.skipWhile_onward _, rfl⟩

/-- A group is entered. -/
theorem openGroup_progresses (ignored : Bool) :
    Progresses n .stays pre (openGroup ignored) (openGroup ignored) :=
  quiet fun s => ⟨s.openGroup_onward ignored, by cases ignored <;> rfl⟩

/-- A group is left. -/
theorem closeGroup_progresses : Progresses n .stays pre closeGroup closeGroup :=
  quiet fun s => ⟨s.closeGroup_onward, s.closeGroup_kept.2.2⟩

/-- Stopping because something else was expected. -/
theorem failExpected_progresses {what : String} (plain : ',' ∉ what.toList) :
    Progresses n pace pre (failExpected what : Parser α) (failExpected what) :=
  state fun _ => failed fun _ sound hs => hs.2 ▸ sound.justified plain

/-- A token that may be at hand; behind it there are fewer. -/
theorem accept_bind {k : TokenKind} (hk : k ≠ .eof) {f f' : Bool → Parser α}
    (found : Progresses n .stays (fun _ => True) (f true) (f' true))
    (missing : Progresses (n + 1) pace (fun _ => True) (f false) (f' false)) :
    Progresses (n + 1) pace pre (accept k >>= f) (accept k >>= f') := by
  refine assoc (peek _ fun there => ?_)
  cases there with
  | true =>
    refine assoc (read_bind (advance_reads_token fun s hs => ?_) fun _ => found)
    rw [eq_of_beq hs.2]
    exact hk
  | false => exact missing.anywhere

/-- The same for a symbol. -/
theorem acceptSymbol_bind {mark : Symbol} {f f' : Bool → Parser α}
    (found : Progresses n .stays (fun _ => True) (f true) (f' true))
    (missing : Progresses (n + 1) pace (fun _ => True) (f false) (f' false)) :
    Progresses (n + 1) pace pre (acceptSymbol mark >>= f) (acceptSymbol mark >>= f') :=
  accept_bind (by simp) found missing

/-- What is done where a symbol is at hand, and what is done otherwise. -/
theorem acceptSymbol_ite {mark : Symbol} {p p' q q' : Parser α}
    (found : Progresses n .stays (fun _ => True) p p')
    (missing : Progresses (n + 1) pace (fun _ => True) q q') :
    Progresses (n + 1) pace pre (acceptSymbol mark >>= fun there => if there then p else q)
      (acceptSymbol mark >>= fun there => if there then p' else q') :=
  acceptSymbol_bind (.ite (fun _ => found) fun h => absurd rfl h)
    (.ite (fun h => absurd h (by decide)) fun _ => missing)

/-- The same, asked for the other way round. -/
theorem acceptSymbol_unless {mark : Symbol} {p p' q q' : Parser α}
    (found : Progresses n .stays (fun _ => True) p p')
    (missing : Progresses (n + 1) pace (fun _ => True) q q') :
    Progresses (n + 1) pace pre (acceptSymbol mark >>= fun there => if !there then q else p)
      (acceptSymbol mark >>= fun there => if !there then q' else p') :=
  acceptSymbol_bind (.ite (fun h => absurd h (by decide)) fun _ => found)
    (.ite (fun _ => missing) fun h => absurd rfl h)

/-- A token that may be there. -/
theorem accept_progresses (k : TokenKind) : Progresses n .stays pre (accept k) (accept k) :=
  peek _ fun _ => .ite (fun _ => advance_progresses.bind fun _ => pure) fun _ => pure

/-- A symbol that may be there. -/
theorem acceptSymbol_progresses {mark : Symbol} :
    Progresses n .stays pre (acceptSymbol mark) (acceptSymbol mark) :=
  accept_progresses (.symbol mark)

/-- A token that has to be at hand is read. -/
theorem expect_progresses {k : TokenKind} (hk : k ≠ .eof) (plain : ',' ∉ (quoted k).toList) :
    Progresses n .reads pre (expect k) (expect k) := by
  refine peek _ fun there => .ite (fun h => ?_) fun _ => failExpected_progresses plain
  refine peek _ fun span => (advance_reads_token fun s hs => ?_).bind_then fun _ => pure
  rw [eq_of_beq (hs.1.2.trans h)]
  exact hk

/-- Symbols other than the comma are named without one. -/
theorem plain_symbol {mark : Symbol} (hmark : mark ≠ .comma) :
    ',' ∉ (quoted (.symbol mark)).toList := by
  cases mark <;> first | exact absurd rfl hmark | decide

/-- So are keywords. -/
theorem plain_keyword (word : Keyword) : ',' ∉ (quoted (.keyword word)).toList := by
  cases word <;> decide

/-- A symbol that has to be there is read. -/
theorem expectSymbol_progresses {mark : Symbol} (hmark : mark ≠ .comma) :
    Progresses n .reads pre (expectSymbol mark) (expectSymbol mark) :=
  expect_progresses (by simp) (plain_symbol hmark)

/-- A keyword that has to be there is read. -/
theorem expectKeyword_progresses (word : Keyword) :
    Progresses n .reads pre (expectKeyword word) (expectKeyword word) :=
  expect_progresses (by simp) (plain_keyword word)

/-- A name that has to be at hand is read. -/
theorem expectIdent_progresses : Progresses n .reads pre expectIdent expectIdent := by
  refine peek _ fun t => ?_
  split
  · refine (advance_reads_token fun s hs => ?_).bind_then fun _ => pure
    unfold ParserState.kind
    rw [hs.2]
    simp
  · exact failExpected_progresses (by decide)

/-- An error is recorded. -/
theorem record_progresses {e : SyntaxError} (fatal : e.isFatal = false) (plain : e.Plain) :
    Progresses n .reports pre (record e) (record e) :=
  update fun s _ _ => ⟨s.report_leads (.error fatal plain),
    Or.inr (s.record_count e ▸ Nat.lt_succ_self s.errorCount)⟩

/-- An error that expects nothing is plain. -/
theorem plain_of_ne {e : SyntaxError} (h : ∀ what found, e.problem ≠ .expected what found) :
    e.Plain :=
  fun what found heq => absurd heq (h what found)

/-- Something that is missing is reported, unless the text is at its end. -/
theorem reportExpected_progresses {what : String} (plain : ',' ∉ what.toList) :
    Progresses n .reports pre (reportExpected what) (reportExpected what) := by
  refine state fun x => ?_
  dsimp only
  split
  · exact failed_bind fun s sound hs => hs.2 ▸ sound.justified plain
  · rename_i hfatal
    refine record_progresses (Bool.not_eq_true _ ▸ hfatal) ?_
    rintro _ _ ⟨⟩
    exact plain

/-- A group that is left through its closing symbol, or with an error. -/
theorem close_progresses {mark : Symbol} (hmark : mark ≠ .comma) :
    Progresses n .stays pre (close mark) (close mark) := by
  refine closeGroup_progresses.bind fun _ => acceptSymbol_progresses.bind fun found => ?_
  refine .ite (fun _ => pure) fun _ => ?_
  exact (reportExpected_progresses (plain_symbol hmark)).bind fun _ => pure

/-- A group is closed by its symbol, which is read. -/
theorem closeStrict_progresses {mark : Symbol} (hmark : mark ≠ .comma) :
    Progresses n .reads pre (closeStrict mark) (closeStrict mark) :=
  closeGroup_progresses.bind fun _ => (expectSymbol_progresses hmark).discard

/-- A number is given out. -/
theorem freshId_progresses : Progresses n .stays pre freshId freshId :=
  fun s _ _ _ => ⟨rfl, ⟨⟨rfl, List.suffix_refl s.rest, List.prefix_refl _⟩, id⟩, trivial⟩

/-- A new node gets a number. -/
theorem origin_progresses {span : Span} : Progresses n .stays pre (origin span) (origin span) :=
  freshId_progresses.bind fun _ => pure

/-- So does a new expression. -/
theorem newExpr_progresses {form : ExprForm} {span : Span} :
    Progresses n .stays pre (newExpr form span) (newExpr form span) :=
  origin_progresses.bind fun _ => pure

/-- So does a new type. -/
theorem newType_progresses {form : TypeForm} {span : Span} :
    Progresses n .stays pre (newType form span) (newType form span) :=
  origin_progresses.bind fun _ => pure

/-- Elements between commas: every round but the last one reads a comma. -/
theorem commaList_progresses {closes : TokenKind → Bool} {gap : Parser Unit}
    {element element' : Parser α} {m m' : Nat}
    (hgap : Progresses n .stays (fun _ => True) gap gap)
    (helement : Progresses n .stays (fun _ => True) element element') (hm : n ≤ m) (hm' : n ≤ m')
    (afterComma : Bool) :
    Progresses n .stays pre (commaList closes gap element m afterComma)
      (commaList closes gap element' m' afterComma) := by
  induction n, m, m', hm, hm' using rounds_induction generalizing afterComma pre with
  | zero => exact zero
  | succ n m m' _ _ ih =>
    unfold commaList
    refine peek _ fun k => .ite (fun _ => pure) fun _ => helement.anywhere.bind fun x => ?_
    -- Behind the comma there are fewer tokens for the rounds that follow.
    have gap' := hgap.fewer (Nat.le_succ n)
    refine acceptSymbol_ite (gap'.bind fun _ => ?_) pure
    exact (ih gap' (helement.fewer (Nat.le_succ n)) true).bind fun r => pure

/-- Elements between commas up to a symbol. -/
theorem commaListTo_progresses {mark : Symbol} {element element' : Parser α} {m m' : Nat}
    (helement : Progresses n .stays (fun _ => True) element element') (hm : n ≤ m)
    (hm' : n ≤ m') :
    Progresses n .stays pre (commaListTo m mark element) (commaListTo m' mark element') :=
  (commaList_progresses pure helement hm hm' false).map

end Parse

end FrontEnd
