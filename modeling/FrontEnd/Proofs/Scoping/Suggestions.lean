import FrontEnd.Proofs.Scoping.Modules
import FrontEnd.Proofs.Scoping.Script
import Mathlib.Data.List.Sort
import Mathlib.Data.String.Basic

/-!
# Suggested names

For a name that is not in sight, the names in all scopes are searched for a similar one. A name that
is suggested can be looked up where the other one could not, except by a global path: there, only
the module and what the language provides are looked at, but the names inside the module are
suggested too.
-/

namespace FrontEnd

/-- The question whether a name was meant. -/
def asksFor (name : String) : String := "did you mean `" ++ name ++ "`?"

/-- Different names make different questions. -/
theorem asksFor_injective {name name' : String} (h : asksFor name = asksFor name') :
    name = name' := by
  have hlist := congrArg String.toList h
  unfold asksFor at hlist
  simp only [String.toList_append] at hlist
  exact String.toList_injective (List.append_cancel_left (List.append_cancel_right hlist))

namespace Similar

/-- The better of two candidates is one of them. -/
theorem better_mem {name : String} {best? : Option (String × Nat)} {candidate found : String}
    {d : Nat} (h : better name best? candidate = some (found, d)) :
    found = candidate ∨ best? = some (found, d) := by
  unfold better at h
  split at h
  · exact .inr h
  · cases h
    exact .inl rfl
  · split at h
    · cases h
      exact .inl rfl
    · exact .inr h

/-- The closest candidate is one of them. -/
theorem closest?_mem {name found : String} {candidates : List String}
    (h : closest? name candidates = some found) : found ∈ candidates := by
  have best (candidates : List String) (best? : Option (String × Nat)) {d : Nat}
      (h : candidates.foldl (better name) best? = some (found, d)) :
      found ∈ candidates ∨ best? = some (found, d) := by
    induction candidates generalizing best? with
    | nil => exact .inr h
    | cons candidate candidates ih =>
      rcases ih _ h with hlater | hbetter
      · exact .inl (List.mem_cons_of_mem _ hlater)
      · rcases better_mem hbetter with rfl | hbefore
        · exact .inl List.mem_cons_self
        · exact .inr hbefore
  obtain ⟨⟨_, d⟩, hfold, rfl⟩ := Option.map_eq_some_iff.1 h
  exact (best candidates none hfold).resolve_right nofun

end Similar

/-- A question asks for one of the candidates. -/
theorem didYouMean_mem {name found : String} {candidates : List String}
    (h : didYouMean name candidates = some (asksFor found)) : found ∈ candidates := by
  obtain ⟨closest, hclosest, hasks⟩ := Option.map_eq_some_iff.1 h
  rw [← asksFor_injective hasks]
  exact Similar.closest?_mem hclosest

/-- The names of a scope come in the order of names. -/
theorem Scope.names_sorted (scope : Scope) (space : Namespace) :
    (scope.sorted space).map (·.1) = ((scope.bindings space).map (·.1)).insertionSort (· ≤ ·) := by
  rw [← List.mergeSort_eq_insertionSort]
  refine List.map_mergeSort fun a _ b _ => ?_
  rw [← decide_not]
  exact decide_eq_decide.2 not_lt

/-- A name among those of a scope has a binding there. -/
theorem Scope.isSome_get? {scope : Scope} {space : Namespace} {name : String}
    (h : name ∈ (scope.sorted space).map (·.1)) : (scope.get? space name).isSome = true := by
  obtain ⟨entry, hentry, rfl⟩ := List.mem_map.1 h
  unfold Scope.sorted at hentry
  rw [List.mem_mergeSort] at hentry
  rw [Scope.get?, List.lookup_isSome_iff]
  exact ⟨entry, hentry, beq_self_eq_true _⟩

namespace ScopeStack

variable {s : ScopeStack}

/-- A scope around a place that has a name gives it a meaning there. -/
theorem isSome_find? {use : NameUse} {global : Bool} {name : String} {scope : Scope}
    {space : Namespace} (hspace : space ∈ use.namespaces)
    (hscope : scope ∈ if global then [s.root, .prelude] else s.scopes)
    (h : (scope.get? space name).isSome = true) :
    (Resolve.find? s use global name).isSome = true := by
  unfold Resolve.find?
  rw [List.findSome?_isSome_iff]
  refine ⟨space, hspace, ?_⟩
  rw [Option.isSome_map]
  cases global with
  | true => exact List.findSome?_isSome_iff.2 ⟨scope, hscope, h⟩
  | false => exact List.findSome?_isSome_iff.2 ⟨scope, hscope, h⟩

/-- Where the names in sight come from. -/
theorem mem_visibleNames {namespaces : List Namespace} {name : String}
    (h : name ∈ s.visibleNames namespaces) : ∃ scope ∈ s.scopes, ∃ space ∈ namespaces,
      (scope.get? space name).isSome = true := by
  obtain ⟨scope, hscope, h⟩ := List.mem_flatMap.1 h
  obtain ⟨space, hspace, h⟩ := List.mem_flatMap.1 h
  exact ⟨scope, hscope, space, hspace, Scope.isSome_get? h⟩

end ScopeStack

/-- What a suggested name means at a point of the walk where another name is looked up. -/
structure Visit.Suggests (v : Visit) (use : NameUse) (global : Bool) (name : String) : Prop where
  /-- It is in sight there. -/
  inSight : (Resolve.find? v.scopes use false name).isSome = true
  /-- It is found as the other name is looked up, unless that is done by a global path and a scope
  inside the module has the suggested name. -/
  found : global = false ∨
      (∀ scope ∈ v.scopes.inner, ∀ space ∈ use.namespaces, scope.get? space name = none) →
    (Resolve.find? v.scopes use global name).isSome = true

/-- An error that asks for another name stands where a name is looked up. -/
theorem Visit.suggests {v : Visit} {use : NameUse} {name found : String} {span : Span}
    (h : v.error? = some ⟨.unresolved use name (some (asksFor found)), span⟩) :
    ∃ global, v.act = .look use global ⟨name, span⟩ ∧ v.Suggests use global found := by
  obtain ⟨s, act⟩ := v
  cases act with
  | look use' global ident =>
    unfold Visit.error? Act.error? at h
    dsimp only at h
    split at h
    · cases h
    · obtain ⟨name', span'⟩ := ident
      injection h with h
      injection h with hproblem hspan
      injection hproblem with huse hname hsimilar
      subst huse hname hspan
      obtain ⟨scope, hscope, space, hspace, hget⟩ :=
        ScopeStack.mem_visibleNames (didYouMean_mem hsimilar)
      refine ⟨global, rfl, ScopeStack.isSome_find? hspace hscope hget, fun hseen => ?_⟩
      refine ScopeStack.isSome_find? hspace ?_ hget
      cases global with
      | false => exact hscope
      | true =>
        -- The scope that has the name is not inside the module.
        refine (List.mem_append.1 hscope).resolve_left fun hinner => ?_
        have hnone := hseen.resolve_left (by decide) scope hinner space hspace
        rw [hnone] at hget
        cases hget
  | declare d =>
    obtain ⟨previous, -, hprevious⟩ := Option.map_eq_some_iff.1 h
    cases hprevious
  | need word span' =>
    unfold Visit.error? Act.error? at h
    dsimp only at h
    split at h
    · cases word <;> cases h
    · cases h
  | enter kind => cases h
  | leave => cases h

/-- The names in sight, sorted in a way that can be evaluated. -/
def ScopeStack.candidates (s : ScopeStack) (namespaces : List Namespace) : List String :=
  s.scopes.flatMap fun scope => namespaces.flatMap fun space =>
    ((scope.bindings space).map (·.1)).insertionSort (· ≤ ·)

theorem ScopeStack.visibleNames_eq (s : ScopeStack) (namespaces : List Namespace) :
    s.visibleNames namespaces = s.candidates namespaces := by
  unfold visibleNames candidates
  simp only [Scope.names_sorted]

/-- Whether a name is looked up somewhere in vain, another one is suggested, and that one is found
by the same look or not. -/
def asksSomewhere (stmts : List Stmt) (use : NameUse) (global : Bool) (ident : Ident)
    (suggested : String) (found : Bool) : Bool :=
  (visits .start (moduleScript stmts)).any fun v =>
    v.act = .look use global ident &&
      ((Resolve.find? v.scopes use global ident.name).isNone &&
        (didYouMean ident.name (v.scopes.candidates use.namespaces) = some (asksFor suggested) &&
          (Resolve.find? v.scopes use global suggested).isSome = found))

/-- Where that is. -/
theorem exists_of_asksSomewhere {stmts : List Stmt} {use : NameUse} {global : Bool} {ident : Ident}
    {suggested : String} {found : Bool}
    (h : asksSomewhere stmts use global ident suggested found = true) :
    ∃ v ∈ visits .start (moduleScript stmts), v.act = .look use global ident ∧
      v.error? = some ⟨.unresolved use ident.name (some (asksFor suggested)), ident.span⟩ ∧
      (Resolve.find? v.scopes use global suggested).isSome = found := by
  obtain ⟨⟨s, act⟩, hv, h⟩ := List.any_eq_true.1 h
  obtain ⟨hact, h⟩ := Bool.and_eq_true_iff.1 h
  obtain ⟨hnone, h⟩ := Bool.and_eq_true_iff.1 h
  obtain ⟨hsimilar, hfound⟩ := Bool.and_eq_true_iff.1 h
  obtain rfl : act = _ := of_decide_eq_true hact
  refine ⟨_, hv, rfl, ?_, of_decide_eq_true hfound⟩
  unfold Visit.error? Act.error?
  dsimp only
  rw [Option.isNone_iff_eq_none.1 hnone, ScopeStack.visibleNames_eq, of_decide_eq_true hsimilar]

/-- **Suggested names.** In a module that is read without errors, every error that asks for another
name is reported at a point of the walk where a name is looked up. There the suggested name is in
sight, and it is found as the other name is looked up, unless the path is global and the suggested
name is one of a scope inside the module. -/
theorem resolve_suggests {file : FileId} {tokens : List Token} {p : Parsed}
    (h : parse file tokens = .ok p) (free : Diagnostic.anyError p.diagnostics = false) :
    ∃ r, resolve p.stmts = .ok r ∧
      r.errors = (visits .start (moduleScript p.stmts)).filterMap Visit.error? ∧
      ∀ v ∈ visits .start (moduleScript p.stmts), ∀ use name found span,
        v.error? = some ⟨.unresolved use name (some (asksFor found)), span⟩ →
        ∃ global, v.act = .look use global ⟨name, span⟩ ∧ v.Suggests use global found := by
  obtain ⟨r, hr, -⟩ := resolve_bound p.stmts (fresh_of_parse h free)
  exact ⟨r, hr, (resolve_plays hr).1, fun v _ use name found span herror => v.suggests herror⟩

/-- A variable with a similar name is suggested. -/
theorem resolve_suggests_variable : ∃ lexed p r,
    lex ⟨0⟩ "val abcd = 1\nabce" = .ok lexed ∧ parse ⟨0⟩ lexed.tokens = .ok p ∧
      resolve p.stmts = .ok r ∧
      ∃ v ∈ visits .start (moduleScript p.stmts), ∃ global,
        v.error? = some ⟨.unresolved .value "abce" (some (asksFor "abcd")), ⟨13, 4, ⟨0⟩⟩⟩ ∧
        v.act = .look .value global ⟨"abce", ⟨13, 4, ⟨0⟩⟩⟩ ∧ v.Suggests .value global "abcd" := by
  obtain ⟨lexed, p, hlex, hparse, test⟩ := exists_of_readsTo (show readsTo ⟨0⟩
    "val abcd = 1\nabce" (fun _ p => !Diagnostic.anyError p.diagnostics &&
      asksSomewhere p.stmts .value false ⟨"abce", ⟨13, 4, ⟨0⟩⟩⟩ "abcd" true) = true by
      decide +kernel)
  obtain ⟨clean, hasks⟩ := Bool.and_eq_true_iff.1 test
  obtain ⟨r, hr, -, hsuggests⟩ := resolve_suggests hparse (by simpa using clean)
  obtain ⟨v, hv, -, herror, -⟩ := exists_of_asksSomewhere hasks
  obtain ⟨global, hact, hv'⟩ := hsuggests v hv _ _ _ _ herror
  exact ⟨lexed, p, r, hlex, hparse, hr, v, hv, global, herror, hact, hv'⟩

/-- A path that begins at the module cannot name a parameter, but the parameter is suggested. -/
theorem resolve_suggests_hidden : ∃ lexed p r,
    lex ⟨0⟩ "func f(abcd: int) \x7b ::abce \x7d" = .ok lexed ∧
      parse ⟨0⟩ lexed.tokens = .ok p ∧ Diagnostic.anyError p.diagnostics = false ∧
      resolve p.stmts = .ok r ∧
      ⟨.unresolved .value "abce" (some (asksFor "abcd")), ⟨22, 4, ⟨0⟩⟩⟩ ∈ r.errors ∧
      ∃ v ∈ visits .start (moduleScript p.stmts),
        v.error? = some ⟨.unresolved .value "abce" (some (asksFor "abcd")), ⟨22, 4, ⟨0⟩⟩⟩ ∧
        v.act = .look .value true ⟨"abce", ⟨22, 4, ⟨0⟩⟩⟩ ∧
        Resolve.find? v.scopes .value true "abcd" = none := by
  obtain ⟨lexed, p, hlex, hparse, test⟩ := exists_of_readsTo (show readsTo ⟨0⟩
    "func f(abcd: int) \x7b ::abce \x7d" (fun _ p => !Diagnostic.anyError p.diagnostics &&
      asksSomewhere p.stmts .value true ⟨"abce", ⟨22, 4, ⟨0⟩⟩⟩ "abcd" false) = true by
      decide +kernel)
  obtain ⟨clean, hasks⟩ := Bool.and_eq_true_iff.1 test
  have free : Diagnostic.anyError p.diagnostics = false := by simpa using clean
  obtain ⟨r, hr, -⟩ := resolve_bound p.stmts (fresh_of_parse hparse free)
  obtain ⟨v, hv, hact, herror, hfound⟩ := exists_of_asksSomewhere hasks
  have hmem := List.mem_filterMap.2 ⟨v, hv, herror⟩
  rw [← (resolve_plays hr).1] at hmem
  refine ⟨lexed, p, r, hlex, hparse, free, hr, hmem, v, hv, herror, hact, ?_⟩
  simpa using hfound

end FrontEnd
