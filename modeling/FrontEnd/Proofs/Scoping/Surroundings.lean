import FrontEnd.Proofs.Placing.Files
import FrontEnd.Proofs.Scoping.Misplaced
import FrontEnd.Proofs.Scoping.Modules

/-!
# Every misplaced keyword is reported once

In a text that is read without errors, no two of the keywords that need something around them begin
at one place. So the errors at the place of such a keyword are about this keyword: there is one if
it is misplaced, and none otherwise.
-/

namespace FrontEnd

/-- The first halves of some pairs come from the first list. -/
theorem map_fst_zip_sublist {α β : Type} (as : List α) (bs : List β) :
    ((as.zip bs).map Prod.fst).Sublist as := by
  induction as generalizing bs with
  | nil => exact .slnil
  | cons a as ih =>
    cases bs with
    | nil => exact List.nil_sublist _
    | cons b bs => exact (ih bs).cons_cons a

namespace TokenStream

variable {K : TokenStream} {i j k : Nat} {ignores : Bool} {c : Category} {n : Node c}

/-- What is in front of a place begins before what is behind it. -/
theorem Within.pos_lt {a b : Span} (ha : K.Within i k a) (hb : K.Within k j b) : a.pos < b.pos := by
  obtain ⟨m, _, -, hm, hcovers⟩ := ha
  obtain ⟨m', _, hm', -, hcovers'⟩ := hb
  have hlt := hcovers.lt
  have hlt' := hcovers'.lt
  have hle' := hcovers'.le
  rw [hcovers.pos, hcovers'.pos]
  exact pos_lt_pos (by omega) (by omega)

/-- The keywords in a tree are where its nodes are. -/
theorem Holds.keywords (h : K.Holds i j n) : ∀ u ∈ n.keywords, K.Within i j u.span := by
  have hkeyword {d : Category} (m : Node d) (hm : ∀ span ∈ m.places, K.Within i j span) :
      ∀ u ∈ m.keyword?, K.Within i j u.span := by
    intro u hu
    cases m with
    | expr o form =>
      obtain ⟨word, -, rfl⟩ := Option.map_eq_some_iff.1 hu
      exact hm o.span List.mem_cons_self
    | _ => cases hu
  exact Node.forall_keywords (P := K.Within i j) (Node.Forall.imp hkeyword h)

/-- A keyword is in front of all keywords inside its expression. -/
theorem Placed.keyword (h : K.Placed ignores n) : ∀ u ∈ n.keyword?, ∀ m ∈ n.parts,
    ∀ v ∈ m.2.keywords, u.span.pos < v.span.pos := by
  intro u hu m hm v hv
  cases n with
  | expr o form =>
    obtain ⟨word, hword, rfl⟩ := Option.map_eq_some_iff.1 hu
    obtain rfl := List.mem_singleton.1 hm
    have hsingle := h.single
    have behind {value : Node (.maybe .expr)}
        (hsingle : ∃ i j, K.Covers i j o.span ∧ K.Holds (i + 1) j value)
        (hv : v ∈ [] ++ (value.keywords.map (·.inside []) ++ [])) : o.span.pos < v.span.pos := by
      rw [List.nil_append, List.append_nil] at hv
      obtain ⟨w, hw, rfl⟩ := List.mem_map.1 hv
      obtain ⟨i, j, covers, holds⟩ := hsingle
      have within : K.Within i (i + 1) (K.tokenAt i).span :=
        ⟨i, i + 1, Nat.le_refl i, Nat.le_refl _, covers_token (covers.lt.trans_le covers.le)⟩
      rw [covers.pos]
      exact within.pos_lt (holds.keywords w hw)
    rw [Node.keywords_eq] at hv
    cases form with
    | break_ value => exact behind hsingle hv
    | return_ value => exact behind hsingle hv
    | continue_ | this_ | super => cases hv
    | _ => cases hword
  | _ => cases hu

/-- The keywords in a tree begin one after the other. -/
theorem keywords_increasing (h : n.Throughout K.Placed ignores) :
    n.keywords.Pairwise fun u v => u.span.pos < v.span.pos := by
  induction h with
  | @node ignores c n root _ ih =>
    rw [Node.keywords_eq, List.pairwise_append, List.pairwise_flatMap]
    refine ⟨?_, ⟨fun m hm => ?_, ?_⟩, fun u hu v hv => ?_⟩
    · cases n.keyword? with
      | none => exact .nil
      | some u => exact List.pairwise_singleton _ _
    · have hpart := (List.of_mem_zip hm).1
      rw [← n.map_fst_settings ignores] at hpart
      obtain ⟨p, hp, hfst⟩ := List.mem_map.1 hpart
      rw [List.pairwise_map, ← hfst]
      exact ih p hp
    · have hordered := root.ordered.sublist (map_fst_zip_sublist n.parts n.fences)
      rw [List.pairwise_map] at hordered
      refine hordered.imp fun hab u hu v hv => ?_
      obtain ⟨k, ha, hb⟩ := hab
      obtain ⟨u', hu', rfl⟩ := List.mem_map.1 hu
      obtain ⟨v', hv', rfl⟩ := List.mem_map.1 hv
      exact (ha.keywords u' hu').pos_lt (hb.keywords v' hv')
    · obtain ⟨m, hm, hinside⟩ := List.mem_flatMap.1 hv
      obtain ⟨v', hv', rfl⟩ := List.mem_map.1 hinside
      exact root.keyword u (Option.mem_toList.1 hu) m.1 (List.of_mem_zip hm).1 v' hv'

/-- The keywords in trees that follow each other begin one after the other. -/
theorem Row.keywords {stmts : List Stmt} {ignores : Bool}
    (h : K.Row i j (stmts.map fun s => (⟨_, s⟩, ignores))) :
    (stmts.flatMap Node.keywords).Pairwise fun u v => u.span.pos < v.span.pos := by
  rw [List.pairwise_flatMap]
  refine ⟨fun s hs => keywords_increasing (h.lies _ (List.mem_map_of_mem hs)).placed, ?_⟩
  have hordered := h.ordered
  rw [List.map_map, List.pairwise_map] at hordered
  refine hordered.imp fun hab u hu v hv => ?_
  obtain ⟨k, ha, hb⟩ := hab
  exact (ha.keywords u hu).pos_lt (hb.keywords v hv)

end TokenStream

/-- The errors for keywords at different places, at the place of one of them. -/
theorem KeywordUse.filter_errors {uses : List KeywordUse}
    (h : uses.Pairwise fun u v => u.span.pos < v.span.pos) {u : KeywordUse} (hu : u ∈ uses) :
    (uses.filterMap error?).filter (·.span = u.span) = u.error?.toList := by
  have hplace {v : KeywordUse} {e : ResolveError} (he : v.error? = some e) : e.span = v.span := by
    unfold error? at he
    split at he
    · cases he
      rfl
    · cases he
  have hnone {vs : List KeywordUse} (hother : ∀ v ∈ vs, v.span ≠ u.span) :
      (vs.filterMap error?).filter (·.span = u.span) = [] := by
    refine List.filter_eq_nil_iff.2 fun e he => ?_
    obtain ⟨v, hv, hvalue⟩ := List.mem_filterMap.1 he
    simpa [hplace hvalue] using hother v hv
  obtain ⟨front, back, rfl⟩ := List.append_of_mem hu
  obtain ⟨-, hback, hfront⟩ := List.pairwise_append.1 h
  have hbehind := (List.pairwise_cons.1 hback).1
  rw [List.filterMap_append, List.filter_append, hnone fun v hv heq => ?_, List.nil_append,
    List.filterMap_cons]
  · have hrest : (back.filterMap error?).filter (·.span = u.span) = [] :=
      hnone fun v hv heq => Nat.lt_irrefl _ (heq ▸ hbehind v hv)
    cases he : u.error? with
    | none => exact hrest
    | some e =>
      rw [Option.toList_some, ← hrest]
      exact List.filter_cons_of_pos (by simpa using hplace he)
  · exact Nat.lt_irrefl _ (heq ▸ hfront v hv u List.mem_cons_self)

/-- **Keywords and what they need.** In a module that is read without errors, name resolution
reports exactly the keywords that are misplaced: a `break` or `continue` without the body of a loop
around it inside its function, a `return` without a function around it, and a `this` or `super`
without a type around it. At the place of each of these keywords there is one such error if it is
misplaced, and none otherwise. -/
theorem resolve_keywords {file : FileId} {text : String} {lexed : Lexed} {p : Parsed}
    (hlex : lex file text = .ok lexed) (hparse : parse file lexed.tokens = .ok p)
    (clean : Diagnostic.anyError p.diagnostics = false) : ∃ r, resolve p.stmts = .ok r ∧
      r.errors.filter (·.problem.isMisplaced) =
        (p.stmts.flatMap Node.keywords).filterMap KeywordUse.error? ∧
      ∀ u ∈ p.stmts.flatMap Node.keywords,
        r.errors.filter (fun e => e.problem.isMisplaced && e.span = u.span) =
          if u.misplaced then [⟨u.word.problem, u.span⟩] else [] := by
  obtain ⟨r, hr, -⟩ := resolve_bound p.stmts (fresh_of_parse hparse clean)
  obtain ⟨K, eof, j, -, -, -, row⟩ := parse_places hlex hparse clean
  have hmisplaced := resolve_misplaced hr
  refine ⟨r, hr, hmisplaced, fun u hu => ?_⟩
  have hfilter : r.errors.filter (fun e => e.problem.isMisplaced && e.span = u.span) =
      (r.errors.filter (·.problem.isMisplaced)).filter (·.span = u.span) := by
    rw [List.filter_filter]
    exact List.filter_congr fun e _ => Bool.and_comm _ _
  rw [hfilter, hmisplaced, KeywordUse.filter_errors row.keywords hu]
  unfold KeywordUse.error?
  split <;> rfl

/-- Jumps in and out of a loop with a lambda inside, and a `this` in a class. -/
theorem resolve_keywords_nested : ∃ lexed p r,
    lex ⟨0⟩ "for x in y \x7b\nval f = |z| break\ncontinue\n\x7d\nclass A \x7b\nfunc f() => this\n\x7d\nreturn" =
        .ok lexed ∧ parse ⟨0⟩ lexed.tokens = .ok p ∧ resolve p.stmts = .ok r ∧
      (p.stmts.flatMap Node.keywords).map (fun u => (u.word, u.misplaced)) =
        [(.break_, true), (.continue_, false), (.this_, false), (.return_, true)] ∧
      ∀ u ∈ p.stmts.flatMap Node.keywords,
        r.errors.filter (fun e => e.problem.isMisplaced && e.span = u.span) =
          if u.misplaced then [⟨u.word.problem, u.span⟩] else [] := by
  obtain ⟨lexed, p, hlex, hparse, test⟩ := exists_of_readsTo (show readsTo ⟨0⟩
    "for x in y \x7b\nval f = |z| break\ncontinue\n\x7d\nclass A \x7b\nfunc f() => this\n\x7d\nreturn"
    (fun _ p => !Diagnostic.anyError p.diagnostics &&
      (p.stmts.flatMap Node.keywords).map (fun u => (u.word, u.misplaced)) =
        [(.break_, true), (.continue_, false), (.this_, false), (.return_, true)]) = true by
      decide +kernel)
  obtain ⟨clean, hkeywords⟩ := Bool.and_eq_true_iff.1 test
  obtain ⟨r, hr, -, herrors⟩ := resolve_keywords hlex hparse (by simpa using clean)
  exact ⟨lexed, p, r, hlex, hparse, hr, of_decide_eq_true hkeywords, herrors⟩

end FrontEnd
