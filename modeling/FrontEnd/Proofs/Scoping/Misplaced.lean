import FrontEnd.Proofs.Scoping.Script
import FrontEnd.Proofs.Scoping.Uses

/-!
# The walk reports misplaced keywords

The walk knows the constructs around a place by the kinds of its scopes. The acts for a node leave
the kinds as they were, and report exactly the keywords that are misplaced by what the tree says.
The other errors they report are of other kinds.
-/

namespace FrontEnd

/-- The construct a kind of scopes stands for. -/
def Fence.of? : ScopeKind → Option Fence
  | .loop => some .loop
  | .func | .lambda => some .func
  | .item .class_ | .item .struct | .item .trait | .item .object => some .type
  | _ => none

/-- The constructs around a place, by the kinds of the scopes there. -/
def fencesOf (kinds : List ScopeKind) : List Fence := kinds.filterMap Fence.of?

namespace ScopeStack

/-- The kinds of the scopes around a place, innermost first. -/
def kinds (s : ScopeStack) : List ScopeKind := s.scopes.map (·.kind)

/-- A search that nothing stops fails if no kind is wanted. -/
theorem searchKinds_eq_none {wanted : ScopeKind → Bool} {kinds : List ScopeKind} :
    searchKinds wanted (fun _ => false) kinds = none ↔ ∀ kind ∈ kinds, wanted kind = false := by
  induction kinds with
  | nil => exact ⟨fun _ => List.forall_mem_nil _, fun _ => rfl⟩
  | cons kind kinds ih =>
    rw [List.forall_mem_cons]
    unfold searchKinds
    cases hwanted : wanted kind with
    | true => simp
    | false => simpa using ih

/-- A search that nothing stops fails if the construct that is wanted is not around. -/
theorem isNone_searchKinds {wanted : ScopeKind → Bool} {fence : Fence}
    (h : ∀ kind, wanted kind = false ↔ Fence.of? kind ≠ some fence) (kinds : List ScopeKind) :
    (searchKinds wanted (fun _ => false) kinds).isNone = true ↔ fence ∉ fencesOf kinds := by
  rw [Option.isNone_iff_eq_none, searchKinds_eq_none, fencesOf, List.mem_filterMap]
  simp only [h, not_exists, not_and, ne_eq]

/-- No function is around a place. -/
theorem isNone_searchKinds_func (kinds : List ScopeKind) :
    (searchKinds (fun k => k == .func || k == .lambda) (fun _ => false) kinds).isNone = true ↔
      .func ∉ fencesOf kinds := by
  refine isNone_searchKinds (fun kind => ?_) kinds
  cases kind with
  | item kind => cases kind <;> simp [Fence.of?]
  | _ => simp [Fence.of?]

/-- No type is around a place. -/
theorem isNone_searchKinds_type (kinds : List ScopeKind) :
    (searchKinds Resolve.isTypeScope (fun _ => false) kinds).isNone = true ↔
      .type ∉ fencesOf kinds := by
  refine isNone_searchKinds (fun kind => ?_) kinds
  cases kind with
  | item kind => cases kind <;> simp [Resolve.isTypeScope, Fence.of?]
  | _ => simp [Resolve.isTypeScope, Fence.of?]

/-- No loop is around a place inside its function. -/
theorem isNone_searchKinds_loop (kinds : List ScopeKind) :
    (searchKinds (· == .loop) (fun k => k == .func || k == .lambda) kinds).isNone = true ↔
      .loop ∉ (fencesOf kinds).takeWhile (· ≠ .func) := by
  induction kinds with
  | nil => simp [searchKinds, fencesOf]
  | cons kind kinds ih =>
    cases kind with
    | loop | func | lambda => simp [searchKinds, fencesOf, Fence.of?]
    | item kind =>
      cases kind with
      | class_ | struct | trait | object => simpa [searchKinds, fencesOf, Fence.of?] using ih
      | _ => exact ih
    | _ => exact ih

/-- A declaration in the innermost scope does not change kinds. -/
theorem kinds_declare (s : ScopeStack) (d : Registration) :
    (Act.after s (.declare d)).kinds = s.kinds := by
  have hdoes := s.step_does (.define d.space d.ident.name d.binding)
  unfold kinds Act.after
  dsimp only
  generalize (s.step (.define d.space d.ident.name d.binding)).2.scopes = after at hdoes ⊢
  generalize (s.step (.define d.space d.ident.name d.binding)).1 = reply at hdoes
  generalize s.scopes = before at hdoes ⊢
  cases hdoes with
  | define => rw [List.map_cons, List.map_cons, Scope.insert_kind]
  | keep => rfl

/-- The scope that is left is the one of the construct. -/
theorem kinds_leave {s t : ScopeStack} {kind : ScopeKind} (h : t.kinds = kind :: s.kinds) :
    (Act.leave.after t).kinds = s.kinds := by
  have hdoes := t.step_does .exit
  have hlength : s.kinds.length = s.inner.length + 2 :=
    (List.length_map _).trans List.length_append
  unfold kinds Act.after at *
  dsimp only
  generalize (t.step .exit).2.scopes = after at hdoes ⊢
  generalize (t.step .exit).1 = reply at hdoes
  generalize t.scopes = before at h hdoes
  cases hdoes with
  | exit => exact (List.cons.inj h).2
  | refuse outermost =>
    -- Around the construct there are the module and the prelude at least.
    have hothers := congrArg List.length (List.cons.inj h).2
    rw [List.length_map, hlength] at hothers
    omega

/-- The kinds tell whether a keyword lacks the construct it needs. -/
theorem lacks_iff (s : ScopeStack) (word : Dependent) (span : Span) :
    s.lacks word = true ↔ KeywordUse.misplaced ⟨word, span, fencesOf s.kinds⟩ = true := by
  unfold lacks find KeywordUse.misplaced
  cases word with
  | break_ | continue_ => exact (isNone_searchKinds_loop s.kinds).trans decide_eq_true_iff.symm
  | return_ => exact (isNone_searchKinds_func s.kinds).trans decide_eq_true_iff.symm
  | this_ | super => exact (isNone_searchKinds_type s.kinds).trans decide_eq_true_iff.symm

end ScopeStack

/-- Between scopes of some kinds, some acts report some misplaced keywords and leave the kinds as
they were. -/
def Reports (kinds : List ScopeKind) (acts : List Act) (found : List ResolveError) : Prop :=
  ∀ s : ScopeStack, s.kinds = kinds → (s.play acts).kinds = kinds ∧
    (s.found acts).filter (·.problem.isMisplaced) = found

/-- The errors for the keywords in a tree, and for the keyword of a form, which has the place of the
expression that holds it. -/
def Node.reported (o : Origin) (around : List Fence) {c : Category} (n : Node c) :
    List ResolveError :=
  (n.word?.bind fun word => KeywordUse.error? ⟨word, o.span, around⟩).toList ++ n.misplaced around

namespace Reports

variable {kinds : List ScopeKind} {acts acts' : List Act} {found found' : List ResolveError}

/-- No acts. -/
theorem nil : Reports kinds [] [] := fun _ hs => ⟨hs, rfl⟩

/-- Some acts after others. -/
theorem append (h : Reports kinds acts found) (h' : Reports kinds acts' found') :
    Reports kinds (acts ++ acts') (found ++ found') := by
  intro s hs
  obtain ⟨hkinds, hfound⟩ := h s hs
  obtain ⟨hkinds', hfound'⟩ := h' _ hkinds
  rw [ScopeStack.play_append, ScopeStack.found_append, List.filter_append, hfound, hfound']
  exact ⟨hkinds', rfl⟩

/-- An act that reports errors of other kinds. -/
theorem other {act : Act} (hafter : ∀ s, (act.after s).kinds = s.kinds)
    (herror : ∀ s, ∀ e ∈ act.error? s, e.problem.isMisplaced = false)
    (h : Reports kinds acts found) : Reports kinds (act :: acts) found := by
  intro s hs
  have hnone : (act.error? s).toList.filter (·.problem.isMisplaced) = [] := by
    refine List.filter_eq_nil_iff.2 fun e he => ?_
    rw [herror s e (Option.mem_toList.1 he)]
    exact Bool.false_ne_true
  rw [ScopeStack.found_cons, List.filter_append, hnone]
  exact h _ ((hafter s).trans hs)

/-- Names are looked up. -/
theorem look (use : NameUse) (global : Bool) (ident : Ident) (h : Reports kinds acts found) :
    Reports kinds (.look use global ident :: acts) found := by
  refine .other (fun _ => rfl) (fun s e he => ?_) h
  obtain ⟨similar?, rfl⟩ := Act.error?_look he
  rfl

/-- Looking up the first name of a path. -/
theorem pathLooks (use : NameUse) (p : Path) : Reports kinds (p.pathLooks use) [] := by
  cases p with
  | path global segments span slot =>
    cases segments with
    | nil => exact .nil
    | cons first others =>
      cases first with
      | segment ident generics => exact .look use global ident .nil

/-- A name is declared. -/
theorem declare (d : Registration) (h : Reports kinds acts found) :
    Reports kinds (.declare d :: acts) found := by
  refine .other (ScopeStack.kinds_declare · d) (fun s e he => ?_) h
  obtain ⟨previous, -, rfl⟩ := Option.map_eq_some_iff.1 he
  rfl

/-- Names are declared one after the other. -/
theorem declares (ds : List Registration) (h : Reports kinds acts found) :
    Reports kinds (ds.map .declare ++ acts) found := by
  induction ds with
  | nil => exact h
  | cons d ds ih => exact ih.declare d

/-- A keyword is checked, and reported if it is misplaced. -/
theorem need (word : Dependent) (span : Span) (h : Reports kinds acts found) :
    Reports kinds (.need word span :: acts)
      ((KeywordUse.error? ⟨word, span, fencesOf kinds⟩).toList ++ found) := by
  intro s hs
  obtain ⟨hkinds, hfound⟩ := h s hs
  have herror : (Act.need word span).error? s = KeywordUse.error? ⟨word, span, fencesOf kinds⟩ := by
    unfold Act.error? KeywordUse.error?
    dsimp only
    simp only [s.lacks_iff word span, hs]
  rw [ScopeStack.found_cons, List.filter_append, herror]
  refine ⟨hkinds, congrArg₂ (· ++ ·) (List.filter_eq_self.2 fun e he => ?_) hfound⟩
  rw [Option.mem_toList, KeywordUse.error?, Option.ite_none_right_eq_some] at he
  obtain ⟨-, heq⟩ := he
  cases heq
  exact KeywordUse.isMisplaced_problem _

/-- A construct is entered and left. -/
theorem within {kind : ScopeKind} (h : Reports (kind :: kinds) acts found) :
    Reports kinds (Act.within kind acts) found := by
  rintro s rfl
  obtain ⟨hkinds, hfound⟩ := h (s.enter kind) rfl
  rw [ScopeStack.play_within, ScopeStack.found_within]
  exact ⟨ScopeStack.kinds_leave hkinds, hfound⟩

/-- The last part of a node. -/
theorem last (h : Reports kinds acts found) : Reports kinds acts (found ++ []) := by
  rwa [List.append_nil]

variable {c : Category} {n : Node c} {o : Origin}

/-- What is reported for a node is reported for its keyword and for its parts. -/
theorem node (h : Reports kinds acts found)
    (hfound : found = (n.word?.bind fun word =>
        KeywordUse.error? ⟨word, o.span, fencesOf kinds⟩).toList ++
      ((n.keyword?.bind fun u => (u.inside (fencesOf kinds)).error?).toList ++
        (n.parts.zip n.fences).flatMap fun m => m.1.2.misplaced (m.2.toList ++ fencesOf kinds)) :=
      by rfl) :
    Reports kinds acts (n.reported o (fencesOf kinds)) := by
  unfold Node.reported
  rwa [Node.misplaced_eq, ← hfound]

/-- Only forms of expressions have the place of another node. -/
theorem plain (h : Reports kinds acts (n.reported o (fencesOf kinds)))
    (hc : c ≠ .exprForm := by nofun) : Reports kinds acts (n.misplaced (fencesOf kinds)) := by
  unfold Node.reported at h
  rwa [n.word?_eq_none hc] at h

end Reports

/-- Nothing in attributes is looked at. -/
theorem misplaced_attrs (around : List Fence) :
    (attrs : Node (.many .attr)) → attrs.misplaced around = []
  | .nil => Node.misplaced_eq around _
  | .cons (.attr ident args span) attrs => by
    rw [Node.misplaced_eq]
    change (Node.attr ident args span).misplaced around ++ (attrs.misplaced around ++ []) = []
    rw [Node.misplaced_eq, misplaced_attrs around attrs]
    rfl

/-- The acts for a node report exactly the keywords in it that are misplaced. -/
theorem script_reports : {c : Category} → (n : Node c) → c.isWhole = true → (o : Origin) →
    (kinds : List ScopeKind) → Reports kinds (n.script o) (n.reported o (fencesOf kinds))
  | _, .nil, _, _, _ => .node .nil
  | .many c, .cons n ns, hc, o, kinds => by
    have hheld : c ≠ .exprForm := by
      rintro rfl
      cases hc
    exact .node (.append ((script_reports n (Bool.and_eq_true_iff.1 hc).2 o kinds).plain hheld)
      (.last (script_reports ns hc o kinds).plain))
  | _, .absent, _, _, _ => .node .nil
  | .maybe c, .present n, hc, o, kinds => by
    have hheld : c ≠ .exprForm := by
      rintro rfl
      cases hc
    exact .node (.last ((script_reports n (Bool.and_eq_true_iff.1 hc).2 o kinds).plain hheld))
  | _, .expr o form, _, _, kinds => by
    refine .node (.last (script_reports form rfl o kinds)) ?_
    change _ = ((form.word?.map (KeywordUse.mk · o.span [])).bind fun u =>
      (u.inside (fencesOf kinds)).error?).toList ++ (form.misplaced (fencesOf kinds) ++ [])
    rw [Node.reported, List.append_assoc, Option.bind_map]
    rfl
  | _, .assign target op value, _, o, kinds =>
    .node (.append (script_reports target rfl o kinds).plain
      (.last (script_reports value rfl o kinds).plain))
  | _, .name ident slot, _, o, kinds => .node (.look .value false ident .nil)
  | _, .pathExpr p, _, o, kinds =>
    .node (.append (script_reports p rfl o kinds).plain (.pathLooks .value p))
  | _, .literal l, _, _, _ => .node .nil
  | _, .binary left op right, _, o, kinds =>
    .node (.append (script_reports left rfl o kinds).plain
      (.last (script_reports right rfl o kinds).plain))
  | _, .unary op operand, _, o, kinds => .node (.last (script_reports operand rfl o kinds).plain)
  | _, .suffixed op operand, _, o, kinds => .node (.last (script_reports operand rfl o kinds).plain)
  | _, .call callee args, _, o, kinds =>
    .node (.append (script_reports callee rfl o kinds).plain
      (.last (script_reports args rfl o kinds).plain))
  | _, .index target indices, _, o, kinds =>
    .node (.append (script_reports target rfl o kinds).plain
      (.last (script_reports indices rfl o kinds).plain))
  | _, .member target field safe, _, o, kinds =>
    .node (.last (script_reports target rfl o kinds).plain)
  | _, .list items, _, o, kinds => .node (.last (script_reports items rfl o kinds).plain)
  | _, .tuple items, _, o, kinds => .node (.last (script_reports items rfl o kinds).plain)
  | _, .unit, _, _, _ => .node .nil
  | _, .construct p fields, _, o, kinds =>
    .node (.append (.append (script_reports p rfl o kinds).plain (.pathLooks .type p))
      (.last (script_reports fields rfl o kinds).plain)) (List.append_assoc ..)
  | _, .blockExpr b, _, o, _ => .node (.within (.last (script_reports b rfl o _).plain))
  | _, .cond condition positive negative, _, o, kinds =>
    .node (.append (script_reports condition rfl o kinds).plain
      (.append (.within (script_reports positive rfl o _).plain)
        (.last (script_reports negative rfl o kinds).plain)))
  | _, .loop body, _, o, _ => .node (.within (.last (script_reports body rfl o _).plain))
  | _, .select subject entries, _, o, kinds =>
    .node (.append (script_reports subject rfl o kinds).plain
      (.last (script_reports entries rfl o kinds).plain))
  | _, .lambda params result body, _, o, _ =>
    .node (.within (.append (script_reports params rfl o _).plain
      (.append (script_reports result rfl o _).plain (.last (script_reports body rfl o _).plain))))
  | _, .break_ value, _, o, kinds =>
    .node (.need .break_ o.span (.last (script_reports value rfl o kinds).plain))
  | _, .continue_, _, o, _ => .node (.need .continue_ o.span .nil)
  | _, .return_ value, _, o, kinds =>
    .node (.need .return_ o.span (.last (script_reports value rfl o kinds).plain))
  | _, .throw value, _, o, kinds => .node (.last (script_reports value rfl o kinds).plain)
  | _, .tryCatch body handler, _, o, kinds =>
    .node (.append (.within (script_reports body rfl o _).plain)
      (.last (script_reports handler rfl o kinds).plain))
  | _, .paren inner, _, o, kinds => .node (.last (script_reports inner rfl o kinds).plain)
  | _, .spread inner, _, o, kinds => .node (.last (script_reports inner rfl o kinds).plain)
  | _, .cast inner t safe, _, o, kinds =>
    .node (.append (script_reports inner rfl o kinds).plain
      (.last (script_reports t rfl o kinds).plain))
  | _, .this_, _, o, _ => .node (.need .this_ o.span .nil)
  | _, .super, _, o, _ => .node (.need .super o.span .nil)
  | _, .errorExpr, _, _, _ => .node .nil
  | _, .path global segments span slot, _, o, kinds =>
    .node (.last (script_reports segments rfl o kinds).plain)
  | _, .segment ident generics, _, o, kinds =>
    .node (.last (script_reports generics rfl o kinds).plain)
  | _, .argument name? value span, _, o, kinds =>
    .node (.last (script_reports value rfl o kinds).plain)
  | _, .namedField ident value, _, o, kinds =>
    .node (.last (script_reports value rfl o kinds).plain)
  | _, .shorthandField value, _, o, kinds => .node (.last (script_reports value rfl o kinds).plain)
  | _, .baseField value, _, o, kinds => .node (.last (script_reports value rfl o kinds).plain)
  | _, .block o stmts, _, _, kinds =>
    .node (.declares stmts.hoists (.last (script_reports stmts rfl o kinds).plain))
  | _, .selectEntry o conditions body, _, _, _ =>
    .node (.within (.append (script_reports conditions rfl o _).plain
      (.last (script_reports body rfl o _).plain)))
  | _, .lambdaParam id ident t, _, o, kinds =>
    .node (.append (script_reports t rfl o kinds).plain
      (.declare ⟨.value, ident, .param, id⟩ .nil))
  | _, .handler id binding body, _, o, _ =>
    .node (.within (.declare ⟨.value, binding, .localVar, id⟩
      (.within (.last (script_reports body rfl o _).plain))))
  | _, .type o form, _, _, kinds => .node (.last (script_reports form rfl o kinds).plain)
  | _, .pathType p, _, o, kinds =>
    .node (.append (script_reports p rfl o kinds).plain (.pathLooks .type p))
  | _, .tupleType items, _, o, kinds => .node (.last (script_reports items rfl o kinds).plain)
  | _, .funcType params result, _, o, kinds =>
    .node (.append (script_reports params rfl o kinds).plain
      (.last (script_reports result rfl o kinds).plain))
  | _, .arrayType element size, _, o, kinds =>
    .node (.append (script_reports element rfl o kinds).plain
      (.last (script_reports size rfl o kinds).plain))
  | _, .sliceType element, _, o, kinds => .node (.last (script_reports element rfl o kinds).plain)
  | _, .parenType inner, _, o, kinds => .node (.last (script_reports inner rfl o kinds).plain)
  | _, .unitType, _, _, _ => .node .nil
  | _, .errorType, _, _, _ => .node .nil
  | _, .stmt o form, _, _, kinds => .node (.last (script_reports form rfl o kinds).plain)
  | _, .exprStmt e, _, o, kinds => .node (.last (script_reports e rfl o kinds).plain)
  | _, .varStmt kind ident t init, _, o, kinds =>
    .node (.append (script_reports t rfl o kinds).plain
      (.append (script_reports init rfl o kinds).plain
        (.declare ⟨.value, ident, .localVar, o.id⟩ .nil)))
  | _, .forStmt binding source body, _, o, kinds =>
    .node (.append (script_reports source rfl o kinds).plain
      (.within (.declare ⟨.value, binding, .localVar, o.id⟩
        (.within (.last (script_reports body rfl o _).plain)))))
  | _, .whileStmt condition body, _, o, kinds =>
    .node (.append (script_reports condition rfl o kinds).plain
      (.within (.last (script_reports body rfl o _).plain)))
  | _, .itemStmt i, _, o, kinds => .node (.last (script_reports i rfl o kinds).plain)
  | _, .errorStmt, _, _, _ => .node .nil
  | _, .item o attrs modifiers form, _, _, kinds => by
    refine .node (.last (script_reports form rfl o kinds).plain) ?_
    change _ = attrs.misplaced (fencesOf kinds) ++ (form.misplaced (fencesOf kinds) ++ [])
    rw [misplaced_attrs]
    rfl
  | _, .funcItem ident generics params result body, _, o, _ =>
    .node (.within (.append (script_reports generics rfl o _).plain
      (.append (script_reports params rfl o _).plain
        (.append (script_reports result rfl o _).plain
          (.last (script_reports body rfl o _).plain)))))
  | _, .classItem isStruct ident generics supers members, _, o, _ => by
    cases isStruct <;>
    exact .node (.within (.append (script_reports generics rfl o _).plain
      (.append (script_reports supers rfl o _).plain
        (.declares members.hoists (.last (script_reports members rfl o _).plain)))))
  | _, .enumItem ident generics entries members, _, o, _ =>
    .node (.within (.append (script_reports generics rfl o _).plain
      (.append (script_reports entries rfl o _).plain
        (.declares members.hoists (.last (script_reports members rfl o _).plain)))))
  | _, .traitItem ident generics supers members, _, o, _ =>
    .node (.within (.append (script_reports generics rfl o _).plain
      (.append (script_reports supers rfl o _).plain
        (.declares members.hoists (.last (script_reports members rfl o _).plain)))))
  | _, .aliasItem ident generics t, _, o, _ =>
    .node (.within (.append (script_reports generics rfl o _).plain
      (.last (script_reports t rfl o _).plain)))
  | _, .objectItem ident supers members, _, o, _ =>
    .node (.within (.append (script_reports supers rfl o _).plain
      (.declares members.hoists (.last (script_reports members rfl o _).plain))))
  | _, .fieldItem kind? ident t default, _, o, kinds =>
    .node (.append (script_reports t rfl o kinds).plain
      (.last (script_reports default rfl o kinds).plain))
  | _, .initItem params body, _, o, _ =>
    .node (.within (.append (script_reports params rfl o _).plain
      (.within (.last (script_reports body rfl o _).plain))))
  | _, .attr ident args span, _, _, _ => .node .nil
  | _, .blockBody b, _, o, _ => .node (.within (.last (script_reports b rfl o _).plain))
  | _, .exprBody e, _, o, kinds => .node (.last (script_reports e rfl o kinds).plain)
  | _, .param o ident t default, _, _, kinds =>
    .node (.append (script_reports t rfl o kinds).plain
      (.append (script_reports default rfl o kinds).plain
        (.declare ⟨.value, ident, .param, o.id⟩ .nil)))
  | _, .generic o ident form, _, _, kinds => by
    have hnone : Reports kinds [] [] := .nil
    have hdeclares := hnone.declares (form.genericDeclares ident o.id)
    rw [List.append_nil] at hdeclares
    exact .node (.append (script_reports form rfl o kinds).plain hdeclares)
  | _, .typeGeneric bounds, _, o, kinds => .node (.last (script_reports bounds rfl o kinds).plain)
  | _, .lifetimeGeneric, _, _, _ => .node .nil
  | _, .constGeneric t default, _, o, kinds =>
    .node (.append (script_reports t rfl o kinds).plain
      (.last (script_reports default rfl o kinds).plain))
  | _, .enumEntry o ident form, _, _, kinds => .node (.last (script_reports form rfl o kinds).plain)
  | _, .bareEntry, _, _, _ => .node .nil
  | _, .valueEntry value, _, o, kinds => .node (.last (script_reports value rfl o kinds).plain)
  | _, .tupleEntry types, _, o, kinds => .node (.last (script_reports types rfl o kinds).plain)
  | _, .structEntry fields, _, o, kinds => .node (.last (script_reports fields rfl o kinds).plain)
  | _, .entryField ident t, _, o, kinds => .node (.last (script_reports t rfl o kinds).plain)

/-- The keywords of a sequence are misplaced one by one. -/
theorem misplaced_ofList {c : Category} (around : List Fence) (ns : List (Node c)) :
    (Node.ofList ns).misplaced around = ns.flatMap (Node.misplaced around) := by
  induction ns with
  | nil => exact Node.misplaced_eq around _
  | cons n ns ih =>
    rw [List.flatMap_cons, ← ih]
    exact (Node.misplaced_eq around _).trans (congrArg (n.misplaced around ++ ·)
      (List.append_nil _))

/-- Name resolution reports exactly the keywords of a module that are misplaced. -/
theorem resolve_misplaced {stmts : List Stmt} {r : Resolved} (h : resolve stmts = .ok r) :
    r.errors.filter (·.problem.isMisplaced) =
      (stmts.flatMap Node.keywords).filterMap KeywordUse.error? := by
  have reports : Reports [.module, .prelude] (moduleScript stmts)
      ((Node.ofList stmts).misplaced []) :=
    .declares _ (script_reports (Node.ofList stmts) rfl default _).plain
  obtain ⟨herrors, -⟩ := resolve_plays h
  obtain ⟨-, hfound⟩ := reports .start rfl
  calc r.errors.filter (·.problem.isMisplaced)
      = (ScopeStack.start.found (moduleScript stmts)).filter (·.problem.isMisplaced) :=
        congrArg _ herrors
    _ = stmts.flatMap (Node.misplaced []) := hfound.trans (misplaced_ofList [] stmts)
    _ = (stmts.flatMap Node.keywords).filterMap KeywordUse.error? := by
      rw [List.filterMap_flatMap]
      unfold Node.misplaced KeywordUse.inside
      simp only [List.append_nil]

end FrontEnd
