import FrontEnd.Proofs.Scoping.Modules
import FrontEnd.Proofs.Scoping.Registrations

/-!
# Every name declared again is reported once

The acts for a node add to the innermost scope what the node declares there, and leave behind no
other scope. The errors they report for names declared again are those of the scopes inside the
node, and those which the node adds to the scope it stands in.
-/

namespace FrontEnd

/-- What acts do, started where the innermost scope keeps some declarations: they add their own ones
to it, change no scope around it, and report what is declared again, there and in the scopes they
close. -/
def Accounts (acts : List Act) (own : List Registration) (closed : List (List Registration)) :
    Prop :=
  ∀ (s : ScopeStack) (ds : List Registration), s.current.Keeps ds →
    (s.play acts).current.Keeps (ds ++ own) ∧ (s.play acts).scopes.tail = s.scopes.tail ∧
    ((s.found acts).filter (·.problem.isRedeclared) ++ Registration.again ds).Perm
      (Registration.again (ds ++ own) ++ closed.flatMap Registration.again)

/-- A stack that is put on another one is left again. -/
theorem ScopeStack.leave_after {s t : ScopeStack} (h : t.scopes.tail = s.scopes) :
    Act.leave.after t = s := by
  refine eq_of_scopes ?_
  obtain ⟨inner, root⟩ := t
  cases inner with
  | nil =>
    -- Only what the language provides would be left.
    have hlength := congrArg List.length h
    have hmore : s.scopes.length = s.inner.length + 2 := List.length_append
    rw [hmore] at hlength
    change 1 = s.inner.length + 2 at hlength
    omega
  | cons scope inner => exact h

namespace Accounts

variable {acts acts' acts'' : List Act} {own own' own'' : List Registration}
  {closed closed' closed'' : List (List Registration)}

/-- No acts. -/
theorem nil : Accounts [] [] [] := by
  intro s ds hs
  rw [List.append_nil]
  exact ⟨hs, rfl, .of_eq (List.append_nil _).symm⟩

/-- Some acts after others. -/
theorem append (h : Accounts acts own closed) (h' : Accounts acts' own' closed') :
    Accounts (acts ++ acts') (own ++ own') (closed ++ closed') := by
  intro s ds hs
  obtain ⟨hkeeps, htail, herrors⟩ := h s ds hs
  obtain ⟨hkeeps', htail', herrors'⟩ := h' _ _ hkeeps
  rw [ScopeStack.play_append, ScopeStack.found_append, ← List.append_assoc]
  refine ⟨hkeeps', htail'.trans htail, ?_⟩
  rw [List.filter_append, List.append_assoc, List.flatMap_append]
  have hswap := List.perm_append_comm_assoc ((s.found acts).filter (·.problem.isRedeclared))
    (((s.play acts).found acts').filter (·.problem.isRedeclared)) (Registration.again ds)
  refine hswap.trans ((herrors.append_left _).trans ?_)
  rw [← List.append_assoc]
  refine (herrors'.append_right _).trans ?_
  rw [List.append_assoc]
  exact List.perm_append_comm.append_left _

/-- An act that leaves the scopes alone and reports other errors. -/
theorem other {act : Act} (hafter : ∀ s, act.after s = s)
    (herror : ∀ s, ∀ e ∈ act.error? s, e.problem.isRedeclared = false)
    (h : Accounts acts own closed) : Accounts (act :: acts) own closed := by
  intro s ds hs
  have hnone : (act.error? s).toList.filter (·.problem.isRedeclared) = [] := by
    refine List.filter_eq_nil_iff.2 fun e he => ?_
    rw [herror s e (Option.mem_toList.1 he)]
    exact Bool.false_ne_true
  have hplay : s.play (act :: acts) = s.play acts := congrArg (ScopeStack.play · acts) (hafter s)
  rw [hplay, ScopeStack.found_cons, List.filter_append, hnone, hafter]
  exact h s ds hs

/-- Names are looked up. -/
theorem look (use : NameUse) (global : Bool) (ident : Ident) (h : Accounts acts own closed) :
    Accounts (.look use global ident :: acts) own closed := by
  refine .other (fun _ => rfl) (fun s e he => ?_) h
  obtain ⟨similar?, rfl⟩ := Act.error?_look he
  rfl

/-- Keywords are checked. -/
theorem need (word : Dependent) (span : Span) (h : Accounts acts own closed) :
    Accounts (.need word span :: acts) own closed := by
  refine .other (fun _ => rfl) (fun s e he => ?_) h
  unfold Act.error? at he
  dsimp only at he
  split at he
  · cases he
    cases word <;> rfl
  · cases he

/-- A name is declared. -/
theorem declare (d : Registration) : Accounts [.declare d] [d] [] := by
  intro s ds hs
  have hget := hs.get? d.space d.ident.name
  change _ = (ds.find? (·.key = d.key)).map (·.binding) at hget
  rw [ScopeStack.found_singleton]
  change (Act.after s (.declare d)).current.Keeps _ ∧
    (Act.after s (.declare d)).scopes.tail = s.scopes.tail ∧ _
  refine ⟨?_, s.step_define_tail d.space d.ident.name d.binding, ?_⟩
  · cases hfind : ds.find? (·.key = d.key) with
    | some first =>
      rw [hfind] at hget
      unfold Act.after
      dsimp only
      rw [ScopeStack.step_define_taken hget]
      exact hs.keep hfind
    | none =>
      rw [hfind] at hget
      unfold Act.after ScopeStack.step
      dsimp only
      rw [ScopeStack.define_new hget]
      have hcurrent : (s.setCurrent (s.current.insert d.space d.ident.name d.binding)).current =
          s.current.insert d.space d.ident.name d.binding := by
        obtain ⟨inner, root⟩ := s
        cases inner <;> rfl
      dsimp only
      rw [hcurrent]
      exact hs.insert hfind
  · unfold Act.error?
    dsimp only
    rw [hget, List.flatMap_nil, List.append_nil]
    cases hfind : ds.find? (·.key = d.key) with
    | some first => exact List.perm_append_comm.trans (Registration.again_old hfind).symm
    | none => exact .of_eq (Registration.again_new hfind).symm

/-- Names are declared one after the other. -/
theorem declares (ds : List Registration) : Accounts (ds.map .declare) ds [] := by
  induction ds with
  | nil => exact .nil
  | cons d ds ih => exact (declare d).append ih

/-- A construct is entered and left. -/
theorem within (kind : ScopeKind) (h : Accounts acts own closed) :
    Accounts (Act.within kind acts) [] (own :: closed) := by
  intro s ds hs
  obtain ⟨hkeeps, htail, herrors⟩ := h (s.enter kind) [] (Scope.keeps_empty kind)
  have hplay : s.play (Act.within kind acts) = s :=
    (s.play_within kind acts).trans (ScopeStack.leave_after htail)
  have hnone : Registration.again [] = [] := rfl
  rw [hnone, List.append_nil, List.nil_append] at herrors
  rw [hplay, ScopeStack.found_within, List.append_nil]
  exact ⟨hs, rfl, (herrors.append_right _).trans List.perm_append_comm⟩

/-- The scopes that are closed may be listed in another order. -/
theorem perm (h : Accounts acts own closed) (hperm : closed.Perm closed') :
    Accounts acts own closed' := by
  intro s ds hs
  obtain ⟨hkeeps, htail, herrors⟩ := h s ds hs
  exact ⟨hkeeps, htail, herrors.trans ((hperm.flatMap_right _).append_left _)⟩

/-- The last part of a node. -/
theorem last (h : Accounts acts own closed) : Accounts acts own (closed ++ []) := by
  rwa [List.append_nil]

/-- Acts after which nothing is declared in the scope around them. -/
theorem front (h : Accounts acts own closed) (h' : Accounts acts' [] closed') :
    Accounts (acts ++ acts') own (closed ++ closed') := by
  have both := h.append h'
  rwa [List.append_nil] at both

variable {c : Category} {n : Node c} {o : Origin}

/-- What is accounted for by a node is accounted for by its root and its parts. -/
theorem node (h : Accounts acts own closed)
    (hclosed : closed = n.opens o ++
      (n.walked n.parts).flatMap fun m => m.2.scopesIn (n.holder o) := by rfl) :
    Accounts acts own (n.scopesIn o) := by
  rwa [Node.scopesIn_eq, ← hclosed]

/-- The same in another order. -/
theorem node_perm (h : Accounts acts own closed)
    (hclosed : closed.Perm (n.opens o ++
      (n.walked n.parts).flatMap fun m => m.2.scopesIn (n.holder o))) :
    Accounts acts own (n.scopesIn o) := by
  rw [Node.scopesIn_eq]
  exact h.perm hclosed

/-- Most nodes declare nothing in the scope they stand in. -/
theorem plain (h : Accounts acts (n.registers o) closed) (hc : c.declares = false := by rfl) :
    Accounts acts [] closed := by
  rwa [n.registers_eq_nil hc] at h

/-- Looking up the first name of a path declares nothing. -/
theorem pathLooks (use : NameUse) (p : Path) : Accounts (p.pathLooks use) [] [] := by
  cases p with
  | path global segments span slot =>
    cases segments with
    | nil => exact .nil
    | cons first others =>
      cases first with
      | segment ident generics => exact .look use global ident .nil

end Accounts

/-- No scopes are in attributes. -/
theorem scopesIn_attrs (o : Origin) : (attrs : Node (.many .attr)) → attrs.scopesIn o = []
  | .nil => Node.scopesIn_eq _ o
  | .cons (.attr ident args span) attrs => by
    rw [Node.scopesIn_eq]
    change (Node.attr ident args span).scopesIn o ++ (attrs.scopesIn o ++ []) = []
    rw [Node.scopesIn_eq, scopesIn_attrs o attrs]
    rfl

/-- The acts for a node account for what it declares and for the scopes in it. -/
theorem script_accounts : {c : Category} → (n : Node c) → (o : Origin) →
    Accounts (n.script o) (n.registers o) (n.scopesIn o)
  | _, .nil, _ => .node .nil
  | _, .cons n ns, o => .node (.append (script_accounts n o) (.last (script_accounts ns o)))
  | _, .absent, _ => .node .nil
  | _, .present n, o => .node (.last (script_accounts n o))
  | _, .expr o form, _ => .node (.last (script_accounts form o).plain)
  | _, .assign target op value, o =>
    .node (.append (script_accounts target o).plain (.last (script_accounts value o).plain))
  | _, .name ident slot, o => .node (.look .value false ident .nil)
  | _, .pathExpr p, o =>
    .node (.append (script_accounts p o).plain (.pathLooks .value p))
  | _, .literal l, _ => .node .nil
  | _, .binary left op right, o =>
    .node (.append (script_accounts left o).plain (.last (script_accounts right o).plain))
  | _, .unary op operand, o => .node (.last (script_accounts operand o).plain)
  | _, .suffixed op operand, o => .node (.last (script_accounts operand o).plain)
  | _, .call callee args, o =>
    .node (.append (script_accounts callee o).plain (.last (script_accounts args o).plain))
  | _, .index target indices, o =>
    .node (.append (script_accounts target o).plain (.last (script_accounts indices o).plain))
  | _, .member target field safe, o => .node (.last (script_accounts target o).plain)
  | _, .list items, o => .node (.last (script_accounts items o).plain)
  | _, .tuple items, o => .node (.last (script_accounts items o).plain)
  | _, .unit, _ => .node .nil
  | _, .construct p fields, o =>
    .node (.append (.append (script_accounts p o).plain (.pathLooks .type p))
      (.last (script_accounts fields o).plain)) (List.append_assoc ..)
  | _, .blockExpr b, o => .node (.within .block (.last (script_accounts b o)))
  | _, .cond condition positive negative, o =>
    .node_perm (.append (script_accounts condition o).plain
      (.append (.within .block (script_accounts positive o))
        (.last (script_accounts negative o).plain)))
      List.perm_middle
  | _, .loop body, o => .node (.within .loop (.last (script_accounts body o)))
  | _, .select subject entries, o =>
    .node (.append (script_accounts subject o).plain (.last (script_accounts entries o).plain))
  | _, .lambda params result body, o =>
    .node (.within .lambda (.front (script_accounts params o)
      (.append (script_accounts result o).plain (.last (script_accounts body o).plain))))
  | _, .break_ value, o => .node (.need .break_ o.span (.last (script_accounts value o).plain))
  | _, .continue_, o => .node (.need .continue_ o.span .nil)
  | _, .return_ value, o => .node (.need .return_ o.span (.last (script_accounts value o).plain))
  | _, .throw value, o => .node (.last (script_accounts value o).plain)
  | _, .tryCatch body handler, o =>
    .node (.append (.within .block (script_accounts body o))
      (.last (script_accounts handler o).plain))
  | _, .paren inner, o => .node (.last (script_accounts inner o).plain)
  | _, .spread inner, o => .node (.last (script_accounts inner o).plain)
  | _, .cast inner t safe, o =>
    .node (.append (script_accounts inner o).plain (.last (script_accounts t o).plain))
  | _, .this_, o => .node (.need .this_ o.span .nil)
  | _, .super, o => .node (.need .super o.span .nil)
  | _, .errorExpr, _ => .node .nil
  | _, .path global segments span slot, o => .node (.last (script_accounts segments o).plain)
  | _, .segment ident generics, o => .node (.last (script_accounts generics o).plain)
  | _, .argument name? value span, o => .node (.last (script_accounts value o).plain)
  | _, .namedField ident value, o => .node (.last (script_accounts value o).plain)
  | _, .shorthandField value, o => .node (.last (script_accounts value o).plain)
  | _, .baseField value, o => .node (.last (script_accounts value o).plain)
  | _, .block o stmts, _ =>
    .node (.append (.declares stmts.hoists) (.last (script_accounts stmts o)))
  | _, .selectEntry o conditions body, _ =>
    .node (.within .selectEntry
      (.append (script_accounts conditions o).plain (.last (script_accounts body o).plain)))
  | _, .lambdaParam id ident t, o =>
    .node (.append (script_accounts t o).plain (.declare ⟨.value, ident, .param, id⟩))
  | _, .handler id binding body, o =>
    .node (.within .handler (.append (.declare ⟨.value, binding, .localVar, id⟩)
      (.within .block (.last (script_accounts body o)))))
  | _, .type o form, _ => .node (.last (script_accounts form o).plain)
  | _, .pathType p, o => .node (.append (script_accounts p o).plain (.pathLooks .type p))
  | _, .tupleType items, o => .node (.last (script_accounts items o).plain)
  | _, .funcType params result, o =>
    .node (.append (script_accounts params o).plain (.last (script_accounts result o).plain))
  | _, .arrayType element size, o =>
    .node (.append (script_accounts element o).plain (.last (script_accounts size o).plain))
  | _, .sliceType element, o => .node (.last (script_accounts element o).plain)
  | _, .parenType inner, o => .node (.last (script_accounts inner o).plain)
  | _, .unitType, _ => .node .nil
  | _, .errorType, _ => .node .nil
  | _, .stmt o form, _ => .node (.last (script_accounts form o))
  | _, .exprStmt e, o => .node (.last (script_accounts e o).plain)
  | _, .varStmt kind ident t init, o =>
    .node (.append (script_accounts t o).plain (.append (script_accounts init o).plain
      (.declare ⟨.value, ident, .localVar, o.id⟩)))
  | _, .forStmt binding source body, o =>
    .node_perm (.append (script_accounts source o).plain
      (.within .loop (.append (.declare ⟨.value, binding, .localVar, o.id⟩)
        (.within .block (.last (script_accounts body o))))))
      (List.perm_middle.trans (List.perm_middle.cons _))
  | _, .whileStmt condition body, o =>
    .node_perm (.append (script_accounts condition o).plain
      (.within .loop (.last (script_accounts body o)))) List.perm_middle
  | _, .itemStmt i, o => .node (.last (script_accounts i o).plain)
  | _, .errorStmt, _ => .node .nil
  | _, .item o attrs modifiers form, _ => by
    refine .node (.last (script_accounts form o).plain) ?_
    change _ = attrs.scopesIn o ++ (form.scopesIn o ++ [])
    rw [scopesIn_attrs]
    rfl
  | _, .funcItem ident generics params result body, o =>
    .node (.within .func (.append (script_accounts generics o) (.front (script_accounts params o)
      (.append (script_accounts result o).plain (.last (script_accounts body o).plain)))))
  | _, .classItem isStruct ident generics supers members, o =>
    .node (.within _ (.append (script_accounts generics o)
      (.append (script_accounts supers o).plain
        (.front (.declares members.hoists) (.last (script_accounts members o).plain)))))
  | _, .enumItem ident generics entries members, o =>
    .node (.within _ (.append (script_accounts generics o)
      (.append (script_accounts entries o).plain
        (.front (.declares members.hoists) (.last (script_accounts members o).plain)))))
  | _, .traitItem ident generics supers members, o =>
    .node (.within _ (.append (script_accounts generics o)
      (.append (script_accounts supers o).plain
        (.front (.declares members.hoists) (.last (script_accounts members o).plain)))))
  | _, .aliasItem ident generics t, o =>
    .node (.within _ (.front (script_accounts generics o) (.last (script_accounts t o).plain)))
  | _, .objectItem ident supers members, o =>
    .node (.within _ (.append (script_accounts supers o).plain
      (.front (.declares members.hoists) (.last (script_accounts members o).plain))))
  | _, .fieldItem kind? ident t default, o =>
    .node (.append (script_accounts t o).plain (.last (script_accounts default o).plain))
  | _, .initItem params body, o =>
    .node_perm (.within .func (.front (script_accounts params o)
      (.within .block (.last (script_accounts body o))))) (List.perm_middle.cons _)
  | _, .attr ident args span, _ => .node .nil
  | _, .blockBody b, o => .node (.within .block (.last (script_accounts b o)))
  | _, .exprBody e, o => .node (.last (script_accounts e o).plain)
  | _, .param o ident t default, _ =>
    .node (.append (script_accounts t o).plain (.append (script_accounts default o).plain
      (.declare ⟨.value, ident, .param, o.id⟩)))
  | _, .generic o ident form, _ =>
    .node (.append (script_accounts form o).plain (.declares (form.genericDeclares ident o.id)))
  | _, .typeGeneric bounds, o => .node (.last (script_accounts bounds o).plain)
  | _, .lifetimeGeneric, _ => .node .nil
  | _, .constGeneric t default, o =>
    .node (.append (script_accounts t o).plain (.last (script_accounts default o).plain))
  | _, .enumEntry o ident form, _ => .node (.last (script_accounts form o).plain)
  | _, .bareEntry, _ => .node .nil
  | _, .valueEntry value, o => .node (.last (script_accounts value o).plain)
  | _, .tupleEntry types, o => .node (.last (script_accounts types o).plain)
  | _, .structEntry fields, o => .node (.last (script_accounts fields o).plain)
  | _, .entryField ident t, o => .node (.last (script_accounts t o).plain)

/-- The acts for a module account for all its scopes. -/
theorem moduleScript_accounts (stmts : List Stmt) :
    Accounts (moduleScript stmts) (moduleRegisters stmts) ((Node.ofList stmts).scopesIn default) :=
  .append (.declares _) (script_accounts _ default)

/-- **Names declared again.** In a module that is read without errors, every scope reports each
declaration of a name but the first one, at the declared name and with a link to the first one, and
nothing else is reported as declared again. The names of the top level are those of its declarations
and variables, each with its first declaration. -/
theorem resolve_redeclared {file : FileId} {tokens : List Token} {p : Parsed}
    (h : parse file tokens = .ok p) (free : Diagnostic.anyError p.diagnostics = false) :
    ∃ r, resolve p.stmts = .ok r ∧
      (r.errors.filter (·.problem.isRedeclared)).Perm
        ((moduleScopes p.stmts).flatMap Registration.again) ∧
      r.root.Keeps (moduleRegisters p.stmts) := by
  obtain ⟨r, hr, -⟩ := resolve_bound p.stmts (fresh_of_parse h free)
  obtain ⟨herrors, hroot⟩ := resolve_plays hr
  obtain ⟨hkeeps, -, hagain⟩ :=
    moduleScript_accounts p.stmts .start [] (Scope.keeps_empty .module)
  have hnone : Registration.again [] = [] := rfl
  rw [hnone, List.append_nil, List.nil_append] at hagain
  rw [hroot] at hkeeps
  refine ⟨r, hr, ?_, hkeeps⟩
  rw [herrors]
  exact hagain

/-- A function is declared in front of a variable above it, and a parameter twice. -/
theorem resolve_redeclared_above : ∃ lexed p r,
    lex ⟨0⟩ "val a = 1\nfunc a() => 1\nfunc f(x: int, x: int) => 1" = .ok lexed ∧
      parse ⟨0⟩ lexed.tokens = .ok p ∧ resolve p.stmts = .ok r ∧
      (r.errors.filter (·.problem.isRedeclared)).Perm
        [⟨.redeclared "a" (some ⟨15, 1, ⟨0⟩⟩), ⟨4, 1, ⟨0⟩⟩⟩,
          ⟨.redeclared "x" (some ⟨31, 1, ⟨0⟩⟩), ⟨39, 1, ⟨0⟩⟩⟩] ∧
      r.root.bindings .value = [("a", ⟨.declared .func ⟨3⟩, some ⟨15, 1, ⟨0⟩⟩⟩),
        ("f", ⟨.declared .func ⟨10⟩, some ⟨29, 1, ⟨0⟩⟩⟩)] := by
  obtain ⟨lexed, p, hlex, hparse, test⟩ := exists_of_readsTo (show readsTo ⟨0⟩
    "val a = 1\nfunc a() => 1\nfunc f(x: int, x: int) => 1"
    (fun _ p => !Diagnostic.anyError p.diagnostics &&
      ((moduleScopes p.stmts).flatMap Registration.again =
        [⟨.redeclared "a" (some ⟨15, 1, ⟨0⟩⟩), ⟨4, 1, ⟨0⟩⟩⟩,
          ⟨.redeclared "x" (some ⟨31, 1, ⟨0⟩⟩), ⟨39, 1, ⟨0⟩⟩⟩] &&
        ((Registration.firsts (moduleRegisters p.stmts)).filter (·.space = .value)).map
          (fun d => (d.ident.name, d.binding)) = [("a", ⟨.declared .func ⟨3⟩, some ⟨15, 1, ⟨0⟩⟩⟩),
            ("f", ⟨.declared .func ⟨10⟩, some ⟨29, 1, ⟨0⟩⟩⟩)])) = true by
      decide +kernel)
  obtain ⟨clean, test⟩ := Bool.and_eq_true_iff.1 test
  obtain ⟨hagain, hfirsts⟩ := Bool.and_eq_true_iff.1 test
  obtain ⟨r, hr, herrors, hroot⟩ := resolve_redeclared hparse (by simpa using clean)
  rw [of_decide_eq_true hagain] at herrors
  exact ⟨lexed, p, r, hlex, hparse, hr, herrors, (hroot .value).trans (of_decide_eq_true hfirsts)⟩

end FrontEnd
