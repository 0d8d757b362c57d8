import FrontEnd.Proofs.Following.Steps
import FrontEnd.Proofs.Loosening.Joints
import FrontEnd.Proofs.States

/-!
# Where expressions and types start

The span of an expression or a type starts with its first token, and so it is in the file of that
token. Once a parser has looked at the token at hand, this shows in its results alone (`Yields`),
wherever it goes on.
-/

namespace FrontEnd

/-- What holds of the results of a parser. -/
def Yields {α : Type} (P : α → Prop) (p : Parser α) : Prop :=
  ∀ ⦃s : ParserState⦄ ⦃x : α⦄ ⦃s' : ParserState⦄, p s = .ok x s' → P x

/-- The results of a parser start with the token at hand. -/
def Opens {c : Category} (p : Parser (Node c)) : Prop :=
  ∀ ⦃s : ParserState⦄ ⦃x : Node c⦄ ⦃s' : ParserState⦄, p s = .ok x s' →
    x.first? = some s.current.span.file

namespace Yields

variable {α β : Type} {P : β → Prop}

/-- A result that is at hand. -/
theorem pure {x : β} (h : P x) : Yields P (Pure.pure x) := by
  rintro s _ _ ⟨⟩
  exact h

/-- A failure yields nothing. -/
theorem failed {e : SyntaxError} : Yields P (throw e) := fun _ _ _ hrun => nomatch hrun

/-- Only the last one of some parsers counts. -/
theorem bind {p : Parser α} {f : α → Parser β} (hf : ∀ x, Yields P (f x)) :
    Yields P (p >>= f) := by
  intro s y s' hrun
  obtain ⟨x, s₁, -, hf₁⟩ := bind_ok hrun
  exact hf x hf₁

/-- Unless what holds of the result of the first one is needed. -/
theorem after {Q : α → Prop} {p : Parser α} {f : α → Parser β} (hp : Yields Q p)
    (hf : ∀ x, Q x → Yields P (f x)) : Yields P (p >>= f) := by
  intro s y s' hrun
  obtain ⟨x, s₁, hp₁, hf₁⟩ := bind_ok hrun
  exact hf x (hp hp₁) hf₁

/-- A choice by a condition. -/
theorem ite {c : Prop} [Decidable c] {p q : Parser β} (hp : Yields P p) (hq : Yields P q) :
    Yields P (if c then p else q) := by
  split
  · exact hp
  · exact hq

end Yields

/-- What was read since some start is placed in its file. -/
theorem ParserState.spanFrom_file (s : ParserState) (start : Span) :
    (s.spanFrom start).file = start.file := by
  unfold spanFrom
  split <;> rfl

namespace Node

/-- The first token of an expression is that of its span. -/
theorem first?_expr (e : Expr) : e.first? = some e.span.file := by
  cases e
  rfl

end Node

namespace Opens

variable {α : Type} {c : Category}

/-- A look at the state, before the first step. -/
theorem peek {view : ParserState → α} {f : α → Parser (Node c)} (hf : ∀ a, Opens (f a)) :
    Opens (view <$> get >>= f) :=
  fun s x _ hrun => hf (view s) (show f (view s) s = .ok x _ from hrun)

/-- All results are placed in the file of the token at hand. -/
theorem here {f : Span → Parser (Node c)}
    (hf : ∀ start, Yields (fun x => x.first? = some start.file) (f start)) :
    Opens (Parse.here >>= f) :=
  fun s x _ hrun => hf s.current.span (show f _ s = .ok x _ from hrun)

/-- The first of two parsers starts there, and the second one does not change that. -/
theorem bind {c' : Category} {p : Parser (Node c')} {f : Node c' → Parser (Node c)} (hp : Opens p)
    (hf : ∀ (i : FileId) (x : Node c'), x.first? = some i →
      Yields (fun y => y.first? = some i) (f x)) : Opens (p >>= f) := by
  intro s y s' hrun
  obtain ⟨x, s₁, hp₁, hf₁⟩ := bind_ok hrun
  exact hf _ x (hp hp₁) hf₁

end Opens

namespace Parse

variable {g : Grammar} {i : FileId}

section Nodes

/-- A new expression has the first token of its span. -/
theorem newExpr_yields {form : ExprForm} {span : Span} (h : span.file = i) :
    Yields (fun e => e.first? = some i) (newExpr form span) := by
  rintro s _ _ ⟨⟩
  exact congrArg some h

/-- So has a new type. -/
theorem newType_yields {form : TypeForm} {span : Span} (h : span.file = i) :
    Yields (fun t => t.first? = some i) (newType form span) := by
  rintro s _ _ ⟨⟩
  exact congrArg some h

/-- A span from some place on begins there. -/
theorem spanFrom_yields {β : Type} {P : β → Prop} {start : Span} {f : Span → Parser β}
    (hf : ∀ span : Span, span.file = start.file → Yields P (f span)) :
    Yields P (spanFrom start >>= f) :=
  .after (by
    rintro s _ _ ⟨⟩
    exact s.spanFrom_file start) hf

/-- A stub stands where something was expected. -/
theorem stub_opens {c : Category} {what : String} {stub : Span → Parser (Node c)}
    (h : ∀ span, Yields (fun x => x.first? = some span.file) (stub span)) :
    Opens (reportExpected what >>= fun _ => here >>= stub) := by
  intro s x s' hrun
  obtain ⟨_, s₁, h₁, hrun⟩ := bind_ok hrun
  obtain ⟨span, s₂, h₂, hrun⟩ := bind_ok hrun
  rw [reportExpected_run] at h₁
  split at h₁
  · cases h₁
  · cases h₁
    cases h₂
    exact h _ hrun

end Nodes

section Types

/-- A path is placed where it starts. -/
theorem path_file {n : Nat} {inType : Bool} {s s' : ParserState} {p : Path}
    (h : path n g inType s = .ok p s') : p.pathSpan.file = s.current.span.file := by
  obtain ⟨start, s₁, h₁, h⟩ := bind_ok h
  cases h₁
  obtain ⟨_, s₂, -, h⟩ := bind_ok h
  obtain ⟨_, s₃, -, h⟩ := bind_ok h
  obtain ⟨span, s₄, h₄, h⟩ := bind_ok h
  cases h
  cases h₄
  exact ParserState.spanFrom_file _ _

/-- Types in parentheses begin with the opening one. -/
theorem parenType_opens (n : Nat) : Opens (parenType n g) := by
  refine .here fun start => .bind fun _ => .bind fun _ => .bind fun r => .bind fun closed => ?_
  refine .ite (newType_yields rfl) (.bind fun arrow => .ite (.bind fun result => ?_) ?_)
  · exact newType_yields rfl
  · exact spanFrom_yields fun span hspan => newType_yields hspan

/-- A slice or an array begins with its bracket. -/
theorem bracketType_opens : Opens (bracketType g) := by
  refine .here fun start => .bind fun _ => .bind fun _ => .bind fun item => .bind fun sized => ?_
  extract_lets after
  have after_yields (form : TypeForm) :
      Yields (fun t => t.first? = some start.file) (after form) :=
    .bind fun closed => .ite (newType_yields rfl)
      (spanFrom_yields fun span hspan => newType_yields hspan)
  exact .ite (.bind fun size => after_yields _) (after_yields _)

/-- Every type begins with the token at hand. -/
theorem type_opens (n : Nat) : Opens (type n g) := by
  have of_path : Opens (do let p ← path n g true; newType (.pathType p) p.pathSpan) := by
    intro s x s' hrun
    obtain ⟨p, s₁, h₁, h⟩ := bind_ok hrun
    exact newType_yields (path_file h₁) h
  refine .peek fun k => ?_
  split
  · exact of_path
  · exact of_path
  · exact parenType_opens n
  · exact bracketType_opens
  · exact stub_opens fun span => newType_yields rfl

end Types

section Expressions

/-- A path begins with its first name, and a struct value with its path. -/
theorem pathOrConstruct_opens (n : Nat) : Opens (pathOrConstruct n g) := by
  intro s x s' hrun
  obtain ⟨p, s₁, h₁, h⟩ := bind_ok hrun
  have hp := path_file h₁
  refine (show Yields (fun e => e.first? = some s.current.span.file) _ from ?_) h
  refine .bind fun s => .bind fun brace => .ite ?_ ?_
  · refine .bind fun _ => .bind fun _ => .bind fun fields => .bind fun closed => ?_
    exact .ite (newExpr_yields hp) (spanFrom_yields fun span hspan =>
      newExpr_yields (hspan.trans hp))
  · split
    · exact newExpr_yields hp
    · exact newExpr_yields hp

/-- What is in parentheses begins with the opening one. -/
theorem parenExpr_opens (n : Nat) : Opens (parenExpr n g) := by
  refine .here fun start => .bind fun _ => .bind fun _ => .bind fun isUnit => .ite ?_ ?_
  · exact .bind fun _ => .bind fun _ => spanFrom_yields fun span hspan => newExpr_yields hspan
  · refine .bind fun first => ?_
    extract_lets after
    have after_yields : Yields (fun e => e.first? = some start.file) (after ()) :=
      .bind fun others => .bind fun closed => .ite (newExpr_yields rfl)
        (spanFrom_yields fun span hspan => newExpr_yields hspan)
    split
    · refine .bind fun comma => .ite ?_ after_yields
      refine .bind fun closed => .ite (newExpr_yields rfl) ?_
      exact spanFrom_yields fun span hspan => .bind fun _ => newExpr_yields hspan
    · exact after_yields

/-- A list begins with its bracket. -/
theorem listExpr_opens (n : Nat) : Opens (listExpr n g) :=
  .here fun _ => .bind fun _ => .bind fun _ => .bind fun _ => .bind fun _ =>
    .ite (newExpr_yields rfl) (spanFrom_yields fun _ hspan => newExpr_yields hspan)

/-- A condition begins with its keyword. -/
theorem cond_opens : Opens (cond g) :=
  .here fun _ => .bind fun _ => .bind fun _ => .bind fun _ => .bind fun _ =>
    spanFrom_yields fun _ hspan => newExpr_yields hspan

/-- So does a choice. -/
theorem select_opens (n : Nat) : Opens (select n g) :=
  .here fun _ => .bind fun _ => .bind fun _ => .bind fun _ => .bind fun _ => .bind fun _ =>
    .bind fun _ => .bind fun _ => spanFrom_yields fun _ hspan => newExpr_yields hspan

/-- A lambda begins with its bar. -/
theorem lambda_opens (n : Nat) : Opens (lambda n g) := by
  refine .here fun start => .bind fun params => .bind fun arrow => ?_
  extract_lets after
  have after_yields (result : Node (.maybe .type)) :
      Yields (fun e => e.first? = some start.file) (after result) :=
    .bind fun _ => .bind fun body => newExpr_yields rfl
  exact .ite (.bind fun t => after_yields _) (after_yields _)

/-- A handled block begins with its keyword. -/
theorem tryCatch_opens : Opens (tryCatch g) := by
  refine .here fun start => .bind fun _ => .bind fun body => .bind fun s => ?_
  extract_lets after
  have after_yields : Yields (fun e => e.first? = some start.file) (after ()) :=
    .bind fun _ => .bind fun binding => .bind fun handling => .bind fun id =>
      spanFrom_yields fun span hspan => newExpr_yields hspan
  exact .ite (.bind fun _ => after_yields) after_yields

/-- Where the token at hand starts no such expression, it is left standing. -/
theorem simpleForm_left {s s' : ParserState} (hrun : simpleForm? g s = .ok none s') : s' = s := by
  have given {p : Parser (Option ExprForm)} (hp : Yields (fun form? => form?.isSome = true) p)
      {s : ParserState} : p s ≠ .ok none s' := fun h => Bool.false_ne_true (hp h)
  obtain ⟨k, s₁, h₁, h⟩ := bind_ok hrun
  obtain rfl : s₁ = s := by
    cases h₁
    rfl
  clear h₁
  cases hliteral : Literal.ofToken? k with
  | some literal =>
    rw [hliteral] at h
    exact absurd h (given (.bind fun _ => .pure rfl))
  | none =>
    rw [hliteral] at h
    dsimp only at h
    split at h
    · exact absurd h (given (.bind fun _ => .pure rfl))
    · exact absurd h (given (.bind fun _ => .pure rfl))
    · exact absurd h (given (.bind fun _ => .pure rfl))
    · exact absurd h (given (.bind fun _ => .bind fun _ => .pure rfl))
    · exact absurd h (given (.bind fun _ => .bind fun _ => .pure rfl))
    · exact absurd h (given (.bind fun _ => .pure rfl))
    · exact absurd h (given (.bind fun _ => .bind fun _ => .pure rfl))
    · exact absurd h (given (.bind fun _ => .bind fun _ => .pure rfl))
    · exact absurd h (given (.bind fun _ => .bind fun _ => .pure rfl))
    · cases h
      rfl

/-- Every operand begins with the token at hand. -/
theorem primary_opens (n : Nat) : Opens (primary n g) := by
  refine .peek fun k => ?_
  split
  · exact pathOrConstruct_opens n
  · exact pathOrConstruct_opens n
  · exact parenExpr_opens n
  · exact listExpr_opens n
  · exact cond_opens
  · exact select_opens n
  · exact lambda_opens n
  · exact lambda_opens n
  · exact tryCatch_opens
  · intro s x s' hrun
    obtain ⟨start, s₁, h₁, h⟩ := bind_ok hrun
    cases h₁
    obtain ⟨form?, s₂, h₂, h⟩ := bind_ok h
    cases form? with
    | some form =>
      exact (spanFrom_yields fun span hspan => newExpr_yields hspan : Yields _ _) h
    | none =>
      rw [← simpleForm_left h₂]
      exact stub_opens (fun span => newExpr_yields rfl) h

/-- What stands behind an operand does not change where it starts. -/
theorem suffixes_yields (bound n : Nat) {e : Expr} (he : e.span.file = i) :
    Yields (fun e => e.first? = some i) (suffixes bound g n e) := by
  induction n generalizing e with
  | zero => exact .bind fun _ => .failed
  | succ n ih =>
    have made (form : ExprForm) {span : Span} (hspan : span.file = i) :
        Yields (fun e => e.first? = some i) (newExpr form span >>= suffixes bound g n) :=
      .after (newExpr_yields hspan) fun e he => ih (Option.some.inj (e.first?_expr.symm.trans he))
    unfold suffixes
    refine .bind fun s => ?_
    extract_lets behind start after
    have after_yields : Yields (fun e => e.first? = some i) (after ()) := by
      refine .bind fun k => ?_
      split
      · refine .bind fun _ => .bind fun _ => .bind fun args => .bind fun closed => ?_
        exact .ite (newExpr_yields he) (spanFrom_yields fun span hspan => made _ (hspan.trans he))
      · refine .bind fun _ => .bind fun _ => .bind fun indices => .bind fun closed => ?_
        exact .ite (newExpr_yields he) (spanFrom_yields fun span hspan => made _ (hspan.trans he))
      · exact .bind fun _ => .bind fun _ => .bind fun field => made _ he
      · exact .bind fun _ => .bind fun _ => .bind fun field => made _ he
      · split
        · exact .bind fun span => .bind fun _ => made _ he
        · exact .pure ((Node.first?_expr e).trans (congrArg some he))
    exact .ite (.bind fun _ => after_yields) after_yields

/-- So it does with what stands in front of it and behind it. -/
theorem operand_opens (n : Nat) : Opens (operand n g) := by
  intro s x s' hrun
  obtain ⟨_, s₁, h₁, h⟩ := bind_ok hrun
  cases h₁
  dsimp only at h
  generalize PrefixOp.ofTokens? s.kind s.nextKind = found at h
  cases found with
  | some op =>
    have inner : Yields (fun e => e.first? = some s.current.span.file) (do
        advance
        let inner ← g .operand
        newExpr (.unary op inner) (s.current.span.cover inner.span)) :=
      .bind fun _ => .bind fun inner => newExpr_yields rfl
    have outer : Yields (fun e => e.first? = some s.current.span.file) (do
        if op = .borrowMut then advance
        advance
        let inner ← g .operand
        newExpr (.unary op inner) (s.current.span.cover inner.span)) :=
      .ite (.bind fun _ => inner) inner
    exact outer h
  | none =>
    exact (primary_opens n).bind (fun i e he =>
      suffixes_yields n n (Option.some.inj (e.first?_expr.symm.trans he))) h

/-- Nor do casts. -/
theorem casts_yields (n : Nat) {e : Expr} (he : e.first? = some i) :
    Yields (fun e => e.first? = some i) (casts g n e) := by
  have hspan : e.span.file = i := Option.some.inj (e.first?_expr.symm.trans he)
  induction n generalizing e with
  | zero => exact .bind fun _ => .failed
  | succ n ih =>
    unfold casts
    refine .bind fun k => .ite (.bind fun _ => .bind fun t => ?_) (.pure he)
    refine .after (newExpr_yields hspan) fun e he => ih he ?_
    exact Option.some.inj (e.first?_expr.symm.trans he)

/-- A power begins with its left side. -/
theorem power_opens (n : Nat) : Opens (power n g) := by
  refine (operand_opens n).bind fun i e he => .after (casts_yields n he) fun left hleft => ?_
  refine .bind fun found => .ite (.pure hleft) (.bind fun _ => .bind fun right => ?_)
  exact newExpr_yields (Option.some.inj (left.first?_expr.symm.trans hleft))

/-- Nor do the operators of a level. -/
theorem chain_yields {level : Level} {tighter : Parser Expr} (n : Nat) {left : Expr}
    (hleft : left.first? = some i) :
    Yields (fun e => e.first? = some i) (chain level tighter n left) := by
  induction n generalizing left with
  | zero => exact .bind fun _ => .failed
  | succ n ih =>
    unfold chain
    refine .bind fun t => ?_
    split
    · exact .pure hleft
    · refine .bind fun _ => .bind fun _ => ?_
      extract_lets after
      have after_yields : Yields (fun e => e.first? = some i) (after ()) := by
        refine .bind fun right => .after (newExpr_yields ?_) fun e he => ih he
        exact Option.some.inj (left.first?_expr.symm.trans hleft)
      split
      · exact .bind fun _ => after_yields
      · exact after_yields

/-- So does every operation. -/
theorem binary_opens (n : Nat) (levels : List Level) : Opens (binary n g levels) := by
  induction levels with
  | nil => exact power_opens n
  | cons level levels ih => exact ih.bind fun i left hleft => chain_yields n hleft

/-- And an assignment. -/
theorem expr_opens (n : Nat) : Opens (expr n g) := by
  refine (binary_opens n Level.all).bind fun i target htarget => .bind fun k => ?_
  split
  · exact .pure htarget
  · refine .bind fun _ => .bind fun _ => .bind fun value => newExpr_yields ?_
    exact Option.some.inj (target.first?_expr.symm.trans htarget)

end Expressions

end Parse

end FrontEnd
