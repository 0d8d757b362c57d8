import FrontEnd.Command.Compilation
import FrontEnd.Proofs.Progress.Files
import FrontEnd.Proofs.Scoping.Modules

/-!
# What a compilation comes to

Whether a compilation fails, at which stage and with how many errors, is up to the text and to the
depth it is compiled to. What is printed on the way and how diagnostics are written has no part in
it: a stage stops for the errors among its diagnostics, whether they are reported or laid out.
-/

namespace FrontEnd

/-- What a compilation of a text may come to. -/
inductive Verdict (depth : Depth) (text : String) : Except Failure Unit → Prop
  /-- The text cannot be split into tokens. -/
  | unscanned {e : LexError} (scan : lex ⟨0⟩ text = .error e) :
    Verdict depth text (.error (.halt .lex 1))
  /-- Reading the tokens is given up. -/
  | aborted {lexed : Lexed} {a : ParseAbort} (scan : lex ⟨0⟩ text = .ok lexed)
    (read : parse ⟨0⟩ lexed.tokens = .error a) :
    Verdict depth text (.error (.halt .parse (Diagnostic.errorCount a.diagnostics)))
  /-- The tokens are read to their end, with errors. -/
  | misread {lexed : Lexed} {p : Parsed} (scan : lex ⟨0⟩ text = .ok lexed)
    (read : parse ⟨0⟩ lexed.tokens = .ok p) (errors : 0 < Diagnostic.errorCount p.diagnostics) :
    Verdict depth text (.error (.halt .parse (Diagnostic.errorCount p.diagnostics)))
  /-- The tokens are read without errors, and no more is asked for. -/
  | read {lexed : Lexed} {p : Parsed} (scan : lex ⟨0⟩ text = .ok lexed)
    (read : parse ⟨0⟩ lexed.tokens = .ok p) (clean : Diagnostic.errorCount p.diagnostics = 0)
    (last : depth = .parser) : Verdict depth text (.ok ())
  /-- Some names are not resolved. -/
  | unresolved {lexed : Lexed} {p : Parsed} {r : Resolved} (scan : lex ⟨0⟩ text = .ok lexed)
    (read : parse ⟨0⟩ lexed.tokens = .ok p) (clean : Diagnostic.errorCount p.diagnostics = 0)
    (last : depth = .nameResolution) (names : resolve p.stmts = .ok r)
    (errors : 0 < r.diagnostics.length) :
    Verdict depth text (.error (.halt .resolve r.diagnostics.length))
  /-- All names are resolved. -/
  | resolved {lexed : Lexed} {p : Parsed} {r : Resolved} (scan : lex ⟨0⟩ text = .ok lexed)
    (read : parse ⟨0⟩ lexed.tokens = .ok p) (clean : Diagnostic.errorCount p.diagnostics = 0)
    (last : depth = .nameResolution) (names : resolve p.stmts = .ok r)
    (none : r.diagnostics = []) : Verdict depth text (.ok ())

/-- Help below does not change what a diagnostic is. -/
theorem Diagnostic.isError_withHelp? (d : Diagnostic) (help? : Option String) :
    (d.withHelp? help?).isError = d.isError := by
  cases help? <;> rfl

/-- An error of the scanner is one error. -/
theorem LexError.errorCount_toDiagnostic (e : LexError) :
    Diagnostic.errorCount [e.toDiagnostic] = 1 := by
  unfold Diagnostic.errorCount toDiagnostic
  rw [List.countP_singleton, Diagnostic.isError_withHelp?]
  rfl

/-- A text that is given up has an error among its diagnostics, the fatal one. -/
theorem parse_error_count {file : FileId} {tokens : List Token} {a : ParseAbort}
    (h : parse file tokens = .error a) : 0 < Diagnostic.errorCount a.diagnostics := by
  obtain ⟨s, -, hdiagnostics⟩ := Parse.parse_error h
  rw [hdiagnostics]
  exact List.countP_pos_iff.2 ⟨a.error.toDiagnostic, List.mem_append_right _ List.mem_cons_self,
    a.error.isError_toDiagnostic⟩

/-- Name resolution reports errors only. -/
theorem ResolveError.isError_toDiagnostic (e : ResolveError) : e.toDiagnostic.isError = true := by
  unfold toDiagnostic
  dsimp only
  split
  · rfl
  · rw [Diagnostic.isError_withHelp?]
    rfl
  · rfl

/-- Name resolution reports nothing but errors. -/
theorem Resolved.errorCount_diagnostics (r : Resolved) :
    Diagnostic.errorCount r.diagnostics = r.diagnostics.length := by
  refine List.countP_eq_length.2 fun d hd => ?_
  obtain ⟨e, -, rfl⟩ := List.mem_map.1 hd
  exact e.isError_toDiagnostic

namespace Compilation

variable {α β : Type}

/-- What a step came to, without what was written. -/
def outcome : EStateM.Result Failure Output α → Except Failure α
  | .ok a _ => .ok a
  | .error e _ => .error e

/-- A step comes to the same whatever was written before. -/
def ComesTo (p : Compile α) (r : Except Failure α) : Prop := ∀ o, outcome (p o) = r

namespace ComesTo

/-- A result that is at hand. -/
theorem pure {a : α} : ComesTo (Pure.pure a) (.ok a) := fun _ => rfl

/-- A failure stands. -/
theorem failed {e : Failure} : ComesTo (throw e : Compile α) (.error e) := fun _ => rfl

/-- Nothing that is written changes the verdict. -/
theorem write (text : String) : ComesTo (Compilation.write text) (.ok ()) := fun _ => rfl

/-- Nor does what is written to the second output. -/
theorem writeErr (text : String) : ComesTo (Compilation.writeErr text) (.ok ()) := fun _ => rfl

/-- Nothing comes after a failure. -/
theorem failed_bind {p : Compile α} {f : α → Compile β} {e : Failure} (hp : ComesTo p (.error e)) :
    ComesTo (p >>= f) (.error e) := by
  intro o
  have first := hp o
  change outcome (EStateM.bind p f o) = _
  unfold EStateM.bind
  cases hrun : p o with
  | ok a o' =>
    rw [hrun] at first
    cases first
  | error e' o' =>
    rw [hrun] at first
    cases first
    rfl

/-- A step that does not fail, and what comes after it. -/
theorem bind {p : Compile α} {f : α → Compile β} {a : α} {r : Except Failure β}
    (hp : ComesTo p (.ok a)) (hf : ComesTo (f a) r) : ComesTo (p >>= f) r := by
  intro o
  have first := hp o
  change outcome (EStateM.bind p f o) = _
  unfold EStateM.bind
  cases hrun : p o with
  | ok a' o' =>
    rw [hrun] at first
    cases first
    exact hf o'
  | error e o' =>
    rw [hrun] at first
    cases first

/-- Something may be printed on the way. -/
theorem printing {cond : Prop} [Decidable cond] {text : String} {f : Unit → Compile β}
    {r : Except Failure β} (hf : ComesTo (f ()) r) :
    ComesTo (if cond then Compilation.write text >>= f else f ()) r := by
  split
  · exact (write text).bind hf
  · exact hf

end ComesTo

/-- What the diagnostics of a stage come to. -/
def halted (stage : Stage) (ds : List Diagnostic) : Except Failure Unit :=
  if 0 < Diagnostic.errorCount ds then .error (.halt stage (Diagnostic.errorCount ds)) else .ok ()

/-- A report halts the stage if there are errors in it. -/
theorem emitReport_comesTo (sources : Sources) (stage : Stage) (ds : List Diagnostic) :
    ComesTo (emitReport sources stage ds) (halted stage ds) := by
  refine (ComesTo.write _).bind ?_
  unfold halted
  split
  · rename_i hnone
    rw [hnone, if_neg (Nat.lt_irrefl 0)]
    exact .pure
  · rename_i hsome
    rw [if_pos (Nat.pos_of_ne_zero hsome)]
    exact .failed

/-- So does one with source lines. -/
theorem emitLayout_comesTo (layout : LayoutConfig) (sources : Sources) (stage : Stage)
    (ds : List Diagnostic) : ComesTo (emitLayout layout sources stage ds) (halted stage ds) := by
  unfold emitLayout
  split
  · rename_i hnone
    rw [List.isEmpty_iff.1 hnone]
    exact .pure
  · refine (ComesTo.writeErr _).bind ?_
    unfold halted
    dsimp only
    split
    · exact .failed
    · exact .pure

/-- A stage stops for the errors among its diagnostics, in whatever form they are written. -/
theorem emit_comesTo (config : Config) (color : Bool) (sources : Sources) (stage : Stage)
    (ds : List Diagnostic) : ComesTo (emit config color sources stage ds) (halted stage ds) := by
  unfold emit
  dsimp only
  refine .printing ?_
  split
  · exact emitReport_comesTo sources stage ds
  · exact emitLayout_comesTo _ sources stage ds

/-- What comes behind the diagnostics of a stage without errors. -/
theorem emit_bind {config : Config} {color : Bool} {sources : Sources} {stage : Stage}
    {ds : List Diagnostic} {f : Unit → Compile α} {r : Except Failure α}
    (stopped : 0 < Diagnostic.errorCount ds →
      r = .error (.halt stage (Diagnostic.errorCount ds)))
    (passed : Diagnostic.errorCount ds = 0 → ComesTo (f ()) r) :
    ComesTo (emit config color sources stage ds >>= f) r := by
  have here := emit_comesTo config color sources stage ds
  unfold halted at here
  split at here
  · rename_i hsome
    rw [stopped hsome]
    exact here.failed_bind
  · rename_i hnone
    exact here.bind (passed (Nat.eq_zero_of_not_pos hnone))

/-- A stage is finished without a verdict of its own. -/
theorem finish_comesTo (config : Config) (color : Bool) (stage : Stage) :
    ComesTo (finish config color stage) (.ok ()) := by
  unfold finish
  split
  · exact .write _
  · exact .pure

variable {config : Config} {color : Bool} {sources : Sources}

/-- All diagnostics of name resolution are errors. -/
theorem resolveNames_comesTo {stmts : List Stmt} {r : Resolved} {v : Except Failure Unit}
    (names : resolve stmts = .ok r)
    (stopped : 0 < r.diagnostics.length → v = .error (.halt .resolve r.diagnostics.length))
    (passed : r.diagnostics.length = 0 → v = .ok ()) :
    ComesTo (resolveNames config color sources stmts) v := by
  unfold resolveNames
  rw [names]
  dsimp only
  refine emit_bind ?_ fun hnone => ?_
  · rw [r.errorCount_diagnostics]
    exact stopped
  · rw [r.errorCount_diagnostics] at hnone
    rw [passed hnone]
    exact .printing (finish_comesTo config color .resolve)

/-- A parser that gives up halts the run, with the errors it found. -/
theorem readTokens_aborted {file : FileId} {tokens : List Token} {a : ParseAbort}
    (read : parse file tokens = .error a) :
    ComesTo (readTokens config color sources file tokens)
      (.error (.halt .parse (Diagnostic.errorCount a.diagnostics))) := by
  unfold readTokens
  dsimp only
  refine .printing ?_
  rw [read]
  refine emit_bind (fun _ => rfl) fun hnone => ?_
  exact absurd (parse_error_count read) (by rw [hnone]; exact Nat.lt_irrefl 0)

/-- Tokens that are parsed lead to the errors found there, or on to name resolution. -/
theorem readTokens_comesTo {file : FileId} {tokens : List Token} {p : Parsed}
    {v : Except Failure Unit} (read : parse file tokens = .ok p)
    (stopped : 0 < Diagnostic.errorCount p.diagnostics →
      v = .error (.halt .parse (Diagnostic.errorCount p.diagnostics)))
    (passed : Diagnostic.errorCount p.diagnostics = 0 → config.depth = .parser → v = .ok ())
    (named : Diagnostic.errorCount p.diagnostics = 0 → config.depth = .nameResolution →
      ComesTo (resolveNames config color sources p.stmts) v) :
    ComesTo (readTokens config color sources file tokens) v := by
  unfold readTokens
  dsimp only
  refine .printing ?_
  rw [read]
  refine emit_bind stopped fun clean => ?_
  refine .printing ?_
  cases hdepth : config.depth with
  | parser =>
    rw [passed clean hdepth]
    exact finish_comesTo config color .parse
  | nameResolution => exact named clean hdepth

/-- Every run comes to the verdict on its text. -/
theorem run_comesTo {text : String} {v : Except Failure Unit} (h : Verdict config.depth text v) :
    ComesTo (run config color text) v := by
  unfold run
  dsimp only
  refine .printing ?_
  cases h with
  | unscanned scan =>
    rw [scan]
    refine emit_bind (fun _ => by rw [LexError.errorCount_toDiagnostic]) fun _ => .failed
  | aborted scan read =>
    rw [scan]
    exact readTokens_aborted read
  | misread scan read errors =>
    rw [scan]
    exact readTokens_comesTo read (fun _ => rfl) (fun clean => absurd errors (by omega))
      fun clean => absurd errors (by omega)
  | read scan read clean last =>
    rw [scan]
    refine readTokens_comesTo read (fun errors => absurd errors (by omega)) (fun _ _ => rfl) ?_
    intro _ last'
    rw [last] at last'
    cases last'
  | unresolved scan read clean last names errors =>
    rw [scan]
    refine readTokens_comesTo read (fun errors => absurd errors (by omega)) ?_ fun _ _ => ?_
    · intro _ last'
      rw [last] at last'
      cases last'
    · exact resolveNames_comesTo names (fun _ => rfl) fun none => absurd errors (by omega)
  | resolved scan read clean last names none =>
    rw [scan]
    refine readTokens_comesTo read (fun errors => absurd errors (by omega)) (fun _ _ => rfl)
      fun _ _ => ?_
    refine resolveNames_comesTo names (fun errors => absurd errors ?_) fun _ => rfl
    rw [none]
    exact Nat.lt_irrefl 0

end Compilation

/-- Every text comes to something, and never to a defect: names are resolved only in a text that was
read without errors. -/
theorem exists_verdict (depth : Depth) (text : String) : ∃ v, Verdict depth text v := by
  cases scan : lex ⟨0⟩ text with
  | error e => exact ⟨_, .unscanned scan⟩
  | ok lexed =>
    cases read : parse ⟨0⟩ lexed.tokens with
    | error a => exact ⟨_, .aborted scan read⟩
    | ok p =>
      rcases Nat.eq_zero_or_pos (Diagnostic.errorCount p.diagnostics) with clean | errors
      · cases depth with
        | parser => exact ⟨_, .read scan read clean rfl⟩
        | nameResolution =>
          have free : Diagnostic.anyError p.diagnostics = false := by
            rw [← Bool.not_eq_true, Diagnostic.anyError_iff, clean]
            exact Nat.lt_irrefl 0
          obtain ⟨r, names, -⟩ := resolve_bound p.stmts (fresh_of_parse read free)
          rcases Nat.eq_zero_or_pos r.diagnostics.length with none | errors
          · exact ⟨_, .resolved scan read clean rfl names (List.length_eq_zero_iff.1 none)⟩
          · exact ⟨_, .unresolved scan read clean rfl names errors⟩
      · exact ⟨_, .misread scan read errors⟩

/-- What a compilation of a readable text comes to hangs on the text and the depth alone: neither
the format of the diagnostics nor their width, what is printed, the log, the colors or what was
written before have a part in it. -/
theorem compile_verdict (config : Config) (text : String) :
    ∃ v, Verdict config.depth text v ∧
      ∀ (print : PrintSet) (wrapLen : Nat) (format : OutputFormat) (dev color : Bool) (o : Output),
        Compilation.outcome
          (compile { config with print, wrapLen, format, dev } color (.ok text) o) = v := by
  obtain ⟨v, hv⟩ := exists_verdict config.depth text
  refine ⟨v, hv, fun print wrapLen format dev color o => ?_⟩
  have hv' : Verdict { config with print, wrapLen, format, dev }.depth text v := hv
  exact Compilation.run_comesTo hv' o

end FrontEnd
