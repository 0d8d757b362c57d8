import FrontEnd.Proofs.Placing.Files

/-!
# Fields without a label

In a struct value a field may be a name by itself, which stands for the label and the value at once.
The parser takes any expression there. So such a field holds a name where one is written and nothing
else, but it may also hold a literal or a sum.
-/

namespace FrontEnd

/-- The value of a field without a label. -/
def Node.shorthand? : {c : Category} → Node c → Option Expr
  | _, .shorthandField value => some value
  | _, _ => none

/-- Whether an expression is a name. -/
def Node.isName : Expr → Bool
  | .expr _ (.name _ _) => true
  | _ => false

/-- How the value of a field without a label is written in a text. The field is no other one, as it
begins with no `...` and no label. If a comma or a closing brace is next behind a name, perhaps with
line breaks in between, then the value is that name. -/
def WrittenBare (tokens : List Token) (value : Expr) : Prop :=
  ∃ front t rest, tokens = front ++ t :: rest ∧ t.span.pos = value.span.pos ∧
    t.kind ≠ .symbol .spread ∧ ∀ name, t.kind = .ident name →
      rest.head?.map (·.kind) ≠ some (.symbol .colon) ∧
        ∀ next, rest.find? (·.kind ≠ .newline) = some next →
          next.kind = .symbol .comma ∨ next.kind = .symbol .rBrace →
            ∃ o, value = .expr o (.name ⟨name, t.span⟩ .empty)

namespace TokenStream

variable {K : TokenStream} {i : Nat} {ignores : Bool} {c : Category} {n : Node c} {eof : Token}

/-- The tokens of a text from a place on. -/
theorem getElem_drop {m : Nat} (heof : eof.kind = .eof)
    (hm : m < (K.tokens.drop i ++ [eof]).length) :
    (K.tokens.drop i ++ [eof])[m].kind = K.kindAt (i + m) := by
  rcases Nat.lt_or_ge m (K.tokens.drop i).length with hlt | hge
  · have hlength : i + m < K.tokens.length := by
      rw [List.length_drop] at hlt
      omega
    rw [List.getElem_append_left hlt, List.getElem_drop, kindAt, tokenAt_eq hlength]
  · have hlength : K.tokens.length ≤ i + m := by
      rw [List.length_drop] at hge
      omega
    rw [List.getElem_append_right hge, List.getElem_singleton, kindAt_eof hlength, heof]

/-- The next token behind a place that is no line break is where a step leads to. -/
theorem steps_of_find {next : Token} (heof : eof.kind = .eof) (hnext : next.kind ≠ .eof)
    (h : (K.tokens.drop (i + 1) ++ [eof]).find? (·.kind ≠ .newline) = some next) :
    ∃ k, K.Steps true i k ∧ K.kindAt k = next.kind := by
  obtain ⟨hkind, m, hm, hget, hbefore⟩ := List.find?_eq_some_iff_getElem.1 h
  have hk : K.kindAt (i + 1 + m) = next.kind := by
    rw [← hget, getElem_drop heof hm]
  have hlt : i + 1 + m < K.tokens.length := lt_of_kindAt (hk ▸ hnext)
  refine ⟨i + 1 + m, ⟨by omega, hlt.le, fun l hil hlm => ?_, nofun, fun _ => ?_⟩, hk⟩
  · obtain ⟨d, rfl⟩ : ∃ d, l = i + 1 + d := ⟨l - (i + 1), by omega⟩
    have hbreak := hbefore d (by omega)
    rw [← getElem_drop heof (by omega)]
    simpa using hbreak
  · rw [hk]
    simpa using hkind

/-- What is known of such a field in terms of places, said of the tokens themselves. -/
theorem Single.writtenBare {value : Expr} (heof : eof.kind = .eof)
    (h : K.Single ignores (.shorthandField value)) : WrittenBare (K.tokens ++ [eof]) value := by
  obtain ⟨i, j, covers, hspread, hname⟩ := h
  have hi : i < K.tokens.length := covers.lt.trans_le covers.le
  refine ⟨K.tokens.take i, K.tokenAt i, K.tokens.drop (i + 1) ++ [eof], ?_,
    covers.pos.symm, hspread, fun name hkind => ?_⟩
  · rw [← List.cons_append, ← List.append_assoc, tokenAt_eq hi, ← List.drop_eq_getElem_cons hi,
      List.take_append_drop]
  · have htoken : K.tokenAt i = ⟨.ident name, (K.tokenAt i).span⟩ := by
      rw [← hkind]
    obtain ⟨hcolon, hread⟩ := hname ⟨name, (K.tokenAt i).span⟩ htoken
    refine ⟨fun hhead => hcolon ?_, fun next hfind hnext => ?_⟩
    · have hlt : 0 < (K.tokens.drop (i + 1) ++ [eof]).length := by simp
      rw [List.head?_eq_getElem?, List.getElem?_eq_getElem hlt] at hhead
      exact (getElem_drop heof hlt).symm.trans (Option.some.inj hhead)
    · have hmore : next.kind ≠ .eof := by
        rcases hnext with hnext | hnext <;> rw [hnext] <;> nofun
      obtain ⟨k, hsteps, hk⟩ := steps_of_find heof hmore hfind
      rw [← hk] at hnext
      exact hread k hsteps hnext

end TokenStream

/-- **A field that is written as a name holds this name.** In a text that is read without errors
every field without a label, anywhere in the tree, begins with a token that does not begin another
kind of field. If it is a name with nothing but line breaks up to the comma or the brace behind it,
then the field holds the expression for this name. -/
theorem parse_shorthands {file : FileId} {text : String} {lexed : Lexed} {p : Parsed}
    (hlex : lex file text = .ok lexed) (hparse : parse file lexed.tokens = .ok p)
    (clean : Diagnostic.anyError p.diagnostics = false) :
    ∀ s ∈ p.stmts, s.Forall fun n => ∀ value ∈ n.shorthand?, WrittenBare lexed.tokens value := by
  obtain ⟨K, eof, j, htokens, heof, -, row⟩ := parse_places hlex hparse clean
  intro s hs
  rw [htokens]
  refine (row.lies _ (List.mem_map_of_mem hs)).placed.forall
    fun {around c n} placed value hvalue => ?_
  cases n <;> cases hvalue
  exact placed.single.writtenBare heof

/-- Fields of all kinds, and one that is written over several lines. -/
theorem parse_shorthands_mixed : ∃ lexed p,
    lex ⟨0⟩ "f(Foo \x7b a, b: Bar \x7b c \x7d,\n d\n, ...e \x7d)" = .ok lexed ∧
      parse ⟨0⟩ lexed.tokens = .ok p ∧
      ∀ s ∈ p.stmts, s.Forall fun n => ∀ value ∈ n.shorthand?, WrittenBare lexed.tokens value := by
  obtain ⟨lexed, p, hlex, hparse, clean⟩ :=
    exists_of_readsClean ⟨0⟩ "f(Foo \x7b a, b: Bar \x7b c \x7d,\n d\n, ...e \x7d)"
    (by decide +kernel)
  exact ⟨lexed, p, hlex, hparse, parse_shorthands hlex hparse clean⟩

/-- A field may hold something else: `Foo { 1 }` is read without errors, and its field is a
literal. -/
theorem parse_shorthands_literal : ∃ lexed p, lex ⟨0⟩ "Foo \x7b 1 \x7d" = .ok lexed ∧
    parse ⟨0⟩ lexed.tokens = .ok p ∧ Diagnostic.anyError p.diagnostics = false ∧
    ¬∀ s ∈ p.stmts, s.Forall fun n => ∀ value ∈ n.shorthand?, value.isName = true := by
  obtain ⟨lexed, p, hlex, hparse, test⟩ := exists_of_readsTo (show readsTo ⟨0⟩ "Foo \x7b 1 \x7d"
    (fun _ p => !Diagnostic.anyError p.diagnostics &&
      p.stmts.any fun s => (s.collect Node.shorthand? []).any (!·.isName)) = true by decide +kernel)
  obtain ⟨clean, hany⟩ := Bool.and_eq_true_iff.1 test
  obtain ⟨s, hs, hvalues⟩ := List.any_eq_true.1 hany
  obtain ⟨value, hvalue, hnone⟩ := List.any_eq_true.1 hvalues
  refine ⟨lexed, p, hlex, hparse, by simpa using clean, fun h => ?_⟩
  have hname := Node.forall_collect Node.shorthand? (fun _ hn => hn.root) s (h s hs) value hvalue
  rw [hname] at hnone
  cases hnone

end FrontEnd
