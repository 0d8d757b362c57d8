import FrontEnd.Grammar.State

/-!
# Nonterminals

The parts of the grammar that contain each other are nonterminals. The parser of a nonterminal
is given the parsers of all nonterminals, and calls one only after it has consumed a token. So
a bound on the number of remaining tokens also bounds the depth of the recursion and the rounds
of every loop, and all parsers are given such a bound.
-/

namespace FrontEnd

/-- The parts of the grammar that refer to each other, with the category of their result. -/
inductive Nonterminal : Category → Type where
  /-- An expression, assignments included. -/
  | expr : Nonterminal .expr
  /-- A chain of powers, which group to the right. -/
  | power : Nonterminal .expr
  /-- An operand with the operators in front of it. -/
  | operand : Nonterminal .expr
  /-- A condition with its branches. -/
  | cond : Nonterminal .expr
  /-- A type. -/
  | type : Nonterminal .type
  /-- Statements up to a closing brace. -/
  | stmts : Nonterminal (.many .stmt)
  /-- Members up to a closing brace; `init` is admitted only in a class. -/
  | members (inClass : Bool) : Nonterminal (.many .item)

/-- The parsers of all nonterminals. -/
abbrev Grammar := {c : Category} → Nonterminal c → Parser (Node c)

namespace Parse

/-- A block of statements between braces. -/
def block (g : Grammar) : Parser Block := do
  let start ← expectSymbol .lBrace
  openGroup false
  let stmts ← g .stmts
  closeStrict .rBrace
  return .block ⟨← freshId, ← spanFrom start⟩ stmts

end Parse

end FrontEnd
