/-!
# Keywords

The reserved words of the language. Every keyword but the safe cast is a plain word, and a
plain word is recognised by its spelling alone.
-/

namespace FrontEnd

/-- The reserved words. -/
inductive Keyword where
  | as_
  /-- The safe cast `as?`, the only keyword that is not a plain word. -/
  | asSafe
  | break_
  | catch_
  | class_
  | const
  | continue_
  | elif
  | else_
  | enum
  | false_
  | for_
  | func
  | if_
  | impl
  | in_
  | infix_
  | init
  | is
  | loop
  | move
  | mut_
  | object
  | pri
  | pub
  | return_
  | static
  | struct
  | super
  | this_
  | throw
  | trait
  | true_
  | try_
  | type
  | val
  | var
  | when
  | while_
deriving DecidableEq, Inhabited

namespace Keyword

/-- How the keyword is written. -/
def spelling : Keyword → String
  | as_ => "as"
  | asSafe => "as?"
  | break_ => "break"
  | catch_ => "catch"
  | class_ => "class"
  | const => "const"
  | continue_ => "continue"
  | elif => "elif"
  | else_ => "else"
  | enum => "enum"
  | false_ => "false"
  | for_ => "for"
  | func => "func"
  | if_ => "if"
  | impl => "impl"
  | in_ => "in"
  | infix_ => "infix"
  | init => "init"
  | is => "is"
  | loop => "loop"
  | move => "move"
  | mut_ => "mut"
  | object => "object"
  | pri => "pri"
  | pub => "pub"
  | return_ => "return"
  | static => "static"
  | struct => "struct"
  | super => "super"
  | this_ => "this"
  | throw => "throw"
  | trait => "trait"
  | true_ => "true"
  | try_ => "try"
  | type => "type"
  | val => "val"
  | var => "var"
  | when => "when"
  | while_ => "while"

/-- The keywords that are plain words. -/
def words : List Keyword :=
  [as_, break_, catch_, class_, const, continue_, elif, else_, enum, false_, for_, func, if_,
    impl, in_, infix_, init, is, loop, move, mut_, object, pri, pub, return_, static, struct,
    super, this_, throw, trait, true_, try_, type, val, var, when, while_]

/-- The keyword a word spells, if it spells one. -/
def ofWord? (word : String) : Option Keyword := words.find? (·.spelling = word)

/-- A word that names a keyword is the spelling of that keyword. -/
theorem spelling_of_ofWord? {word : String} {k : Keyword} (h : ofWord? word = some k) :
    k.spelling = word := by
  simpa using List.find?_some h

/-- The label of the keyword in token dumps: its spelling with a capital letter. -/
def label : Keyword → String
  | asSafe => "AsQM"
  | k => k.spelling.capitalize

end Keyword

end FrontEnd
