import FrontEnd.Dump.Visible

/-!
# Dumps

A dump shows the structure of a value. It is built from atoms, records, tuples and lists, and
written in two ways: on one line, or with each part on a line of its own, indented by four
blanks a level and followed by a comma.
-/

namespace FrontEnd

/-- The structure of a value, ready to be written. -/
inductive Dump where
  /-- A text that is written as it is: a number, a bare name or a quoted string. -/
  | atom (text : String)
  /-- A name with labelled fields, at least one. -/
  | record (name : String) (fields : List (String × Dump))
  /-- A name, possibly empty, with parts that have no labels, at least one. -/
  | tuple (name : String) (parts : List Dump)
  /-- A sequence. -/
  | list (items : List Dump)
deriving Inhabited

namespace Dump

/-- How a character stands inside quotes. -/
def quoteChar (c : Char) : String :=
  match c with
  | '\x00' => "\\0"
  | '\t' => "\\t"
  | '\r' => "\\r"
  | '\n' => "\\n"
  | '"' => "\\\""
  | '\\' => "\\\\"
  | c => if isVisible c then c.toString
    else "\\u\x7b" ++ String.ofList (Nat.toDigits 16 c.toNat) ++ "\x7d"

/-- A string between double quotes. -/
def quote (s : String) : String := "\"" ++ String.join (s.toList.map quoteChar) ++ "\""

/-- A quoted string. -/
def string (s : String) : Dump := atom (quote s)

/-- A number in decimal. -/
def nat (n : Nat) : Dump := atom (toString n)

/-- A truth value. -/
def bool (b : Bool) : Dump := atom (if b then "true" else "false")

/-- A value that may be missing. -/
def option : Option Dump → Dump
  | some d => tuple "Some" [d]
  | none => atom "None"

mutual

/-- The dump on one line. -/
def inline : Dump → String
  | atom text => text
  | record name fields => name ++ " \x7b " ++ ", ".intercalate (inlineFields fields) ++ " \x7d"
  | tuple name parts => name ++ "(" ++ ", ".intercalate (inlineAll parts) ++ ")"
  | list items => "[" ++ ", ".intercalate (inlineAll items) ++ "]"

/-- The parts of a dump, each on one line. -/
def inlineAll : List Dump → List String
  | [] => []
  | d :: ds => d.inline :: inlineAll ds

/-- The fields of a record, each on one line. -/
def inlineFields : List (String × Dump) → List String
  | [] => []
  | (label, d) :: rest => (label ++ ": " ++ d.inline) :: inlineFields rest

end

/-- The blanks in front of a part at some depth. -/
def margin (depth : Nat) : String := "".pushn ' ' (4 * depth)

mutual

/-- The dump over several lines; `depth` is the depth of the line it starts on. -/
def blockAt (depth : Nat) : Dump → String
  | atom text => text
  | record name fields =>
    name ++ " \x7b\n" ++ blockFields (depth + 1) fields ++ margin depth ++ "\x7d"
  | tuple name parts => name ++ "(\n" ++ blockAll (depth + 1) parts ++ margin depth ++ ")"
  | list [] => "[]"
  | list (d :: ds) =>
    "[\n" ++ margin (depth + 1) ++ d.blockAt (depth + 1) ++ ",\n" ++ blockAll (depth + 1) ds
      ++ margin depth ++ "]"

/-- The parts of a dump, each from a line of its own on. -/
def blockAll (depth : Nat) : List Dump → String
  | [] => ""
  | d :: ds => margin depth ++ d.blockAt depth ++ ",\n" ++ blockAll depth ds

/-- The fields of a record, each from a line of its own on. -/
def blockFields (depth : Nat) : List (String × Dump) → String
  | [] => ""
  | (label, d) :: rest =>
    margin depth ++ label ++ ": " ++ d.blockAt depth ++ ",\n" ++ blockFields depth rest

end

/-- The dump over several lines. -/
def block (d : Dump) : String := d.blockAt 0

end Dump

end FrontEnd
