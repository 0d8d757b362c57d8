/-!
# JSON text

The values that reports are made of and their text, indented by two blanks a level.
-/

namespace FrontEnd

/-- JSON values; all numbers are natural. -/
inductive Json where
  | string (text : String)
  | number (n : Nat)
  | bool (b : Bool)
  | list (items : List Json)
  | object (fields : List (String × Json))
deriving Inhabited

namespace Json

/-- How a character stands inside a JSON string: quotes, backslashes and controls are escaped. -/
def escape (c : Char) : String :=
  match c with
  | '"' => "\\\""
  | '\\' => "\\\\"
  | '\n' => "\\n"
  | '\r' => "\\r"
  | '\t' => "\\t"
  | '\x08' => "\\b"
  | '\x0c' => "\\f"
  | c =>
    if c.toNat < 32 then
      "\\u00" ++ (if c.toNat < 16 then "0" else "") ++ String.ofList (Nat.toDigits 16 c.toNat)
    else c.toString

/-- A JSON string. -/
def quote (s : String) : String := "\"" ++ String.join (s.toList.map escape) ++ "\""

/-- The start of a line at some depth. -/
def newline (depth : Nat) : String := "\n" ++ "".pushn ' ' (2 * depth)

mutual

/-- The text of a value; `depth` is the depth of the line it starts on. -/
def textAt (depth : Nat) : Json → String
  | string s => quote s
  | number n => toString n
  | bool b => if b then "true" else "false"
  | list [] => "[]"
  | list (x :: xs) =>
    "[" ++ newline (depth + 1) ++ x.textAt (depth + 1) ++ moreItems (depth + 1) xs
      ++ newline depth ++ "]"
  | object [] => "\x7b\x7d"
  | object ((key, x) :: fields) =>
    "\x7b" ++ newline (depth + 1) ++ quote key ++ ": " ++ x.textAt (depth + 1)
      ++ moreFields (depth + 1) fields ++ newline depth ++ "\x7d"

/-- The items after the first one. -/
def moreItems (depth : Nat) : List Json → String
  | [] => ""
  | x :: xs => "," ++ newline depth ++ x.textAt depth ++ moreItems depth xs

/-- The fields after the first one. -/
def moreFields (depth : Nat) : List (String × Json) → String
  | [] => ""
  | (key, x) :: fields =>
    "," ++ newline depth ++ quote key ++ ": " ++ x.textAt depth ++ moreFields depth fields

end

/-- The text of a value. -/
def text (j : Json) : String := j.textAt 0

end Json

end FrontEnd
