/-!
# Operators and punctuation

The symbols of the language with their spellings. The table of symbols lists longer spellings
before shorter ones, so the first symbol that begins a text is also the longest.
-/

namespace FrontEnd

/-- The operators and punctuation marks. -/
inductive Symbol where
  | assign
  | addAssign
  | subAssign
  | mulAssign
  | divAssign
  | modAssign
  | powerAssign
  | shlAssign
  | shrAssign
  | bitAndAssign
  | bitOrAssign
  | xorAssign
  | nullishAssign
  | add
  | sub
  | mul
  | div
  | mod
  | power
  | inc
  | dec
  | or
  | and
  | not
  | bitOr
  | xor
  | ampersand
  | inv
  | shl
  | shr
  | eq
  | notEq
  | refEq
  | refNotEq
  | lAngle
  | rAngle
  | le
  | ge
  | spaceship
  | notIs
  | notIn
  | range
  | rangeRightOpen
  | rangeInclusive
  | rangeLeftOpen
  | rangeOpen
  | spread
  | nullCoalesce
  | safeCall
  | quest
  | pipe
  | dot
  | path
  | colon
  | semi
  | comma
  | arrow
  | doubleArrow
  | at_
  | dollar
  | lParen
  | rParen
  | lBracket
  | rBracket
  | lBrace
  | rBrace
deriving DecidableEq, Inhabited

namespace Symbol

/-- How the symbol is written. -/
def spelling : Symbol → String
  | assign => "="
  | addAssign => "+="
  | subAssign => "-="
  | mulAssign => "*="
  | divAssign => "/="
  | modAssign => "%="
  | powerAssign => "**="
  | shlAssign => "<<="
  | shrAssign => ">>="
  | bitAndAssign => "&="
  | bitOrAssign => "|="
  | xorAssign => "^="
  | nullishAssign => "??="
  | add => "+"
  | sub => "-"
  | mul => "*"
  | div => "/"
  | mod => "%"
  | power => "**"
  | inc => "++"
  | dec => "--"
  | or => "||"
  | and => "&&"
  | not => "!"
  | bitOr => "|"
  | xor => "^"
  | ampersand => "&"
  | inv => "~"
  | shl => "<<"
  | shr => ">>"
  | eq => "=="
  | notEq => "!="
  | refEq => "==="
  | refNotEq => "!=="
  | lAngle => "<"
  | rAngle => ">"
  | le => "<="
  | ge => ">="
  | spaceship => "<=>"
  | notIs => "!is"
  | notIn => "!in"
  | range => ".."
  | rangeRightOpen => "..<"
  | rangeInclusive => "..="
  | rangeLeftOpen => ">.."
  | rangeOpen => ">.<"
  | spread => "..."
  | nullCoalesce => "??"
  | safeCall => "?."
  | quest => "?"
  | pipe => "|>"
  | dot => "."
  | path => "::"
  | colon => ":"
  | semi => ";"
  | comma => ","
  | arrow => "->"
  | doubleArrow => "=>"
  | at_ => "@"
  | dollar => "$"
  | lParen => "("
  | rParen => ")"
  | lBracket => "["
  | rBracket => "]"
  | lBrace => "\x7b"
  | rBrace => "\x7d"

/-- The label of the symbol in token dumps. -/
def label : Symbol → String
  | assign => "Assign"
  | addAssign => "AddAssign"
  | subAssign => "SubAssign"
  | mulAssign => "MulAssign"
  | divAssign => "DivAssign"
  | modAssign => "ModAssign"
  | powerAssign => "PowerAssign"
  | shlAssign => "ShlAssign"
  | shrAssign => "ShrAssign"
  | bitAndAssign => "BitAndAssign"
  | bitOrAssign => "BitOrAssign"
  | xorAssign => "XorAssign"
  | nullishAssign => "NullishAssign"
  | add => "Add"
  | sub => "Sub"
  | mul => "Mul"
  | div => "Div"
  | mod => "Mod"
  | power => "Power"
  | inc => "Inc"
  | dec => "Dec"
  | or => "Or"
  | and => "And"
  | not => "Not"
  | bitOr => "BitOr"
  | xor => "Xor"
  | ampersand => "Ampersand"
  | inv => "Inv"
  | shl => "Shl"
  | shr => "Shr"
  | eq => "Eq"
  | notEq => "NotEq"
  | refEq => "RefEq"
  | refNotEq => "RefNotEq"
  | lAngle => "LAngle"
  | rAngle => "RAngle"
  | le => "LE"
  | ge => "GE"
  | spaceship => "Spaceship"
  | notIs => "NotIs"
  | notIn => "NotIn"
  | range => "Range"
  | rangeRightOpen => "RangeRE"
  | rangeInclusive => "RangeInc"
  | rangeLeftOpen => "RangeLE"
  | rangeOpen => "RangeBothE"
  | spread => "Spread"
  | nullCoalesce => "NullCoalesce"
  | safeCall => "SafeCall"
  | quest => "Quest"
  | pipe => "Pipe"
  | dot => "Dot"
  | path => "Path"
  | colon => "Colon"
  | semi => "Semi"
  | comma => "Comma"
  | arrow => "Arrow"
  | doubleArrow => "DoubleArrow"
  | at_ => "At"
  | dollar => "Dollar"
  | lParen => "LParen"
  | rParen => "RParen"
  | lBracket => "LBracket"
  | rBracket => "RBracket"
  | lBrace => "LBrace"
  | rBrace => "RBrace"

/-- All symbols, those with longer spellings first. -/
def table : List Symbol :=
  [powerAssign, shlAssign, shrAssign, nullishAssign, refEq, refNotEq, spaceship, notIs, notIn,
    rangeRightOpen, rangeInclusive, rangeLeftOpen, rangeOpen, spread,
    addAssign, subAssign, mulAssign, divAssign, modAssign, bitAndAssign, bitOrAssign, xorAssign,
    power, inc, dec, or, and, shl, shr, eq, notEq, le, ge, range, nullCoalesce, safeCall, pipe,
    path, arrow, doubleArrow,
    assign, add, sub, mul, div, mod, not, bitOr, xor, ampersand, inv, lAngle, rAngle, quest, dot,
    colon, semi, comma, at_, dollar, lParen, rParen, lBracket, rBracket, lBrace, rBrace]

/-- The table is complete. -/
theorem mem_table (s : Symbol) : s ∈ table := by
  cases s <;> decide

/-- The table goes from longer spellings to shorter ones. -/
theorem table_longest_first :
    table.Pairwise fun a b => b.spelling.length ≤ a.spelling.length := by
  decide

/-- The compound and the plain assignment operators. -/
def isAssignment : Symbol → Bool
  | assign | addAssign | subAssign | mulAssign | divAssign | modAssign | powerAssign | shlAssign
  | shrAssign | bitAndAssign | bitOrAssign | xorAssign | nullishAssign => true
  | _ => false

end Symbol

end FrontEnd
