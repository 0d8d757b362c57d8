/-!
# Text styles of terminals

Styled text stands between two escape sequences: one that lists the codes of the style, and one
that ends it. Without colours text stays as it is.
-/

namespace FrontEnd

/-- A style, by its codes. -/
structure Style where
  /-- The codes in the order in which they are written. -/
  codes : List Nat
deriving DecidableEq, Inhabited

namespace Style

/-- Bold text. -/
def bold : Style := ⟨[1]⟩

/-- Dimmed text. -/
def dimmed : Style := ⟨[2]⟩

/-- Green text. -/
def green : Style := ⟨[32]⟩

/-- Blue text. -/
def blue : Style := ⟨[34]⟩

/-- Cyan text. -/
def cyan : Style := ⟨[36]⟩

/-- Bold red text. -/
def boldRed : Style := ⟨[1, 31]⟩

/-- Bold green text. -/
def boldGreen : Style := ⟨[1, 32]⟩

/-- Bold yellow text. -/
def boldYellow : Style := ⟨[1, 33]⟩

/-- Bold blue text. -/
def boldBlue : Style := ⟨[1, 34]⟩

/-- Bold cyan text. -/
def boldCyan : Style := ⟨[1, 36]⟩

/-- Text in a style, or as it is without colours. -/
def paint (style : Style) (color : Bool) (text : String) : String :=
  if color then
    "\x1b[" ++ ";".intercalate (style.codes.map toString) ++ "m" ++ text ++ "\x1b[0m"
  else text

end Style

end FrontEnd
