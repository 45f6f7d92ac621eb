/-! Terminal styles, written as the escape sequences that select and undo them. -/

namespace LoxLex.Text

inductive Colour
  | red | green | yellow | blue | cyan | brightBlack | brightGreen | brightBlue | brightCyan
  deriving DecidableEq

def Colour.code : Colour → Nat
  | .red => 31
  | .green => 32
  | .yellow => 33
  | .blue => 34
  | .cyan => 36
  | .brightBlack => 90
  | .brightGreen => 92
  | .brightBlue => 94
  | .brightCyan => 96

def select (code : Nat) : String := s!"\x1b[{code}m"

/-- Text in a colour; attribute 39 goes back to the terminal's own. -/
def Colour.paint (colour : Colour) (text : String) : String :=
  select colour.code ++ text ++ select 39

/-- Text in bold; attribute 0 undoes every style. -/
def bold (text : String) : String := select 1 ++ text ++ select 0

end LoxLex.Text
