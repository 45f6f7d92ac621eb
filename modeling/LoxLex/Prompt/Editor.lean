import LoxLex.Prompt.Highlight
import LoxLex.Prompt.Hint
import LoxLex.Text.Blank

/-! What a line editor asks for while a line is typed. Commands are neither hinted nor coloured. -/

namespace LoxLex.Prompt.Editor

def isCommand (line : String) : Bool := (Text.trimStart line.toList).head? = some '.'

def complete? (line : String) (pos : Nat) : Option Completion := completeAt? line pos

def hint? (line : String) (pos : Nat) : Option String :=
  if isCommand line then none else hintAt? line pos

def highlight? (line : String) : Option String :=
  if isCommand line then some line else Prompt.highlight? line

/-- Every key may change colours anywhere in a line, so each one redraws it. -/
def redraws (_line : String) (_pos : Nat) : Bool := true

end LoxLex.Prompt.Editor
