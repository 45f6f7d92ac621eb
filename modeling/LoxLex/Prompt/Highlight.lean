import LoxLex.Scan.Basic
import LoxLex.Text.Style

/-! A line at the prompt in the colours of its tokens. What no token covers is dimmed. -/

namespace LoxLex.Prompt
open Text

def paintToken (token : Token) : String :=
  match token.kind with
  | .keyword _ => bold (Colour.blue.paint token.lexeme)
  | .string => Colour.green.paint token.lexeme
  | .number => Colour.yellow.paint token.lexeme
  | .identifier => token.lexeme
  | .symbol _ | .eof => Colour.cyan.paint token.lexeme

def paintGap (gap : List Char) : String :=
  if gap.isEmpty then "" else Colour.brightBlack.paint (.ofList gap)

/-- The rest of a line from byte `start` on, with the tokens that follow there. Tokens that do not
begin and end between characters of the line have no picture. -/
def paintFrom? (start : Nat) (rest : List Char) : List Token → Option (List String)
  | [] => some [paintGap rest]
  | token :: tokens => do
    let (gap, rest) ← splitAt? (token.span.start - start) rest
    let (_, rest) ← splitAt? (token.span.stop - token.span.start) rest
    return paintGap gap :: paintToken token :: (← paintFrom? token.span.stop rest tokens)

def highlight? (line : String) : Option String :=
  (paintFrom? 0 line.toList ((lex line).tokens.filter (·.kind ≠ .eof))).map String.join

/-- The text that asks for a line. Any other than the usual one stays as it is. -/
def highlightPrompt (prompt : String) : String :=
  if prompt = "> " then bold (Colour.brightGreen.paint ">") ++ " " else prompt

def highlightHint (hint : String) : String := Colour.brightBlack.paint hint

end LoxLex.Prompt
