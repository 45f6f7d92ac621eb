import LoxLex.Number.Notation
import LoxLex.Token.Kind

/-! Tokens: a kind, the text it was read from with its value, and where that text ends and lies. -/

namespace LoxLex

/-- Byte offsets of a stretch of source. Those of a scan have `start ≤ stop`. -/
structure Span where
  start : Nat
  stop : Nat
  deriving DecidableEq

def Span.isEmpty (span : Span) : Bool := span.start = span.stop

inductive Literal
  | none
  | text (value : String)
  | number (value : Binary64)
  deriving DecidableEq

namespace Literal

def isNone : Literal → Bool
  | none => true
  | _ => false

def listing : Literal → String
  | none => "nil"
  | text value => value
  | number value => value.toListing

def same : Literal → Literal → Bool
  | none, none => true
  | text first, text second => first = second
  | number first, number second => first.same second
  | _, _ => false

end Literal

structure Token where
  kind : Kind
  lexeme : String
  literal : Literal
  /-- The line of the token's last character. -/
  line : Nat
  span : Span
  deriving DecidableEq

namespace Token

def eof (line offset : Nat) : Token := ⟨.eof, "", .none, line, ⟨offset, offset⟩⟩

def listing (token : Token) : String :=
  token.kind.name ++ " " ++ token.lexeme ++ " " ++ token.literal.listing

/-- Equality with literals compared as values. -/
def same (first second : Token) : Bool :=
  first.kind = second.kind && first.lexeme = second.lexeme && first.literal.same second.literal &&
    first.line = second.line && first.span = second.span

end Token

end LoxLex
