import LoxLex.Token.Basic

/-! What can be wrong with a source. A mistake never ends a scan. -/

namespace LoxLex

inductive Fault
  | unexpectedCharacter
  | unterminatedString
  deriving DecidableEq

def Fault.message : Fault → String
  | .unexpectedCharacter => "Unexpected character."
  | .unterminatedString => "Unterminated string."

structure LexError where
  fault : Fault
  /-- The line on which the stretch at fault ends. -/
  line : Nat
  offset : Nat
  length : Nat
  deriving DecidableEq

namespace LexError

def message (error : LexError) : String := error.fault.message

def report (error : LexError) : String := s!"[line {error.line}] Error: {error.message}"

end LexError

end LoxLex
