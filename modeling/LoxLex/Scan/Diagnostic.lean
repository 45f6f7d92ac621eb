import LoxLex.Scan.Basic

/-! Errors as a reader of diagnostics sees them: a text, a code to look up, advice, and labels on
the source. -/

namespace LoxLex

structure Label where
  text : String
  offset : Nat
  length : Nat
  deriving DecidableEq

structure Diagnostic where
  display : String
  code : Option String := none
  help : Option String := none
  labels : Option (List Label) := none
  /-- What a summary stands for. -/
  related : Option (List Diagnostic) := none

def Fault.code : Fault → String
  | .unexpectedCharacter => "lox::unexpected_character"
  | .unterminatedString => "lox::unterminated_string"

def Fault.help? : Fault → Option String
  | .unexpectedCharacter => none
  | .unterminatedString => some "add a closing '\"' to end the string"

def Fault.label : Fault → String
  | .unexpectedCharacter => "not valid here"
  | .unterminatedString => "string starts here"

namespace Diagnostic

def ofError (error : LexError) : Diagnostic where
  display := error.message
  code := some error.fault.code
  help := error.fault.help?
  labels := some [⟨error.fault.label, error.offset, error.length⟩]

def ofErrors (errors : List LexError) : Diagnostic where
  display := s!"scanning failed with {errors.length} error(s)"
  related := some (errors.map ofError)

end Diagnostic

inductive Failure
  | lexical (errors : List LexError)
  | unreadable (path : String) (cause : String)
  | session (message : String)
  deriving DecidableEq

namespace Failure

def diagnostic : Failure → Diagnostic
  | lexical errors => .ofErrors errors
  | unreadable path _ => { display := s!"could not read '{path}'", code := some "lox::io" }
  | session message => { display := s!"failed to initialize REPL: {message}" }

def display (failure : Failure) : String := failure.diagnostic.display

def cause? : Failure → Option String
  | unreadable _ cause => some cause
  | _ => none

end Failure

end LoxLex
