/-! The log that a scan keeps of itself. -/

namespace LoxLex

inductive Event
  | lexicalError (line : Nat) (message : String)
  /-- The scan is over; the counts include the token at the end, and the line is the last one. -/
  | finished (tokens errors lines : Nat)
  deriving DecidableEq

namespace Event

inductive Level
  | trace
  | debug
  deriving DecidableEq

def Level.name : Level → String
  | .trace => "TRACE"
  | .debug => "DEBUG"

def level : Event → Level
  | lexicalError .. => .trace
  | finished .. => .debug

def fields : Event → List (String × String)
  | lexicalError line message =>
    [("err", message), ("line", toString line), ("message", "lexical error")]
  | finished tokens errors lines =>
    [("errors", toString errors), ("lines", toString lines), ("message", "scan finished"),
      ("tokens", toString tokens)]

end Event

end LoxLex
