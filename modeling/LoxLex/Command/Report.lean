import LoxLex.Json.Token
import LoxLex.Scan.Diagnostic
import LoxLex.Text.Style

/-! What the command writes for one source: its tokens on one channel, its errors on the other. A log,
where one is kept, goes to the channel of the errors. -/

namespace LoxLex.Command
open Text

structure Reply where
  output : String := ""
  errors : String := ""
  deriving DecidableEq

namespace Reply

instance : Append Reply := ⟨fun first second =>
  ⟨first.output ++ second.output, first.errors ++ second.errors⟩⟩

def join (replies : List Reply) : Reply := replies.foldl (· ++ ·) {}

def line (text : String) : Reply := { output := text ++ "\n" }

def failure (heading text : String) : Reply :=
  { errors := bold (Colour.red.paint heading) ++ " " ++ text ++ "\n" }

end Reply

structure Format where
  json : Bool := false
  fancy : Bool := false
  quiet : Bool := false
  deriving DecidableEq

/-- The line of source that an error begins on, with its extent there marked underneath. The frame and the
line numbers that a renderer draws around it are left out. -/
def excerpt (source : List Char) (offset length : Nat) : String :=
  match splitAt? offset source with
  | none => ""
  | some (before, after) =>
    let lead := (before.reverse.takeWhile (· ≠ '\n')).reverse
    let rest := after.takeWhile (· ≠ '\n')
    let extent := ((splitAt? (min length (byteLength rest)) rest).elim rest Prod.fst).length
    .ofList (lead ++ rest ++ '\n' :: List.replicate lead.length ' ' ++
      List.replicate (max extent 1) '^')

/-- An error with the source around it. It has the parts that a renderer shows, in a plain layout of its
own: the text as such is an approximation. -/
def annotate (source : List Char) (error : LexError) : String :=
  let advice := error.fault.help?.elim "" fun help => "help: " ++ help ++ "\n"
  error.fault.code ++ "\n" ++ error.report ++ "\n" ++
    excerpt source error.offset error.length ++ " " ++ error.fault.label ++ "\n" ++ advice

/-- The entries written for errors, and whether there were any. -/
structure ErrorLog where
  entries : List String := []
  failed : Bool := false
  deriving DecidableEq

def ErrorLog.add (format : Format) (source : String) (log : ErrorLog) (error : LexError) : ErrorLog :=
  let entry :=
    if format.fancy then annotate source.toList error else Colour.red.paint error.report
  ⟨log.entries ++ [entry ++ "\n"], true⟩

/-- Keeps a log: what is written when it starts, and what for an event of a scan. -/
structure Log (m : Type → Type u) where
  opening : m String
  note : Event → m String

/-- The log of a command that is asked for none. -/
def Log.silent [Monad m] : Log m := ⟨pure "", fun _ => pure ""⟩

/-- Notes and entries by turns, a note before its entry. -/
def interleave : List String → List String → String
  | note :: notes, entry :: entries => note ++ entry ++ interleave notes entries
  | notes, [] => .join notes
  | [], entries => .join entries

def listTokens (json : Bool) (tokens : List Token) : String :=
  if json then (Json.ofTokens tokens).toPretty ++ "\n"
  else String.join (tokens.map fun token => token.listing ++ "\n")

/-- What is written for a source, and whether it has errors. An error is an event of the scan before it is
reported, and the last event closes the scan. -/
def scanReply [Monad m] (log : Log m) (format : Format) (source : String) : m (Reply × Bool) := do
  let done := Lexer.new.lexWith (ErrorLog.add format source) {} source
  let notes ← done.events.toList.mapM log.note
  let output := if format.quiet then "" else listTokens format.json done.tokens.toList
  return (⟨output, interleave notes done.sink.entries⟩, done.sink.failed)

end LoxLex.Command
