import LoxLex.Scan.Error
import LoxLex.Scan.Event
import LoxLex.Scan.Piece
import LoxLex.Text.Bytes

/-! Scanning: the pieces of a source become tokens and errors, each with the place it ends at.
Errors go to a sink of the caller's choice as they are found. -/

namespace LoxLex

/-- A place in a source: bytes before it, and the line it is on. -/
structure Place where
  offset : Nat
  line : Nat
  deriving DecidableEq

def Place.after (place : Place) (text : List Char) : Place :=
  ⟨place.offset + Text.byteLength text, place.line + Text.lineFeeds text⟩

inductive Finding
  | token (token : Token)
  | error (error : LexError)
  deriving DecidableEq

namespace Piece

/-- A string denotes the text between its quotes and a numeral its number. -/
def literal (kind : Kind) (text : List Char) : Literal :=
  match kind with
  | .string => .text (.ofList text.tail.dropLast)
  | .number => .number ((Binary64.ofNumeral? text).getD .nan)
  | _ => .none

/-- The token or error that a piece is at a place. Both are on the line where the piece ends. -/
def finding? (place : Place) (piece : Piece) : Option Finding :=
  let stop := place.after piece.text
  let mistake fault := some (.error ⟨fault, stop.line, place.offset, Text.byteLength piece.text⟩)
  match piece.category with
  | .token kind =>
    some (.token ⟨kind, .ofList piece.text, literal kind piece.text, stop.line,
      ⟨place.offset, stop.offset⟩⟩)
  | .blank | .comment => none
  | .unexpected => mistake .unexpectedCharacter
  | .unterminated => mistake .unterminatedString

end Piece

/-- How far a scan has come, what it has found and what it has told of it. -/
structure Progress (σ : Type u) where
  place : Place
  tokens : Array Token
  errors : Nat
  sink : σ
  events : Array Event

namespace Progress

def start (sink : σ) (firstLine : Nat) : Progress σ := ⟨⟨0, firstLine⟩, #[], 0, sink, #[]⟩

def record (report : σ → LexError → σ) (progress : Progress σ) (finding : Option Finding)
    (place : Place) : Progress σ :=
  match finding with
  | none => { progress with place }
  | some (.token token) => { progress with place, tokens := progress.tokens.push token }
  | some (.error error) =>
    { progress with
      place
      errors := progress.errors + 1
      sink := report progress.sink error
      events := progress.events.push (.lexicalError error.line error.message) }

def step (report : σ → LexError → σ) (progress : Progress σ) (piece : Piece) : Progress σ :=
  progress.record report (piece.finding? progress.place) (progress.place.after piece.text)

def finish (progress : Progress σ) : Progress σ :=
  let tokens := progress.tokens.push (.eof progress.place.line progress.place.offset)
  let closing := .finished tokens.size progress.errors progress.place.line
  { progress with tokens, events := progress.events.push closing }

end Progress

/-- Scans a source whose first line has the given number, and hands each error to `report`. -/
def scanWith (report : σ → LexError → σ) (sink : σ) (firstLine : Nat) (source : String) : Progress σ :=
  ((Piece.cut source.toList).foldl (Progress.step report) (Progress.start sink firstLine)).finish

/-- The tokens of a source, with the end token last, and its errors. -/
structure Scan where
  tokens : List Token
  errors : List LexError
  deriving DecidableEq

namespace Scan

def hasErrors (scan : Scan) : Bool := !scan.errors.isEmpty

/-- The tokens of a source without mistakes, otherwise the mistakes. -/
def result (scan : Scan) : Except (List LexError) (List Token) :=
  if scan.hasErrors then .error scan.errors else .ok scan.tokens

/-- Equality with literals compared as values. -/
def same (first second : Scan) : Bool :=
  first.tokens.length = second.tokens.length &&
    (first.tokens.zip second.tokens).all (fun (token, other) => token.same other) &&
    first.errors = second.errors

end Scan

def Progress.toScan (progress : Progress (Array LexError)) : Scan :=
  ⟨progress.tokens.toList, progress.sink.toList⟩

def scan (firstLine : Nat) (source : String) : Scan :=
  (scanWith Array.push #[] firstLine source).toScan

/-- Scanning with a fixed number for the first line of every source. Lines count from one. -/
structure Lexer where
  firstLine : Nat := 1
  positive : 0 < firstLine := by decide
  deriving DecidableEq

namespace Lexer

def new : Lexer := {}

/-- Numbers the first line anew; zero counts as one. -/
def withFirstLine (line : Nat) (_ : Lexer) : Lexer := ⟨max line 1, by omega⟩

def lexWith (lexer : Lexer) (report : σ → LexError → σ) (sink : σ) (source : String) : Progress σ :=
  scanWith report sink lexer.firstLine source

def lex (lexer : Lexer) (source : String) : Scan := scan lexer.firstLine source

end Lexer

/-- The scan of a source whose lines count from one. -/
def lex (source : String) : Scan := Lexer.new.lex source

end LoxLex
