import LoxLex.Scan.Basic
import LoxLex.Text.Cursor

/-! The scan as a walk of a cursor over the bytes of a source. Every lexeme is a slice, and a slice
that would cut a character ends the walk without a result. -/

namespace LoxLex.Bytewise
open Text

/-- A byte as a character. Only the ASCII ones are in a class of the language. -/
def toChar (byte : UInt8) : Char := .ofNat byte.toNat

def token? (kind : Kind) (literal : Literal) (start : Nat) (cursor : Cursor) :
    Option (Option Finding) := do
  let lexeme ← cursor.sliceFrom? start
  return some (.token ⟨kind, lexeme, literal, cursor.line, ⟨start, cursor.pos⟩⟩)

def error (fault : Fault) (start : Nat) (cursor : Cursor) : Finding :=
  .error ⟨fault, cursor.line, start, cursor.pos - start⟩

/-- Moves behind a string whose quote has been read, and tells whether it is closed. -/
def passString (cursor : Cursor) : Bool × Cursor := (cursor.advanceWhile (· ≠ 0x22)).matchByte 0x22

/-- A string's value is its slice behind the first quote, less the last byte. -/
def stringValue? (start : Nat) (cursor : Cursor) : Option String := do
  let value ← cursor.sliceFrom? (start + 1)
  let inner ← slice? 0 (value.utf8ByteSize - 1) value.toList
  return .ofList inner

def passNumber (cursor : Cursor) : Cursor :=
  let isDigit byte := (toChar byte).isDigit
  let cursor := cursor.advanceWhile isDigit
  if cursor.peek = some 0x2E && cursor.peekNext.any isDigit then
    cursor.advance.2.advanceWhile isDigit
  else cursor

def passSymbol (symbol : Symbol) (cursor : Cursor) : Symbol × Cursor :=
  match symbol.withEqual? with
  | none => (symbol, cursor)
  | some longer =>
    let (longerHere, cursor) := cursor.matchByte 0x3D
    (if longerHere then longer else symbol, cursor)

/-- What the first byte read at `start` begins, and the cursor behind it. -/
def continue? (start : Nat) (byte : UInt8) (cursor : Cursor) : Option (Option Finding) × Cursor :=
  let char := toChar byte
  if isLayout char then (some none, cursor)
  else if byte = 0x2F ∧ cursor.peek = some 0x2F then (some none, cursor.advanceWhile (· ≠ 0x0A))
  else match Symbol.ofChar? char with
  | some symbol =>
    let (symbol, cursor) := passSymbol symbol cursor
    (token? (.symbol symbol) .none start cursor, cursor)
  | none =>
    if byte = 0x22 then
      match passString cursor with
      | (false, cursor) => (some (error .unterminatedString start cursor), cursor)
      | (true, cursor) =>
        (do token? .string (.text (← stringValue? start cursor)) start cursor, cursor)
    else if char.isDigit then
      let cursor := passNumber cursor
      (do let lexeme ← cursor.sliceFrom? start
          let value := (Binary64.ofNumeral? lexeme.toList).getD .nan
          token? .number (.number value) start cursor, cursor)
    else if isWordStart char then
      let cursor := cursor.advanceWhile fun byte => isWordChar (toChar byte)
      (do token? (.ofWord (← cursor.sliceFrom? start)) .none start cursor, cursor)
    else
      let cursor := if byte < 0x80 then cursor else cursor.skipContinuation
      (some (error .unexpectedCharacter start cursor), cursor)

private theorem passString_follows (cursor : Cursor) : cursor.Follows (passString cursor).2 :=
  (Cursor.Follows.advanceWhile _ cursor).trans (.matchByte ..)

private theorem passNumber_follows (cursor : Cursor) : cursor.Follows (passNumber cursor) := by
  have first := Cursor.Follows.advanceWhile (fun byte => (toChar byte).isDigit) cursor
  unfold passNumber
  dsimp only
  split
  · exact first.trans ((Cursor.Follows.advance _).trans (.advanceWhile ..))
  · exact first

private theorem passSymbol_follows (symbol : Symbol) (cursor : Cursor) :
    cursor.Follows (passSymbol symbol cursor).2 := by
  unfold passSymbol
  split
  · exact .refl _
  · exact .matchByte ..

/-- Whatever begins at a byte, the cursor stays on the source and does not move back. -/
theorem continue?_follows (start : Nat) (byte : UInt8) (cursor : Cursor) :
    cursor.Follows (continue? start byte cursor).2 := by
  unfold continue?
  dsimp only
  split
  · exact .refl _
  split
  · exact .advanceWhile ..
  split
  · exact passSymbol_follows ..
  split
  · have passed := passString_follows cursor
    split <;> simp_all
  split
  · exact passNumber_follows _
  split
  · exact .advanceWhile ..
  split
  · exact .refl _
  · exact .advanceWhile ..

theorem follows_of_continue? {start : Nat} {byte : UInt8} {cursor later : Cursor}
    {finding : Option (Option Finding)} (found : continue? start byte cursor = (finding, later)) :
    cursor.Follows later := by
  have follows := continue?_follows start byte cursor
  rwa [found] at follows

def walk? (report : σ → LexError → σ) (progress : Progress σ) (cursor : Cursor) :
    Option (Progress σ) :=
  match found : cursor.peek with
  | none => some progress
  | some byte =>
    match after : continue? cursor.pos byte (cursor.step byte) with
    | (none, _) => none
    | (some finding, later) =>
      have := Cursor.lt_of_peek found
      have := follows_of_continue? after
      walk? report (progress.record report finding ⟨later.pos, later.line⟩) later
termination_by cursor.source.utf8ByteSize - cursor.pos
decreasing_by
  rename_i inside
  have same : later.source = cursor.source := this.source
  have moved : cursor.pos + 1 ≤ later.pos := this.pos
  rw [same]
  omega

def scanWith? (report : σ → LexError → σ) (sink : σ) (firstLine : Nat) (source : String) :
    Option (Progress σ) :=
  (walk? report (.start sink firstLine) (.start source firstLine)).map Progress.finish

def scan? (firstLine : Nat) (source : String) : Option Scan :=
  (scanWith? Array.push #[] firstLine source).map Progress.toScan

end LoxLex.Bytewise
