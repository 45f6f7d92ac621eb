import LoxLex.Scan.Bytewise

/-! The walk with its lines counted in a machine word: behind the greatest line comes line zero. All else is
as in the walk whose lines have no bound. -/

namespace LoxLex
open Text

def wrapLine (line : Nat) : Nat := line % UInt64.size

def Token.wrapped (token : Token) : Token := { token with line := wrapLine token.line }

def LexError.wrapped (error : LexError) : LexError := { error with line := wrapLine error.line }

def Finding.wrapped : Finding → Finding
  | token found => token found.wrapped
  | error found => error found.wrapped

def Scan.wrapped (scan : Scan) : Scan := ⟨scan.tokens.map .wrapped, scan.errors.map .wrapped⟩

def Place.wrapped (place : Place) : Place := { place with line := wrapLine place.line }

def Text.Cursor.wrapped (cursor : Cursor) : Cursor := { cursor with line := wrapLine cursor.line }

namespace Bytewise

/-- As `walk?`. The line wraps behind each piece, and for what is found there. -/
def walkWrapped? (report : σ → LexError → σ) (progress : Progress σ) (cursor : Cursor) :
    Option (Progress σ) :=
  match found : cursor.peek with
  | none => some progress
  | some byte =>
    match after : continue? cursor.pos byte (cursor.step byte) with
    | (none, _) => none
    | (some finding, later) =>
      have := Cursor.lt_of_peek found
      have := follows_of_continue? after
      let place := ⟨later.pos, wrapLine later.line⟩
      walkWrapped? report (progress.record report (finding.map .wrapped) place) later.wrapped
termination_by cursor.source.utf8ByteSize - cursor.pos
decreasing_by
  rename_i inside
  have same : later.source = cursor.source := this.source
  have moved : cursor.pos + 1 ≤ later.pos := this.pos
  simp only [Cursor.wrapped]
  rw [same]
  omega

/-- The scan whose first line has the number that a machine word holds. -/
def scanWrapped? (firstLine : UInt64) (source : String) : Option Scan :=
  ((walkWrapped? Array.push (.start #[] firstLine.toNat) (.start source firstLine.toNat)).map
    Progress.finish).map Progress.toScan

end Bytewise

end LoxLex
