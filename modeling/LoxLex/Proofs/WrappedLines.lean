import LoxLex.Proofs.Walking
import LoxLex.Scan.Wrapping

/-! Wrapping the lines as they are counted gives what wrapping them at the end gives, since no step of the
walk asks for the line. -/

namespace LoxLex
open Text

/-- Where in a count it wraps makes no difference. -/
@[simp] private theorem wrapLine_add (line more : Nat) : wrapLine (wrapLine line + more) = wrapLine (line + more) :=
  Nat.mod_add_mod ..

theorem wrapLine_word (firstLine : UInt64) (lines : Nat) :
    wrapLine (firstLine.toNat + lines) = (firstLine + .ofNat lines).toNat := by
  rw [UInt64.toNat_add, UInt64.toNat_ofNat', Nat.add_mod_mod]
  rfl

private theorem Piece.finding?_wrapped (place : Place) (piece : Piece) :
    (piece.finding? place.wrapped).map Finding.wrapped = (piece.finding? place).map .wrapped := by
  unfold finding?
  split <;> simp [Place.wrapped, Place.after, Finding.wrapped, Token.wrapped, LexError.wrapped]

def Event.wrapped : Event → Event
  | lexicalError line message => lexicalError (wrapLine line) message
  | finished tokens errors lines => finished tokens errors (wrapLine lines)

/-- What a scan has come to, with every line in it wrapped. -/
def Progress.wrapped (progress : Progress (Array LexError)) : Progress (Array LexError) where
  place := progress.place.wrapped
  tokens := progress.tokens.map .wrapped
  errors := progress.errors
  sink := progress.sink.map .wrapped
  events := progress.events.map .wrapped

namespace Progress

private theorem record_wrapped (progress : Progress (Array LexError)) (finding : Option Finding) (place : Place) :
    progress.wrapped.record Array.push (finding.map .wrapped) place.wrapped =
      (progress.record Array.push finding place).wrapped := by
  cases finding with
  | none => rfl
  | some found =>
    cases found <;> simp [record, wrapped, Finding.wrapped, LexError.wrapped, LexError.message, Event.wrapped]

private theorem finish_wrapped (progress : Progress (Array LexError)) :
    progress.wrapped.finish = progress.finish.wrapped := by
  simp [finish, wrapped, Place.wrapped, Token.wrapped, Token.eof, Event.wrapped]

private theorem toScan_wrapped (progress : Progress (Array LexError)) :
    progress.wrapped.toScan = progress.toScan.wrapped := by
  simp [toScan, wrapped, Scan.wrapped]

end Progress

namespace Bytewise

variable {cursor : Cursor} {progress : Progress (Array LexError)} {before after : List Char}

private theorem walkWrapped?_of_end (ends : cursor.peek = none) :
    walkWrapped? Array.push progress cursor = some progress := by
  unfold walkWrapped?
  split
  next => rfl
  next byte found => rw [ends] at found; cases found

private theorem walkWrapped?_of_read {byte : UInt8} {finding : Option Finding} {later : Cursor}
    (found : cursor.peek = some byte) (read : continue? cursor.pos byte (cursor.step byte) = (some finding, later)) :
    walkWrapped? Array.push progress cursor =
      walkWrapped? Array.push (progress.record Array.push (finding.map .wrapped) (placeOf later).wrapped)
        later.wrapped := by
  rw [walkWrapped?]
  split
  next ends => rw [found] at ends; cases ends
  next other here =>
    cases found.symm.trans here
    split
    next missing => rw [read] at missing; cases missing
    next same => cases read.symm.trans same; rfl

private theorem between_wrapped (between : cursor.Between before after) : cursor.wrapped.Between before after :=
  ⟨between.whole, between.placed⟩

private theorem behind_wrapped (cursor : Cursor) (text : List Char) :
    (cursor.wrapped.behind text).wrapped = (cursor.behind text).wrapped := by
  simp [Cursor.behind_eq, Cursor.wrapped]

/-- From a cursor with its line wrapped the walk comes to the scan with its lines wrapped. -/
private theorem walkWrapped?_eq (between : cursor.Between before after) (placed : progress.place = placeOf cursor) :
    walkWrapped? Array.push progress.wrapped cursor.wrapped =
      some ((Piece.cut after).foldl (Progress.step Array.push) progress).wrapped := by
  fun_induction Piece.cut after generalizing cursor before progress with
  | case1 => exact walkWrapped?_of_end (peek_of_end (between_wrapped between))
  | case2 char rest ih =>
    obtain ⟨byte, found, read, _⟩ := exists_read (between_wrapped between)
    obtain ⟨_, _, _, later⟩ := exists_read between
    have stop : (placeOf (cursor.wrapped.behind (Piece.first char rest).1.text)).wrapped =
        (placeOf (cursor.behind (Piece.first char rest).1.text)).wrapped :=
      congrArg placeOf (behind_wrapped cursor _)
    have told : ((Piece.first char rest).1.finding? (placeOf cursor.wrapped)).map Finding.wrapped =
        ((Piece.first char rest).1.finding? (placeOf cursor)).map .wrapped :=
      Piece.finding?_wrapped (placeOf cursor) _
    rw [walkWrapped?_of_read found read, behind_wrapped, stop, told, Progress.record_wrapped,
      ih later (Progress.record_place ..), List.foldl_cons, Progress.step, placed, placeOf_behind]

private theorem wrapLine_toNat (firstLine : UInt64) : wrapLine firstLine.toNat = firstLine.toNat :=
  Nat.mod_eq_of_lt firstLine.toNat_lt_size

/-- The walk succeeds, and its lines are those of the scan, wrapped. -/
theorem scanWrapped?_eq (firstLine : UInt64) (source : String) :
    scanWrapped? firstLine source = some (scan firstLine.toNat source).wrapped := by
  have cursor : Cursor.start source firstLine.toNat = (Cursor.start source firstLine.toNat).wrapped := by
    rw [Cursor.wrapped, Cursor.start, wrapLine_toNat]
  have progress : Progress.start #[] firstLine.toNat = (Progress.start #[] firstLine.toNat).wrapped := by
    simp [Progress.wrapped, Progress.start, Place.wrapped, wrapLine_toNat]
  rw [scanWrapped?, cursor, progress, walkWrapped?_eq (Cursor.start_between source _) rfl, Option.map_some,
    Option.map_some, Progress.finish_wrapped, Progress.toScan_wrapped]
  rfl

end Bytewise

end LoxLex
