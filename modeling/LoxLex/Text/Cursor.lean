import LoxLex.Text.Bytes

/-! A reader that walks the bytes of a text and counts the lines it passes. It may stand inside a
character; a slice that would begin or end there does not exist. -/

namespace LoxLex.Text

def byteAt? (source : String) (index : Nat) : Option UInt8 :=
  if inside : (⟨index⟩ : String.Pos.Raw) < source.rawEndPos then
    some (source.getUTF8Byte ⟨index⟩ inside)
  else none

/-- A byte that goes on with a character rather than beginning one. -/
def isContinuation (byte : UInt8) : Bool := 0x80 ≤ byte && byte < 0xC0

structure Cursor where
  source : String
  pos : Nat
  line : Nat
  deriving DecidableEq

namespace Cursor

def start (source : String) (firstLine : Nat) : Cursor := ⟨source, 0, firstLine⟩

def peek (cursor : Cursor) : Option UInt8 := byteAt? cursor.source cursor.pos

def peekNext (cursor : Cursor) : Option UInt8 := byteAt? cursor.source (cursor.pos + 1)

def isAtEnd (cursor : Cursor) : Bool := cursor.source.utf8ByteSize ≤ cursor.pos

/-- Moves past one byte; a line feed begins a new line. -/
def step (cursor : Cursor) (byte : UInt8) : Cursor :=
  { cursor with
    pos := cursor.pos + 1
    line := if byte = 0x0A then cursor.line + 1 else cursor.line }

/-- Reads one byte and moves past it. At the end nothing moves. -/
def advance (cursor : Cursor) : Option UInt8 × Cursor :=
  match cursor.peek with
  | some byte => (some byte, cursor.step byte)
  | none => (none, cursor)

def matchByte (expected : UInt8) (cursor : Cursor) : Bool × Cursor :=
  if cursor.peek = some expected then (true, cursor.step expected) else (false, cursor)

theorem lt_of_peek {cursor : Cursor} {byte : UInt8} (found : cursor.peek = some byte) :
    cursor.pos < cursor.source.utf8ByteSize := by
  unfold peek byteAt? at found
  split at found
  next inside => simpa [String.Pos.Raw.lt_iff] using inside
  next => simp at found

def advanceWhile (holds : UInt8 → Bool) (cursor : Cursor) : Cursor :=
  match found : cursor.peek with
  | some byte =>
    have := lt_of_peek found
    if holds byte then advanceWhile holds (cursor.step byte) else cursor
  | none => cursor
termination_by cursor.source.utf8ByteSize - cursor.pos
decreasing_by
  simp only [step]
  omega

/-- Moves to the nearest character boundary at or after the cursor. -/
def skipContinuation (cursor : Cursor) : Cursor := cursor.advanceWhile isContinuation

def sliceFrom? (start : Nat) (cursor : Cursor) : Option String :=
  (slice? start cursor.pos cursor.source.toList).map String.ofList

/-- A cursor on the same source that has not moved back. -/
structure Follows (earlier later : Cursor) : Prop where
  source : later.source = earlier.source
  pos : earlier.pos ≤ later.pos

namespace Follows

theorem refl (cursor : Cursor) : Follows cursor cursor := ⟨rfl, Nat.le_refl _⟩

theorem trans {first second third : Cursor} (one : Follows first second)
    (two : Follows second third) : Follows first third :=
  ⟨two.source.trans one.source, Nat.le_trans one.pos two.pos⟩

theorem step (cursor : Cursor) (byte : UInt8) : Follows cursor (cursor.step byte) :=
  ⟨rfl, Nat.le_succ _⟩

theorem advance (cursor : Cursor) : Follows cursor cursor.advance.2 := by
  unfold Cursor.advance
  split
  · exact step ..
  · exact refl _

theorem matchByte (expected : UInt8) (cursor : Cursor) :
    Follows cursor (cursor.matchByte expected).2 := by
  unfold Cursor.matchByte
  split
  · exact step ..
  · exact refl _

theorem advanceWhile (holds : UInt8 → Bool) (cursor : Cursor) :
    Follows cursor (cursor.advanceWhile holds) := by
  fun_induction Cursor.advanceWhile holds cursor with
  | case1 cursor byte _ _ _ ih => exact (step cursor byte).trans ih
  | case2 => exact refl _
  | case3 => exact refl _

end Follows

end Cursor

end LoxLex.Text
