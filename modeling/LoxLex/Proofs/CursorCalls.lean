import LoxLex.Proofs.Lines
import LoxLex.Proofs.Reading

/-! A cursor in the hands of any caller. Calls in any order may leave it inside a character, but they take it only
forward and within its source, and its line counts the line feeds before it. -/

namespace LoxLex.Text

section

variable {text before after : List Char} {offset : Nat} {byte : UInt8} {more : List UInt8}

/-- Where an offset falls: the bytes that are left of the character it is inside of, which are none between two
characters, and the text behind them. -/
structure Falls (text : List Char) (offset : Nat) (more : List UInt8) (before after : List Char) : Prop where
  whole : text = before ++ after
  placed : offset + more.length = byteLength before
  rest : (encode text).drop offset = more ++ encode after
  goesOn : ∀ byte ∈ more, isContinuation byte
  few : more.length ≤ 3

namespace Falls

private theorem next (falls : Falls text offset (byte :: more) before after) :
    Falls text (offset + 1) more before after where
  whole := falls.whole
  placed := (Nat.succ_add_eq_add_succ offset more.length).trans falls.placed
  rest := by rw [← List.drop_drop, falls.rest, List.cons_append, List.drop_succ_cons, List.drop_zero]
  goesOn := (List.forall_mem_cons.mp falls.goesOn).2
  few := Nat.le_of_succ_le falls.few

private theorem cons (falls : Falls text offset more before after) (char : Char) :
    Falls (char :: text) (char.utf8Size + offset) more (char :: before) after where
  whole := by rw [falls.whole, List.cons_append]
  placed := by rw [Nat.add_assoc, falls.placed, byteLength]
  rest := by rw [encode_cons, ← String.length_utf8EncodeChar, List.drop_length_add_append, falls.rest]
  goesOn := falls.goesOn
  few := falls.few

private theorem stop (falls : Falls text offset more before after) : IsBoundary text (offset + more.length) :=
  ⟨before, after, falls.whole, falls.placed.symm⟩

private theorem isBoundary_iff (falls : Falls text offset more before after) : IsBoundary text offset ↔ more = [] := by
  constructor
  · rintro ⟨front, back, rfl, rfl⟩
    have behind : encode back = more ++ encode after := by
      rw [← falls.rest, encode_append, ← length_encode, List.drop_left]
    calc
      more = (more ++ encode after).takeWhile isContinuation := (takeWhile_isContinuation falls.goesOn after).symm
      _ = ([] ++ encode back).takeWhile isContinuation := by rw [← behind, List.nil_append]
      _ = [] := takeWhile_isContinuation (List.forall_mem_nil _) back
  · rintro rfl
    exact falls.stop

end Falls

/-- An offset inside the first character leaves at most three bytes of it. -/
private theorem exists_falls_of_lt {char : Char} (positive : 0 < offset) (inner : offset < char.utf8Size)
    (rest : List Char) :
    ∃ more, Falls (char :: rest) offset more [char] rest := by
  obtain ⟨bytes, spelled, shape⟩ := exists_encoded char
  have size : bytes.length = char.utf8Size := spelled ▸ String.length_utf8EncodeChar char
  have most := char.utf8Size_le_four
  obtain ⟨index, rfl⟩ := Nat.exists_eq_add_of_lt positive
  cases shape with
  | ascii =>
    rw [List.length_singleton] at size
    omega
  | @wide lead tail large begins goesOn =>
    rw [List.length_cons] at size
    refine ⟨tail.drop index, rfl, ?_, ?_, ?_, ?_⟩
    · simp only [List.length_drop, byteLength]
      omega
    · have inside : index ≤ tail.length := by omega
      rw [encode_cons, spelled, Nat.zero_add, List.cons_append, List.drop_succ_cons,
        List.drop_append_of_le_length inside]
    · intro byte member
      exact goesOn byte (List.mem_of_mem_drop member)
    · rw [List.length_drop]
      omega

private theorem exists_falls (inside : offset ≤ byteLength text) :
    ∃ more before after, Falls text offset more before after := by
  induction text generalizing offset with
  | nil =>
    cases Nat.le_zero.mp inside
    exact ⟨[], [], [], rfl, rfl, rfl, List.forall_mem_nil _, Nat.zero_le 3⟩
  | cons char rest ih =>
    rcases Nat.lt_or_ge offset char.utf8Size with inner | beyond
    · rcases Nat.eq_zero_or_pos offset with rfl | positive
      · exact ⟨[], [], char :: rest, rfl, rfl, rfl, List.forall_mem_nil _, Nat.zero_le 3⟩
      · obtain ⟨more, falls⟩ := exists_falls_of_lt positive inner rest
        exact ⟨more, [char], rest, falls⟩
    · obtain ⟨further, rfl⟩ := Nat.exists_eq_add_of_le beyond
      obtain ⟨more, before, after, falls⟩ := ih (Nat.le_of_add_le_add_left inside)
      exact ⟨more, char :: before, after, falls.cons char⟩

private theorem isSlice_iff {start stop : Nat} (inside : stop ≤ byteLength text) :
    IsSlice text start stop ↔ IsBoundary text start ∧ IsBoundary text stop ∧ start ≤ stop :=
  ⟨fun slice => ⟨slice.startBoundary, slice.stopBoundary, slice.ordered⟩,
    fun ⟨first, last, ordered⟩ => ⟨ordered, inside, first, last⟩⟩

private theorem encode_of_slice? {start stop : Nat} {middle : List Char}
    (found : slice? start stop text = some middle) :
    encode middle = ((encode text).take stop).drop start := by
  obtain ⟨⟨front, after⟩, outer, found⟩ := Option.bind_eq_some_iff.mp found
  obtain ⟨⟨before, inner⟩, cut, same⟩ := Option.bind_eq_some_iff.mp found
  cases same
  obtain ⟨rfl, rfl⟩ := splitAt?_eq_some outer
  obtain ⟨rfl, rfl⟩ := splitAt?_eq_some cut
  rw [take_encode_append, encode_append, ← length_encode before, List.drop_left]

end

namespace Cursor

/-- What can be asked of a cursor. -/
inductive Call
  | advance
  | peek
  | peekNext
  | matchByte (expected : UInt8)
  | skipContinuation
  | advanceWhile (holds : UInt8 → Bool)
  | sliceFrom (start : Nat)

/-- What the caller is told: a byte, whether there was a match, a slice where there is one, or nothing. -/
inductive Answer
  | byte (found : Option UInt8)
  | isMatch (found : Bool)
  | slice (found : Option String)
  | nothing

def call (cursor : Cursor) : Call → Answer × Cursor
  | .advance => (.byte cursor.advance.1, cursor.advance.2)
  | .peek => (.byte cursor.peek, cursor)
  | .peekNext => (.byte cursor.peekNext, cursor)
  | .matchByte expected => (.isMatch (cursor.matchByte expected).1, (cursor.matchByte expected).2)
  | .skipContinuation => (.nothing, cursor.skipContinuation)
  | .advanceWhile holds => (.nothing, cursor.advanceWhile holds)
  | .sliceFrom start => (.slice (cursor.sliceFrom? start), cursor)

/-- The cursor behind calls made one after the other. A slice that does not exist stops nothing. -/
def after (cursor : Cursor) (calls : List Call) : Cursor := calls.foldl (fun cursor call => (cursor.call call).2) cursor

/-- The bytes that a call takes, of those before the cursor. -/
def Call.taken : Call → List UInt8 → List UInt8
  | .advance, rest => rest.take 1
  | .matchByte expected, rest => if rest.head? = some expected then [expected] else []
  | .skipContinuation, rest => rest.takeWhile isContinuation
  | .advanceWhile holds, rest => rest.takeWhile holds
  | .peek, _ | .peekNext, _ | .sliceFrom _, _ => []

/-- What a call is told, in terms of the bytes of the source. -/
def Call.told (cursor : Cursor) : Call → Answer
  | .advance | .peek => .byte (utf8 cursor.source)[cursor.pos]?
  | .peekNext => .byte (utf8 cursor.source)[cursor.pos + 1]?
  | .matchByte expected => .isMatch (decide ((utf8 cursor.source)[cursor.pos]? = some expected))
  | .sliceFrom start => .slice (cursor.sliceFrom? start)
  | .skipContinuation | .advanceWhile _ => .nothing

private theorem Call.taken_prefix (call : Call) (rest : List UInt8) : call.taken rest <+: rest := by
  cases call with
  | advance => exact List.take_prefix 1 rest
  | matchByte expected =>
    rw [taken]
    split
    next found =>
      obtain ⟨behind, rfl⟩ := List.head?_eq_some_iff.mp found
      exact ⟨behind, rfl⟩
    next => exact List.nil_prefix
  | skipContinuation => exact List.takeWhile_prefix isContinuation
  | advanceWhile holds => exact List.takeWhile_prefix holds
  | peek => exact List.nil_prefix
  | peekNext => exact List.nil_prefix
  | sliceFrom => exact List.nil_prefix

/-- All that a call does to a cursor is to pass the bytes it takes. -/
private theorem call_eq_pass (cursor : Cursor) (call : Call) :
    (cursor.call call).2 = cursor.pass (call.taken cursor.rest) := by
  cases call with
  | advance =>
    rw [call, Cursor.advance, peek_eq, Call.taken]
    cases cursor.rest with
    | nil => rfl
    | cons byte behind => exact cursor.step_eq byte
  | matchByte expected =>
    rw [call, Cursor.matchByte, peek_eq, Call.taken]
    split
    · exact cursor.step_eq expected
    · rfl
  | skipContinuation => exact advanceWhile_eq isContinuation cursor
  | advanceWhile holds => exact advanceWhile_eq holds cursor
  | peek => rfl
  | peekNext => rfl
  | sliceFrom => rfl

private theorem call_eq_told (cursor : Cursor) (call : Call) : (cursor.call call).1 = call.told cursor := by
  have here : cursor.peek = (utf8 cursor.source)[cursor.pos]? := byteAt?_eq cursor.source cursor.pos
  cases call with
  | advance =>
    rw [call, Cursor.advance, Call.told, ← here]
    cases cursor.peek <;> rfl
  | peek => rw [call, Call.told, here]
  | peekNext => exact congrArg Answer.byte (byteAt?_eq cursor.source (cursor.pos + 1))
  | matchByte expected =>
    rw [call, Cursor.matchByte, Call.told, ← here]
    split
    next same => rw [decide_eq_true same]
    next other => rw [decide_eq_false other]
  | skipContinuation => rfl
  | advanceWhile => rfl
  | sliceFrom => rfl

private theorem Follows.call (cursor : Cursor) (call : Call) : cursor.Follows (cursor.call call).2 := by
  rw [call_eq_pass]
  exact ⟨rfl, Nat.le_add_right ..⟩

private theorem Follows.after (cursor : Cursor) (calls : List Call) : cursor.Follows (cursor.after calls) := by
  induction calls generalizing cursor with
  | nil => exact .refl cursor
  | cons call calls ih => exact (Follows.call cursor call).trans (ih (cursor.call call).2)

/-- A cursor within its source, on the line of the byte that it is at. -/
structure Sound (source : String) (firstLine : Nat) (cursor : Cursor) : Prop where
  same : cursor.source = source
  inside : cursor.pos ≤ source.utf8ByteSize
  line : cursor.line = lineAt firstLine source cursor.pos

namespace Sound

variable {source : String} {firstLine : Nat} {cursor : Cursor} {bytes : List UInt8}

private theorem start (source : String) (firstLine : Nat) : Sound source firstLine (.start source firstLine) :=
  ⟨rfl, Nat.zero_le _, rfl⟩

private theorem pass (sound : Sound source firstLine cursor) (ahead : bytes <+: cursor.rest) :
    Sound source firstLine (cursor.pass bytes) := by
  obtain ⟨rfl, inside, line⟩ := sound
  obtain ⟨behind, whole⟩ := ahead
  have length := congrArg List.length whole
  rw [rest, List.length_drop, List.length_append, length_utf8] at length
  have read : (utf8 cursor.source).take (cursor.pos + bytes.length) = (utf8 cursor.source).take cursor.pos ++ bytes := by
    rw [List.take_add, ← rest, ← whole, List.take_left]
  refine ⟨rfl, ?_, ?_⟩
  · simp only [Cursor.pass]
    omega
  · simp only [Cursor.pass, lineAt, read, List.count_append, line, Nat.add_assoc]

private theorem call (sound : Sound source firstLine cursor) (call : Call) :
    Sound source firstLine (cursor.call call).2 := by
  rw [call_eq_pass]
  exact sound.pass (call.taken_prefix cursor.rest)

private theorem after (sound : Sound source firstLine cursor) (calls : List Call) :
    Sound source firstLine (cursor.after calls) := by
  induction calls generalizing cursor with
  | nil => exact sound
  | cons call calls ih => exact ih (sound.call call)

private theorem exists_falls (sound : Sound source firstLine cursor) :
    ∃ more before after, Falls cursor.source.toList cursor.pos more before after := by
  obtain ⟨rfl, inside, _⟩ := sound
  rw [← byteLength_toList] at inside
  exact Text.exists_falls inside

end Sound

/-- A loop that goes on by one byte while the cursor is not on a boundary, with the number of its rounds. It never
looks at the bytes that it passes, so it leaves the line alone. -/
inductive Skips : Nat → Cursor → Cursor → Prop
  | done {cursor : Cursor} (boundary : IsBoundary cursor.source.toList cursor.pos) : Skips 0 cursor cursor
  | round {rounds : Nat} {cursor next : Cursor} (inside : ¬ IsBoundary cursor.source.toList cursor.pos)
      (goesOn : Skips rounds { cursor with pos := cursor.pos + 1 } next) : Skips (rounds + 1) cursor next

private theorem Skips.eq {rounds : Nat} {cursor next : Cursor} (skips : Skips rounds cursor next) :
    next = { cursor with pos := cursor.pos + rounds } := by
  induction skips with
  | done => rfl
  | round _ _ ih => rw [ih, Nat.add_right_comm, Nat.add_assoc]

private theorem pass_of_isContinuation {byte : UInt8} (goesOn : isContinuation byte) (cursor : Cursor) :
    cursor.pass [byte] = { cursor with pos := cursor.pos + 1 } := by
  have other : byte ≠ 0x0A := by
    rintro rfl
    cases goesOn
  simp [pass, other]

variable {cursor : Cursor} {before behind : List Char} {more : List UInt8}

private theorem skips_of_falls (falls : Falls cursor.source.toList cursor.pos more before behind) :
    Skips more.length cursor (cursor.pass more) := by
  induction more generalizing cursor with
  | nil => exact .done falls.stop
  | cons byte more ih =>
    have inside : ¬ IsBoundary cursor.source.toList cursor.pos := by
      rw [falls.isBoundary_iff]
      exact List.cons_ne_nil byte more
    -- The byte passed goes on with a character, so it is no line feed and a round keeps the line right.
    have step := pass_of_isContinuation (List.forall_mem_cons.mp falls.goesOn).1 cursor
    have later : Falls (cursor.pass [byte]).source.toList (cursor.pass [byte]).pos more before behind := falls.next
    have rounds := ih later
    rw [pass_pass, step] at rounds
    exact .round inside rounds

private theorem skipContinuation_of_falls (falls : Falls cursor.source.toList cursor.pos more before behind) :
    cursor.skipContinuation = cursor.pass more := by
  rw [skipContinuation, advanceWhile_eq, rest, utf8_eq, falls.rest, takeWhile_isContinuation falls.goesOn]

private theorem skipContinuation_isBoundary (falls : Falls cursor.source.toList cursor.pos more before behind) :
    IsBoundary cursor.source.toList cursor.skipContinuation.pos := by
  rw [skipContinuation_of_falls falls]
  exact falls.stop

private theorem skipContinuation_eq_self_iff (falls : Falls cursor.source.toList cursor.pos more before behind) :
    cursor.skipContinuation = cursor ↔ IsBoundary cursor.source.toList cursor.pos := by
  rw [skipContinuation_of_falls falls, falls.isBoundary_iff]
  constructor
  · intro same
    have still : cursor.pos + more.length = cursor.pos := congrArg Cursor.pos same
    exact List.eq_nil_of_length_eq_zero (Nat.add_eq_left.mp still)
  · rintro rfl
    rfl

private theorem sliceFrom?_eq_some_iff {start : Nat} {text : String} :
    cursor.sliceFrom? start = some text ↔ IsSlice cursor.source.toList start cursor.pos ∧
      utf8 text = ((utf8 cursor.source).take cursor.pos).drop start := by
  have bytes {middle : List Char} (found : slice? start cursor.pos cursor.source.toList = some middle) :
      utf8 (.ofList middle) = ((utf8 cursor.source).take cursor.pos).drop start := by
    rw [utf8_ofList, encode_of_slice? found, utf8_eq]
  rw [← slice?_isSome_iff, sliceFrom?]
  constructor
  · intro found
    obtain ⟨middle, cut, rfl⟩ := Option.map_eq_some_iff.mp found
    exact ⟨Option.isSome_of_mem cut, bytes cut⟩
  · rintro ⟨sliced, same⟩
    obtain ⟨middle, found⟩ := Option.isSome_iff_exists.mp sliced
    rw [found, Option.map_some, utf8_inj.mp (same.trans (bytes found).symm)]

private theorem sliceFrom?_eq_none_iff {start : Nat} (inside : cursor.pos ≤ cursor.source.utf8ByteSize) :
    cursor.sliceFrom? start = none ↔ ¬ IsBoundary cursor.source.toList start ∨
      ¬ IsBoundary cursor.source.toList cursor.pos ∨ cursor.pos < start := by
  rw [sliceFrom?, Option.map_eq_none_iff, ← Option.not_isSome_iff_eq_none, slice?_isSome_iff,
    isSlice_iff (byteLength_toList cursor.source ▸ inside), Classical.not_and_iff_not_or_not,
    Classical.not_and_iff_not_or_not, Nat.not_le]

/-- However a cursor is used, it stays within its source and goes only forward, and its line counts the line feeds
before it. A skip comes to an end on a boundary, and slices exist between boundaries only. -/
theorem after_calls_sound (source : String) (firstLine : Nat) (calls : List Call) :
    let cursor := (start source firstLine).after calls
    let skipped := (cursor.call .skipContinuation).2
    Sound source firstLine cursor ∧
    (∀ call, cursor.call call = (call.told cursor, cursor.pass (call.taken cursor.rest))) ∧
    (∀ further, cursor.pos ≤ (cursor.after further).pos) ∧
    (∃ rounds ≤ 3, Skips rounds cursor skipped ∧ skipped = { cursor with pos := cursor.pos + rounds }) ∧
    IsBoundary source.toList skipped.pos ∧
    (skipped = cursor ↔ IsBoundary source.toList cursor.pos) ∧
    ∀ first, cursor.call (.sliceFrom first) = (.slice (cursor.sliceFrom? first), cursor) ∧
      (cursor.sliceFrom? first = none ↔ ¬ IsBoundary source.toList first ∨
        ¬ IsBoundary source.toList cursor.pos ∨ cursor.pos < first) ∧
      ∀ text, cursor.sliceFrom? first = some text ↔ IsSlice source.toList first cursor.pos ∧
        utf8 text = ((utf8 source).take cursor.pos).drop first := by
  intro cursor skipped
  have sound : Sound source firstLine cursor := (Sound.start source firstLine).after calls
  obtain ⟨more, _, _, falls⟩ := sound.exists_falls
  have passed : skipped = cursor.pass more := skipContinuation_of_falls falls
  have skips : Skips more.length cursor skipped := passed ▸ skips_of_falls falls
  refine ⟨sound, ?_, fun further => (Follows.after cursor further).pos, ?_, ?_, ?_, ?_⟩
  · intro call
    exact Prod.ext (call_eq_told cursor call) (call_eq_pass cursor call)
  · exact ⟨more.length, falls.few, skips, skips.eq⟩
  · rw [← sound.same]
    exact skipContinuation_isBoundary falls
  · rw [← sound.same]
    exact skipContinuation_eq_self_iff falls
  · intro first
    have inside := sound.inside
    rw [← sound.same] at inside ⊢
    exact ⟨rfl, sliceFrom?_eq_none_iff inside, fun _ => sliceFrom?_eq_some_iff⟩

/-- A line feed is passed, and the calls stop inside a character of four bytes. -/
theorem after_calls_sound_inside_character :
    let source := "é\n😀"
    let calls : List Call := [.advance, .skipContinuation, .matchByte 0x0A, .peekNext, .advance, .sliceFrom 0]
    let cursor : Cursor := ⟨source, 4, 8⟩
    (start source 7).after calls = cursor ∧ lineAt 7 source 4 = 8 ∧ cursor.skipContinuation = ⟨source, 7, 8⟩ ∧
      ¬ IsBoundary source.toList 4 ∧ IsBoundary source.toList 7 ∧ cursor.sliceFrom? 3 = none := by
  intro source calls cursor
  have reached : (start source 7).after calls = cursor := by decide +kernel
  have skipped : cursor.skipContinuation = ⟨source, 7, 8⟩ := by decide +kernel
  obtain ⟨sound, _, _, _, stop, stays, slices⟩ := after_calls_sound source 7 calls
  rw [reached] at sound stop stays slices
  have inside : ¬ IsBoundary source.toList 4 := by
    intro boundary
    have still : 7 = 4 := congrArg Cursor.pos (skipped.symm.trans (stays.mpr boundary))
    cases still
  refine ⟨reached, sound.line.symm, skipped, inside, ?_, (slices 3).2.1.mpr (.inr (.inl inside))⟩
  have ended : IsBoundary source.toList cursor.skipContinuation.pos := stop
  rwa [skipped] at ended

end Cursor

end LoxLex.Text
