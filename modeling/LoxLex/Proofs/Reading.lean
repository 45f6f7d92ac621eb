import LoxLex.Proofs.Encoding
import LoxLex.Scan.Bytewise

/-! A cursor reads bytes where the grammar speaks of characters. Between two characters the two views
agree: a test of bytes that takes all bytes beyond ASCII alike stops where its test of characters does. -/

namespace LoxLex.Text

/-- An offset that falls between two characters or at an end of the text. -/
def IsBoundary (text : List Char) (offset : Nat) : Prop :=
  ∃ before after, text = before ++ after ∧ byteLength before = offset

/-- Two offsets that can be the ends of a slice. -/
structure IsSlice (text : List Char) (start stop : Nat) : Prop where
  ordered : start ≤ stop
  inside : stop ≤ byteLength text
  startBoundary : IsBoundary text start
  stopBoundary : IsBoundary text stop

theorem slice?_isSome_iff {text : List Char} {start stop : Nat} :
    (slice? start stop text).isSome ↔ IsSlice text start stop := by
  constructor
  · intro sliced
    obtain ⟨middle, found⟩ := Option.isSome_iff_exists.mp sliced
    obtain ⟨⟨front, after⟩, outer, found⟩ := Option.bind_eq_some_iff.mp found
    obtain ⟨⟨before, middle'⟩, inner, _⟩ := Option.bind_eq_some_iff.mp found
    obtain ⟨rfl, rfl⟩ := splitAt?_eq_some outer
    obtain ⟨rfl, rfl⟩ := splitAt?_eq_some inner
    refine ⟨by simp, by simp, ⟨before, middle' ++ after, by simp, rfl⟩, ⟨_, after, rfl, rfl⟩⟩
  · rintro ⟨ordered, _, ⟨before, rest, rfl, rfl⟩, ⟨front, after, same, rfl⟩⟩
    rcases List.append_eq_append_iff.mp same with ⟨middle, rfl, rfl⟩ | ⟨extra, rfl, rfl⟩
    · simp [slice?_append]
    · cases extra with
      | nil => simpa [byteLength] using Option.isSome_of_mem (slice?_append front [] rest)
      | cons char extra =>
        have positive := byteLength_pos char extra
        rw [byteLength_append] at ordered
        omega

/-- A character that is one byte. -/
structure Spells (byte : UInt8) (char : Char) : Prop where
  small : char.toNat < 0x80
  same : byte = .ofNat char.toNat

namespace Spells

variable {byte other : UInt8} {char sign : Char}

theorem toNat_eq (spells : Spells byte char) : byte.toNat = char.toNat := by
  rw [spells.same, UInt8.toNat_ofNat_of_lt' (Nat.lt_trans spells.small (by decide))]

theorem eq_iff (spells : Spells byte char) (signs : Spells other sign) : byte = other ↔ char = sign := by
  rw [← UInt8.toNat_inj, spells.toNat_eq, signs.toNat_eq, Char.toNat_inj]

theorem lt (spells : Spells byte char) : byte < 0x80 := by
  rw [UInt8.lt_iff_toNat_lt, spells.toNat_eq]
  exact spells.small

theorem encode_eq (spells : Spells byte char) : encode [char] = [byte] := by
  rw [spells.same]
  simp [encode, String.utf8EncodeChar, Nat.le_of_lt_succ spells.small]

end Spells

/-- Below 128 a character is one byte; otherwise a byte that begins it and bytes that go on with it. -/
inductive Encoded : Char → List UInt8 → Prop
  | ascii {char : Char} {byte : UInt8} (spells : Spells byte char) : Encoded char [byte]
  | wide {char : Char} {lead : UInt8} {more : List UInt8} (large : 0x80 ≤ char.toNat)
      (begins : 0xC0 ≤ lead) (goesOn : ∀ byte ∈ more, isContinuation byte) : Encoded char (lead :: more)

private theorem continuation_byte (value : Nat) : isContinuation (.ofNat (value % 64 + 128)) := by
  have size : (value % 64 + 128) % 256 = value % 64 + 128 := by omega
  simp only [isContinuation, Bool.and_eq_true, decide_eq_true_eq, UInt8.le_iff_toNat_le,
    UInt8.lt_iff_toNat_lt, UInt8.toNat_ofNat', size, UInt8.reduceToNat]
  omega

private theorem lead_byte {value bound base : Nat} (positive : 0 < bound) (fits : base + bound ≤ 256)
    (large : 192 ≤ base) : 0xC0 ≤ UInt8.ofNat (value % bound + base) := by
  have small : value % bound < bound := Nat.mod_lt _ positive
  have size : (value % bound + base) % 256 = value % bound + base := by omega
  simp only [UInt8.le_iff_toNat_le, UInt8.toNat_ofNat', size, UInt8.reduceToNat]
  omega

theorem exists_encoded (char : Char) : ∃ bytes, String.utf8EncodeChar char = bytes ∧ Encoded char bytes := by
  refine ⟨_, rfl, ?_⟩
  unfold String.utf8EncodeChar
  dsimp only
  split
  next small => exact .ascii ⟨Nat.lt_succ_of_le small, rfl⟩
  next large =>
    have wide : 0x80 ≤ char.toNat := Nat.lt_of_not_le large
    repeat' split
    all_goals
      refine .wide wide (lead_byte (by decide) (by decide) (by decide)) ?_
      simp only [List.forall_mem_cons, continuation_byte, List.not_mem_nil, false_imp_iff, implies_true, and_self]

private theorem le_of_isContinuation {byte : UInt8} (goesOn : isContinuation byte) : 0x80 ≤ byte :=
  of_decide_eq_true ((Bool.and_eq_true _ _).mp goesOn).1

/-- A test of bytes that comes down to a test of characters. -/
structure Agrees (holds : UInt8 → Bool) (test : Char → Bool) (beyond : Bool) : Prop where
  ascii : ∀ {byte char}, Spells byte char → holds byte = test char
  bytes : ∀ byte : UInt8, 0x80 ≤ byte → holds byte = beyond
  chars : ∀ char : Char, 0x80 ≤ char.toNat → test char = beyond

variable {holds : UInt8 → Bool} {test : Char → Bool} {beyond : Bool}

private theorem Agrees.takeWhile_encode (agrees : Agrees holds test beyond) (text : List Char) :
    (encode text).takeWhile holds = encode (text.takeWhile test) := by
  induction text with
  | nil => rfl
  | cons char rest ih =>
    obtain ⟨bytes, spelled, shape⟩ := exists_encoded char
    rw [encode_cons, spelled, List.takeWhile_cons]
    cases shape with
    | ascii spells =>
      rw [List.singleton_append, List.takeWhile_cons, agrees.ascii spells]
      split
      · rw [ih, encode_cons, spelled]
        rfl
      · rfl
    | wide large begins goesOn =>
      have first : holds _ = beyond := agrees.bytes _ (UInt8.le_trans (by decide) begins)
      rw [agrees.chars char large]
      cases beyond with
      | false => simp [first]
      | true =>
        have inside : ∀ byte ∈ _ :: _, holds byte := List.forall_mem_cons.mpr
          ⟨first, fun byte member => agrees.bytes byte (le_of_isContinuation (goesOn byte member))⟩
        rw [List.takeWhile_append_of_pos inside, ih, if_pos rfl, encode_cons, spelled]

private theorem Agrees.any_head?_encode (agrees : Agrees holds test beyond) (text : List Char) :
    (encode text).head?.any holds = text.head?.any test := by
  cases text with
  | nil => rfl
  | cons char rest =>
    obtain ⟨bytes, spelled, shape⟩ := exists_encoded char
    rw [encode_cons, spelled, List.head?_cons, Option.any_some]
    cases shape with
    | ascii spells => exact agrees.ascii spells
    | wide large begins _ =>
      rw [agrees.chars char large]
      exact agrees.bytes _ (UInt8.le_trans (by decide) begins)

/-- What follows a character begins with no byte that goes on with one. -/
theorem takeWhile_isContinuation {more : List UInt8} (goesOn : ∀ byte ∈ more, isContinuation byte)
    (rest : List Char) : (more ++ encode rest).takeWhile isContinuation = more := by
  rw [List.takeWhile_append_of_pos goesOn]
  cases rest with
  | nil => simp
  | cons char rest =>
    obtain ⟨bytes, spelled, shape⟩ := exists_encoded char
    rw [encode_cons, spelled]
    cases shape with
    | @ascii byte spells =>
      have plain : isContinuation byte = false := by
        simp [isContinuation, UInt8.not_le.mpr spells.lt]
      simp [plain]
    | @wide lead _ large begins _ =>
      have begun : isContinuation lead = false := by
        simp [isContinuation, UInt8.not_lt.mpr begins]
      simp [begun]

namespace Cursor

/-- The bytes from the cursor on. -/
def rest (cursor : Cursor) : List UInt8 := (utf8 cursor.source).drop cursor.pos

/-- The cursor behind bytes that it has before it. -/
def pass (cursor : Cursor) (bytes : List UInt8) : Cursor :=
  { cursor with pos := cursor.pos + bytes.length, line := cursor.line + bytes.count 0x0A }

theorem byteAt?_eq (source : String) (index : Nat) : byteAt? source index = (utf8 source)[index]? := by
  unfold byteAt?
  split
  next inside =>
    have bound : index < source.toUTF8.data.toList.length := inside
    rw [utf8, List.getElem?_eq_getElem bound]
    rfl
  next outside =>
    have bound : source.toUTF8.data.toList.length ≤ index := Nat.le_of_not_lt outside
    rw [utf8, List.getElem?_eq_none bound]

theorem peek_eq (cursor : Cursor) : cursor.peek = cursor.rest.head? := by
  rw [rest, List.head?_drop, peek, byteAt?_eq]

private theorem peekNext_eq (cursor : Cursor) : cursor.peekNext = cursor.rest.tail.head? := by
  rw [rest, List.tail_drop, List.head?_drop, peekNext, byteAt?_eq]

theorem step_eq (cursor : Cursor) (byte : UInt8) : cursor.step byte = cursor.pass [byte] := by
  by_cases feed : byte = 0x0A
  · simp [step, pass, feed]
  · simp [step, pass, feed]

theorem pass_pass (cursor : Cursor) (first second : List UInt8) :
    (cursor.pass first).pass second = cursor.pass (first ++ second) := by
  simp [pass, Nat.add_assoc]

theorem rest_pass {cursor : Cursor} {bytes more : List UInt8} (before : cursor.rest = bytes ++ more) :
    (cursor.pass bytes).rest = more := by
  have dropped := congrArg (List.drop bytes.length) before
  rwa [rest, List.drop_drop, List.drop_left] at dropped

theorem advanceWhile_eq (holds : UInt8 → Bool) (cursor : Cursor) :
    cursor.advanceWhile holds = cursor.pass (cursor.rest.takeWhile holds) := by
  fun_induction advanceWhile holds cursor with
  | case1 cursor byte found _ more ih =>
    obtain ⟨behind, here⟩ := List.head?_eq_some_iff.mp (cursor.peek_eq ▸ found)
    have next : (cursor.pass [byte]).rest = behind := rest_pass here
    rw [ih, step_eq, next, here, List.takeWhile_cons_of_pos more, pass_pass]
    rfl
  | case2 cursor byte found _ ends =>
    obtain ⟨behind, here⟩ := List.head?_eq_some_iff.mp (cursor.peek_eq ▸ found)
    rw [here, List.takeWhile_cons_of_neg ends]
    rfl
  | case3 cursor ends =>
    rw [peek_eq, List.head?_eq_none_iff] at ends
    rw [ends]
    rfl

/-- A cursor between two characters: text before it, and text behind. -/
structure Between (cursor : Cursor) (before after : List Char) : Prop where
  whole : cursor.source.toList = before ++ after
  placed : cursor.pos = byteLength before

/-- The cursor behind a text that it has before it. -/
def behind (cursor : Cursor) (text : List Char) : Cursor := cursor.pass (encode text)

theorem behind_eq (cursor : Cursor) (text : List Char) : cursor.behind text =
    { cursor with pos := cursor.pos + byteLength text, line := cursor.line + lineFeeds text } := by
  rw [behind, pass, length_encode, count_encode]

@[simp] theorem behind_nil (cursor : Cursor) : cursor.behind [] = cursor := rfl

theorem behind_append (cursor : Cursor) (first second : List Char) :
    cursor.behind (first ++ second) = (cursor.behind first).behind second := by
  rw [behind, encode_append, ← pass_pass, behind, behind]

theorem start_between (source : String) (firstLine : Nat) :
    (start source firstLine).Between [] source.toList := ⟨rfl, rfl⟩

namespace Between

variable {cursor : Cursor} {before text after : List Char} {byte : UInt8} {char : Char}

theorem rest (between : cursor.Between before after) : cursor.rest = encode after := by
  rw [Cursor.rest, utf8_eq, between.whole, between.placed, encode_append, ← length_encode, List.drop_left]

theorem isAtEnd (between : cursor.Between before []) : cursor.isAtEnd := by
  apply decide_eq_true
  apply Nat.le_of_eq
  rw [← byteLength_toList, between.whole, between.placed, List.append_nil]

theorem behind (between : cursor.Between before (text ++ after)) :
    (cursor.behind text).Between (before ++ text) after := by
  rw [behind_eq]
  refine ⟨by simp [between.whole], ?_⟩
  simp [between.placed]

theorem behind_takeWhile (between : cursor.Between before after) (test : Char → Bool) :
    (cursor.behind (after.takeWhile test)).Between (before ++ after.takeWhile test) (after.dropWhile test) := by
  apply behind
  rwa [List.takeWhile_append_dropWhile]

theorem advanceWhile (between : cursor.Between before after) (agrees : Agrees holds test beyond) :
    cursor.advanceWhile holds = cursor.behind (after.takeWhile test) := by
  rw [advanceWhile_eq, between.rest, agrees.takeWhile_encode, Cursor.behind]

theorem sliceFrom? (between : cursor.Between before (text ++ after)) :
    (cursor.behind text).sliceFrom? cursor.pos = some (.ofList text) := by
  rw [behind_eq, Cursor.sliceFrom?, between.whole, between.placed, slice?_append]
  rfl

/-- The byte of a character comes next exactly when the character does. -/
theorem peek_eq_some_iff (between : cursor.Between before after) (spells : Spells byte char) :
    cursor.peek = some byte ↔ after.head? = some char := by
  rw [peek_eq, between.rest]
  cases after with
  | nil => simp
  | cons first more =>
    obtain ⟨bytes, spelled, shape⟩ := exists_encoded first
    rw [encode_cons, spelled, List.head?_cons, Option.some.injEq]
    cases shape with
    | ascii own => rw [List.singleton_append, List.head?_cons, Option.some.injEq, own.eq_iff spells]
    | @wide lead _ large begins _ =>
      have otherByte : lead ≠ byte := by
        rintro rfl
        exact UInt8.not_le.mpr spells.lt (UInt8.le_trans (by decide) begins)
      have otherChar : first ≠ char := by
        rintro rfl
        exact Nat.not_le_of_lt spells.small large
      simp [otherByte, otherChar]

theorem step (spells : Spells byte char) (cursor : Cursor) : cursor.step byte = cursor.behind [char] := by
  rw [step_eq, Cursor.behind, spells.encode_eq]

theorem advance (between : cursor.Between before (char :: after)) (spells : Spells byte char) :
    cursor.advance.2 = cursor.behind [char] := by
  rw [Cursor.advance, (between.peek_eq_some_iff spells).mpr rfl]
  exact step spells cursor

theorem any_peekNext (between : cursor.Between before (char :: after)) (spells : Spells byte char)
    (agrees : Agrees holds test beyond) : cursor.peekNext.any holds = after.head?.any test := by
  rw [peekNext_eq, between.rest, ← List.singleton_append, encode_append, spells.encode_eq,
    List.singleton_append, List.tail_cons, agrees.any_head?_encode]

end Between

end Cursor

end LoxLex.Text
