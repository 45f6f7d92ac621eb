import LoxLex.Proofs.Walking

/-! The walk over bytes takes only slices that exist, and gets on with each piece until the source ends. -/

namespace LoxLex
open Text

namespace Bytewise

variable {cursor next : Cursor} {before rest after : List Char} {char : Char}

/-- Where the cursor can be when the next piece is read, with the number of pieces before it. -/
inductive Reached (source : String) (firstLine : Nat) : Nat → Cursor → Prop
  | start : Reached source firstLine 0 (.start source firstLine)
  | next {count : Nat} {cursor : Cursor} {byte : UInt8} (reached : Reached source firstLine count cursor)
      (found : cursor.peek = some byte) :
      Reached source firstLine (count + 1) (continue? cursor.pos byte (cursor.step byte)).2

/-- A piece is read: the slices taken on the way exist, and the cursor moves on within the source. -/
structure Proceeds (cursor : Cursor) (read : Option (Option Finding) × Cursor) : Prop where
  answers : read.1.isSome
  forward : cursor.pos < read.2.pos
  inside : read.2.pos ≤ cursor.source.utf8ByteSize
  lexeme : ∀ token, read.1 = some (some (.token token)) → IsSlice cursor.source.toList cursor.pos read.2.pos
  value : ∀ token, read.1 = some (some (.token token)) → token.kind = .string →
    IsSlice cursor.source.toList (cursor.pos + 1) read.2.pos ∧
    ∃ value, read.2.sliceFrom? (cursor.pos + 1) = some value ∧ 0 < value.utf8ByteSize ∧
      IsSlice value.toList 0 (value.utf8ByteSize - 1)

private theorem Reached.between {source : String} {firstLine count : Nat}
    (reached : Reached source firstLine count cursor) :
    cursor.source = source ∧ ∃ before after, cursor.Between before after ∧ count ≤ before.length := by
  induction reached with
  | start => exact ⟨rfl, [], source.toList, Cursor.start_between source firstLine, Nat.le_refl 0⟩
  | @next count cursor byte _ found ih =>
    obtain ⟨same, before, after, between, bound⟩ := ih
    cases after with
    | nil =>
      rw [peek_of_end between] at found
      cases found
    | cons char rest =>
      obtain ⟨_, here, read, later⟩ := exists_read between
      cases found.symm.trans here
      rw [read]
      refine ⟨?_, _, _, later, ?_⟩
      · rw [Cursor.behind_eq]
        exact same
      · have nonempty := List.length_pos_iff.mpr (Piece.first_text_ne_nil char rest)
        rw [List.length_append]
        omega

private theorem isSlice_of_sliceFrom? {start : Nat} {text : String} (found : next.sliceFrom? start = some text) :
    IsSlice next.source.toList start next.pos := by
  apply slice?_isSome_iff.mp
  rw [← Option.isSome_map, ← Cursor.sliceFrom?, found]
  rfl

private theorem proceeds (between : cursor.Between before (char :: rest)) {byte : UInt8}
    (found : cursor.peek = some byte) :
    Proceeds cursor (continue? cursor.pos byte (cursor.step byte)) := by
  obtain ⟨_, here, read, later⟩ := exists_read between
  cases found.symm.trans here
  have shape := (Piece.first_fits char rest).shape
  have own : cursor.Between before ((Piece.first char rest).1.text ++ (Piece.first char rest).2) := by
    rwa [Piece.first_text]
  have nonempty := Piece.first_text_ne_nil char rest
  rw [read]
  generalize (Piece.first char rest).1 = piece at *
  have source : (cursor.behind piece.text).source = cursor.source := by rw [Cursor.behind_eq]
  refine ⟨rfl, ?_, ?_, ?_, ?_⟩
  · obtain ⟨first, more, spelled⟩ := List.exists_cons_of_ne_nil nonempty
    rw [Cursor.behind_eq, spelled]
    exact Nat.lt_add_of_pos_right (byteLength_pos first more)
  · rw [later.placed, ← source, ← byteLength_toList, later.whole, byteLength_append _ (Piece.first char rest).2]
    exact Nat.le_add_right ..
  · intro token _
    exact source ▸ isSlice_of_sliceFrom? own.sliceFrom?
  · intro token isToken string
    obtain ⟨lexeme, rfl, rfl⟩ := Piece.exists_lexeme_of_token shape (Option.some.inj isToken)
    cases lexeme with
    | string value _ =>
      have inner := sliceFrom?_value own
      refine ⟨source ▸ isSlice_of_sliceFrom? inner, _, inner, ?_, ?_⟩
      · rw [utf8ByteSize_closed]
        exact Nat.succ_pos _
      · exact slice?_isSome_iff.mp (Option.isSome_of_mem (slice?_inner value))
    | _ => cases string

private theorem Reached.exists_end {source : String} {firstLine count : Nat}
    (reached : Reached source firstLine count cursor)
    (between : cursor.Between before after) :
    ∃ total last, Reached source firstLine total last ∧ last.isAtEnd := by
  fun_induction Piece.cut after generalizing cursor before count with
  | case1 => exact ⟨count, cursor, reached, between.isAtEnd⟩
  | case2 char rest ih =>
    obtain ⟨byte, found, read, later⟩ := exists_read between
    have further := reached.next found
    rw [read] at further
    exact ih further later

end Bytewise

private theorem Finding.length_tokens_add_errors (found : List Finding) :
    (found.filterMap token?).length + (found.filterMap error?).length = found.length := by
  induction found with
  | nil => rfl
  | cons finding found ih =>
    cases finding <;> simp [List.filterMap_cons] <;> omega

private theorem length_findings_le (place : Place) (text : List Char) : (findings place text).length ≤ text.length := by
  rw [findings]
  fun_induction Piece.cut text generalizing place with
  | case1 => exact Nat.le_refl 0
  | case2 char rest ih =>
    have shorter := Piece.first_rest_lt char rest
    have behind := ih (place.after (Piece.first char rest).1.text)
    have single := Option.length_toList_le (o := (Piece.first char rest).1.finding? place)
    rw [Piece.findings, List.length_append]
    omega

/-- The scan takes only slices that exist, gets on with each piece it reads, and comes to the end. -/
theorem scan_proceeds (firstLine : Nat) (source : String) :
    (∀ count cursor, Bytewise.Reached source firstLine count cursor →
      cursor.source = source ∧ IsBoundary source.toList cursor.pos ∧ count ≤ source.length ∧
      (cursor.isAtEnd = false → ∃ byte, cursor.peek = some byte ∧
        Bytewise.Proceeds cursor (Bytewise.continue? cursor.pos byte (cursor.step byte)))) ∧
    (∃ count cursor, Bytewise.Reached source firstLine count cursor ∧ cursor.isAtEnd) ∧
    Bytewise.scan? firstLine source = some (scan firstLine source) ∧
    (scan firstLine source).tokens.countP (fun token => token.kind ≠ .eof) +
      (scan firstLine source).errors.length ≤ source.length := by
  refine ⟨?_, ?_, Bytewise.scan?_eq firstLine source, ?_⟩
  · intro count cursor reached
    obtain ⟨rfl, before, after, between, bound⟩ := reached.between
    refine ⟨rfl, ⟨before, after, between.whole, between.placed.symm⟩, ?_, ?_⟩
    · rw [← String.length_toList, between.whole, List.length_append]
      exact Nat.le_add_right_of_le bound
    · intro goesOn
      cases after with
      | nil =>
        rw [between.isAtEnd] at goesOn
        cases goesOn
      | cons char rest =>
        obtain ⟨byte, found, _⟩ := Bytewise.exists_read between
        exact ⟨byte, found, Bytewise.proceeds between found⟩
  · exact Bytewise.Reached.start.exists_end (Cursor.start_between source firstLine)
  · have total := Finding.length_tokens_add_errors (findings ⟨0, firstLine⟩ source.toList)
    have bound := length_findings_le ⟨0, firstLine⟩ source.toList
    rw [String.length_toList] at bound
    have proper := List.countP_le_length (p := fun token : Token => decide (token.kind ≠ .eof))
      (l := (findings ⟨0, firstLine⟩ source.toList).filterMap Finding.token?)
    rw [scan_eq, List.countP_append, List.countP_singleton, if_neg (by simp [Token.eof])]
    dsimp only
    omega

/-- Behind a character of two bytes, a string with one in it. -/
theorem scan_proceeds_string :
    let source := "é\"ö\""
    let cursor : Cursor := ⟨source, 2, 1⟩
    (Bytewise.Reached source 1 1 cursor ∧ cursor.isAtEnd = false) ∧
      ∃ byte, cursor.peek = some byte ∧
        Bytewise.Proceeds cursor (Bytewise.continue? cursor.pos byte (cursor.step byte)) := by
  intro source cursor
  have found : (Cursor.start source 1).peek = some 0xC3 := by decide +kernel
  have moved : (Bytewise.continue? 0 0xC3 ((Cursor.start source 1).step 0xC3)).2 = cursor := by decide +kernel
  have reached : Bytewise.Reached source 1 1 cursor := moved ▸ Bytewise.Reached.start.next found
  have goesOn : cursor.isAtEnd = false := by decide +kernel
  obtain ⟨_, _, _, reads⟩ := (scan_proceeds 1 source).1 1 cursor reached
  exact ⟨⟨reached, goesOn⟩, reads goesOn⟩

end LoxLex
