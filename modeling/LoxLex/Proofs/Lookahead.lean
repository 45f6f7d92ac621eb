import LoxLex.Proofs.Splice

/-! Text put behind a source leaves alone what ends before the source does, with one exception: a digit
goes on with a number that has only a point behind it. -/

namespace LoxLex
open Text

/-- A number without a fraction, with a point behind it that ends the source. -/
def Token.AwaitsFraction (token : Token) (source : List Char) : Prop :=
  token.kind = .number ∧ '.' ∉ token.lexeme.toList ∧
    ∃ before, source = before ++ ['.'] ∧ token.span.stop = byteLength before

/-- A piece with text behind it is settled, unless that text is one point and the piece a number that
looks past it. -/
private theorem cut_append_of_settled {front back : List Piece} {piece : Piece} {source : List Char}
    (same : Piece.cut source = front ++ piece :: back) (nonempty : back.flatMap Piece.text ≠ [])
    (more : List Char)
    (settled : piece.IsWhole → back.flatMap Piece.text = ['.'] → Halts Char.isDigit more) :
    Piece.cut (source ++ more) = front ++ piece :: Piece.cut (back.flatMap Piece.text ++ more) := by
  have spelled := Piece.cut_text source
  have divided := Piece.divided_cut source
  rw [same] at spelled divided
  have longer : Piece.Divided ((front ++ [piece]) ++ Piece.cut (back.flatMap Piece.text ++ more)) := by
    have whole : Piece.Divided ((front ++ [piece]) ++ back) := by simpa using divided
    refine whole.splice (Piece.divided_cut _) ?_ ?_
    · intro last member stops
      have final : last = piece := by simpa using member.symm
      subst final
      rw [Piece.cut_text]
      exact stops.append_of_edge (fun empty => (nonempty empty).elim) settled
    · intro halts
      rw [Piece.cut_text]
      exact halts.append_of_ne_nil more nonempty
  have joined := Piece.cut_flatMap longer
  rw [List.append_cons, ← joined, ← spelled]
  simp [Piece.cut_text]

private theorem findings_append_of_settled {α : Type} {sort : Finding → Option α} {place : Place}
    {source : List Char} {index : Nat} {item : α}
    (found : ((findings place source).filterMap sort)[index]? = some item) :
    ∃ (before : List Char) (piece : Piece) (after : List Char) (finding : Finding),
      source = before ++ (piece.text ++ after) ∧ piece.finding? (place.after before) = some finding ∧
      sort finding = some item ∧
      ∀ more, finding.span.stop < (place.after source).offset →
        (piece.IsWhole → after = ['.'] → Halts Char.isDigit more) →
        ((findings place (source ++ more)).filterMap sort)[index]? = some item := by
  obtain ⟨front, piece, back, finding, same, read, sorted, count⟩ := Piece.exists_of_getElem?_findings found
  have spelled := Piece.cut_text source
  rw [same, List.flatMap_append, List.flatMap_cons] at spelled
  refine ⟨front.flatMap Piece.text, piece, back.flatMap Piece.text, finding, spelled.symm, read, sorted, ?_⟩
  intro more ends settled
  have nonempty : back.flatMap Piece.text ≠ [] := by
    intro empty
    rw [Piece.span_of_finding? read, ← spelled, empty, List.append_nil, Place.after_append] at ends
    exact Nat.lt_irrefl _ ends
  rw [findings, cut_append_of_settled same nonempty more settled, ← count]
  exact Piece.getElem?_findings read sorted

private theorem awaitsFraction_iff {before after : List Char} {token : Token} {place : Place}
    (placed : place.offset = byteLength before) (found : token.piece.finding? place = some (.token token)) :
    token.AwaitsFraction (before ++ (token.lexeme.toList ++ after)) ↔ token.piece.IsWhole ∧ after = ['.'] := by
  have stop : token.span.stop = byteLength (before ++ token.lexeme.toList) := by
    rw [Piece.span_of_token found, placed, byteLength_append]
    rfl
  constructor
  · rintro ⟨number, pointless, front, same, ends⟩
    rw [← List.append_assoc] at same
    obtain ⟨_, point⟩ := append_inj_of_byteLength same (by rw [← stop, ends])
    exact ⟨⟨by rw [Token.piece, number], pointless⟩, point⟩
  · rintro ⟨⟨number, pointless⟩, rfl⟩
    exact ⟨by simpa [Token.piece] using number, pointless, _, by simp, stop⟩

/-- A token is found only where the text behind it does not go on with it. -/
private theorem stops_of_mem_findings {firstLine : Nat} {source before after : List Char} {token : Token}
    (member : .token token ∈ findings ⟨0, firstLine⟩ source)
    (same : source = before ++ (token.lexeme.toList ++ after)) (placed : token.span.start = byteLength before) :
    token.piece.Stops after := by
  obtain ⟨front, piece, behind, whole, fits, found⟩ := exists_piece_of_finding member
  cases Piece.eq_piece_of_finding? found
  have start : token.span.start = byteLength front := by
    rw [Piece.span_of_token found]
    simp [Place.after]
  rw [same] at whole
  obtain ⟨_, rest⟩ := append_inj_of_byteLength whole (by rw [← placed, start])
  rw [List.append_cancel_left rest]
  exact fits.stops

private theorem getElem?_tokens_append {firstLine : Nat} {source : List Char} {index : Nat} {token : Token}
    (found : ((findings ⟨0, firstLine⟩ source).filterMap Finding.token?)[index]? = some token)
    (ends : token.span.stop < byteLength source) (more : List Char) :
    ((findings ⟨0, firstLine⟩ (source ++ more)).filterMap Finding.token?)[index]? = some token ↔
      ¬ (token.AwaitsFraction source ∧ more.head?.any Char.isDigit) := by
  obtain ⟨before, piece, after, finding, same, read, sorted, longer⟩ := findings_append_of_settled found
  cases Finding.token?_eq_some.mp sorted
  cases Piece.eq_piece_of_finding? read
  have awaits : token.AwaitsFraction source ↔ token.piece.IsWhole ∧ after = ['.'] := by
    rw [same]
    exact awaitsFraction_iff (by simp [Place.after]) read
  constructor
  · rintro kept ⟨awaiting, digit⟩
    obtain ⟨whole, rfl⟩ := awaits.mp awaiting
    have behind : source ++ more = before ++ (token.lexeme.toList ++ '.' :: more) := by
      simp [same, Token.piece]
    have placed : token.span.start = byteLength before := by
      rw [Piece.span_of_token read]
      simp [Place.after]
    have stops := stops_of_mem_findings (Finding.mem_tokens.mp (List.mem_of_getElem? kept)) behind placed
    exact halts_iff_not_any.mp (stops.fraction whole more rfl) digit
  · intro settled
    refine longer more (by simpa [Place.after] using ends) ?_
    intro whole point
    rw [halts_iff_not_any]
    intro digit
    exact settled ⟨awaits.mpr ⟨whole, point⟩, digit⟩

private theorem getElem?_errors_append {firstLine : Nat} {source : List Char} {index : Nat} {error : LexError}
    (found : ((findings ⟨0, firstLine⟩ source).filterMap Finding.error?)[index]? = some error)
    (ends : error.offset + error.length < byteLength source) (more : List Char) :
    ((findings ⟨0, firstLine⟩ (source ++ more)).filterMap Finding.error?)[index]? = some error := by
  obtain ⟨before, piece, after, finding, same, read, sorted, longer⟩ := findings_append_of_settled found
  cases Finding.error?_eq_some.mp sorted
  refine longer more (by simpa [Place.after] using ends) ?_
  rintro ⟨number, _⟩
  rw [Piece.finding?, number] at read
  cases read

/-- What ends before its source does is in the same place of its list whatever text follows, but for a
number that gets a fraction. -/
theorem scan_append_settled (firstLine : Nat) (source more : String) :
    (∀ (index : Nat) (token : Token), (scan firstLine source).tokens[index]? = some token →
      token.kind ≠ .eof → token.span.stop < source.utf8ByteSize →
      ((scan firstLine (source ++ more)).tokens[index]? = some token ↔
        ¬ (token.AwaitsFraction source.toList ∧ more.toList.head?.any Char.isDigit))) ∧
    ∀ (index : Nat) (error : LexError), (scan firstLine source).errors[index]? = some error →
      error.offset + error.length < source.utf8ByteSize →
      (scan firstLine (source ++ more)).errors[index]? = some error := by
  refine ⟨?_, ?_⟩
  · intro index token found proper ends
    rw [getElem?_scan_tokens proper] at found ⊢
    rw [← byteLength_toList] at ends
    rw [String.toList_append]
    exact getElem?_tokens_append found ends more.toList
  · intro index error found ends
    rw [scan_eq] at found ⊢
    rw [← byteLength_toList] at ends
    rw [String.toList_append]
    exact getElem?_errors_append found ends more.toList

/-- The number stays when a second point follows, and is another one when a digit does. -/
theorem scan_append_settled_point :
    let source := "@é\n12."
    let number : Token := ⟨.number, "12", .number ⟨0x4028000000000000⟩, 4, ⟨4, 6⟩⟩
    let mistake : LexError := ⟨.unexpectedCharacter, 3, 1, 2⟩
    ((scan 3 source).tokens[0]? = some number ∧ number.kind ≠ .eof ∧
        number.span.stop < source.utf8ByteSize) ∧
      ((scan 3 source).errors[1]? = some mistake ∧ mistake.offset + mistake.length < source.utf8ByteSize) ∧
      (scan 3 (source ++ ".5")).tokens[0]? = some number ∧
      (scan 3 (source ++ "5")).tokens[0]? ≠ some number ∧
      (scan 3 (source ++ "5")).errors[1]? = some mistake := by
  intro source number mistake
  have found : (scan 3 source).tokens[0]? = some number := by decide +kernel
  have proper : number.kind ≠ .eof := by decide
  have ends : number.span.stop < source.utf8ByteSize := by decide
  have noted : (scan 3 source).errors[1]? = some mistake := by decide +kernel
  have before : mistake.offset + mistake.length < source.utf8ByteSize := by decide
  have awaiting : number.AwaitsFraction source.toList :=
    ⟨rfl, by decide, "@é\n12".toList, by decide, by decide⟩
  have second := (scan_append_settled 3 source ".5").1 0 number found proper ends
  have digit := (scan_append_settled 3 source "5").1 0 number found proper ends
  refine ⟨⟨found, proper, ends⟩, ⟨noted, before⟩, second.mpr ?_, ?_, ?_⟩
  · rintro ⟨_, digitNext⟩
    exact absurd digitNext (by decide)
  · intro kept
    exact digit.mp kept ⟨awaiting, by decide⟩
  · exact (scan_append_settled 3 source "5").2 1 mistake noted before

end LoxLex
