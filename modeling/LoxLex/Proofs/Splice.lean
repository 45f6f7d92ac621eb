import LoxLex.Proofs.Tiling

/-! Edited texts. The front of a division stays where other pieces take the place of the rest, and so
do its findings; each finding belongs to one piece, known by its index among those of its sort. -/

namespace LoxLex
open Text

/-- The piece that a token was read from. -/
def Token.piece (token : Token) : Piece := ⟨.token token.kind, token.lexeme.toList⟩

namespace Piece

theorem eq_piece_of_finding? {piece : Piece} {place : Place} {token : Token}
    (found : piece.finding? place = some (.token token)) : piece = token.piece := by
  unfold finding? at found
  dsimp only at found
  split at found <;> cases found
  next kind category => simp [Token.piece, ← category]

theorem span_of_token {piece : Piece} {place : Place} {token : Token}
    (found : piece.finding? place = some (.token token)) :
    token.span = ⟨place.offset, place.offset + byteLength piece.text⟩ := by
  simpa using span_of_finding? found

theorem Divided.front {front back : List Piece} (divided : Divided (front ++ back)) : Divided front := by
  induction front with
  | nil => exact .nil
  | cons piece front ih =>
    rw [List.cons_append] at divided
    cases divided with
    | cons fits divided =>
      rw [List.flatMap_append] at fits
      exact .cons ⟨fits.shape, fits.stops.of_append⟩ (ih divided)

theorem Divided.back {front back : List Piece} (divided : Divided (front ++ back)) : Divided back := by
  induction front with
  | nil => exact divided
  | cons piece front ih =>
    cases divided with
    | cons _ divided => exact ih divided

theorem Divided.middle {front back : List Piece} {piece : Piece} (divided : Divided (front ++ piece :: back)) :
    piece.Fits (back.flatMap text) ∧ Divided back := by
  cases divided.back with
  | cons fits rest => exact ⟨fits, rest⟩

theorem Divided.eq_nil_of_text {pieces : List Piece} (divided : Divided pieces)
    (empty : pieces.flatMap text = []) : pieces = [] := by
  cases divided with
  | nil => rfl
  | cons fits _ => exact (fits.text_ne_nil (List.append_eq_nil_iff.mp empty).1).elim

/-- Other pieces take the place of the last ones. They meet only the last piece that is kept, and a
digit in front of them only a number that looks past a point. -/
theorem Divided.splice {front back other : List Piece} (divided : Divided (front ++ back))
    (others : Divided other)
    (edge : ∀ last ∈ front.getLast?, last.Stops (back.flatMap text) → last.Stops (other.flatMap text))
    (digits : Halts Char.isDigit (back.flatMap text) → Halts Char.isDigit (other.flatMap text)) :
    Divided (front ++ other) := by
  induction front with
  | nil => exact others
  | cons piece front ih =>
    rw [List.cons_append] at divided ⊢
    cases divided with
    | cons fits divided =>
      obtain ⟨shape, stops⟩ := fits
      have behind : Divided (front ++ other) := by
        refine ih divided ?_
        intro last member
        exact edge last (by simp [List.getLast?_cons, Option.mem_def.mp member])
      refine .cons ⟨shape, ?_⟩ behind
      rw [List.flatMap_append] at stops ⊢
      refine stops.of_append.append_of_edge ?_ ?_
      · intro empty
        have alone := divided.front.eq_nil_of_text empty
        subst alone
        exact edge piece rfl stops
      · intro whole point
        rw [point] at stops
        exact digits (stops.fraction whole _ rfl)

/-- Text behind a source is cut by itself, unless it goes on with the last piece of the source. -/
private theorem cut_append_of_edge {source more : List Char} (edge : ∀ last ∈ (cut source).getLast?, last.Stops more)
    (digits : Halts Char.isDigit more) : cut (source ++ more) = cut source ++ cut more := by
  have joined : Divided (cut source ++ cut more) := by
    have divided : Divided (cut source ++ []) := by simpa using divided_cut source
    refine divided.splice (divided_cut more) ?_ ?_
    · intro last member _
      rw [cut_text]
      exact edge last member
    · intro _
      rwa [cut_text]
  have same := cut_flatMap joined
  rwa [List.flatMap_append, cut_text, cut_text] at same

variable {α : Type} {sort : Finding → Option α}

theorem filterMap_findings_cons (place : Place) (piece : Piece) (pieces : List Piece) :
    (findings place (piece :: pieces)).filterMap sort =
      ((piece.finding? place).bind sort).toList ++
        (findings (place.after piece.text) pieces).filterMap sort := by
  rw [findings, List.filterMap_append]
  cases piece.finding? place with
  | none => rfl
  | some finding => cases same : sort finding <;> simp [same]

/-- Findings of one sort come from pieces in the same order. -/
theorem exists_of_getElem?_findings {pieces : List Piece} {place : Place} {index : Nat} {item : α}
    (found : ((findings place pieces).filterMap sort)[index]? = some item) :
    ∃ (front : List Piece) (piece : Piece) (back : List Piece) (finding : Finding),
      pieces = front ++ piece :: back ∧
      piece.finding? (place.after (front.flatMap text)) = some finding ∧ sort finding = some item ∧
      ((findings place front).filterMap sort).length = index := by
  induction pieces generalizing place index with
  | nil => simp [findings] at found
  | cons first pieces ih =>
    rw [filterMap_findings_cons] at found
    rcases Nat.lt_or_ge index ((first.finding? place).bind sort).toList.length with here | behind
    · rw [List.getElem?_append_left here] at found
      have own : item ∈ ((first.finding? place).bind sort).toList := List.mem_of_getElem? found
      obtain ⟨finding, read, sorted⟩ := Option.bind_eq_some_iff.mp (Option.mem_toList.mp own)
      refine ⟨[], first, pieces, finding, rfl, read, sorted, ?_⟩
      have single := Option.length_toList_le (o := (first.finding? place).bind sort)
      exact (Nat.lt_one_iff.mp (Nat.lt_of_lt_of_le here single)).symm
    · rw [List.getElem?_append_right behind] at found
      obtain ⟨front, piece, back, finding, same, read, sorted, length⟩ := ih found
      refine ⟨first :: front, piece, back, finding, by rw [same]; rfl, ?_, sorted, ?_⟩
      · rw [List.flatMap_cons, Place.after_append, read]
      · rw [filterMap_findings_cons, List.length_append, length]
        omega

theorem getElem?_findings {front back : List Piece} {piece : Piece} {place : Place} {finding : Finding}
    {item : α} (read : piece.finding? (place.after (front.flatMap text)) = some finding)
    (sorted : sort finding = some item) :
    ((findings place (front ++ piece :: back)).filterMap sort)[((findings place front).filterMap sort).length]? =
      some item := by
  rw [findings_append, List.filterMap_append, filterMap_findings_cons, read, Option.bind_some, sorted]
  simp

/-- Pieces have their findings between the place where they begin and the place where they end. -/
theorem span_of_mem_findings {pieces : List Piece} {place : Place} {finding : Finding}
    (divided : Divided pieces) (member : finding ∈ findings place pieces) :
    place.offset ≤ finding.span.start ∧ finding.span.start < finding.span.stop ∧
      finding.span.stop ≤ (place.after (pieces.flatMap text)).offset := by
  obtain ⟨before, piece, after, same, fits, found⟩ := exists_of_mem_findings divided member
  obtain ⟨char, rest, spelled⟩ := List.exists_cons_of_ne_nil fits.text_ne_nil
  have nonempty : 0 < byteLength piece.text := spelled ▸ byteLength_pos char rest
  rw [span_of_finding? found, same]
  simp only [Place.after, byteLength_append]
  omega

end Piece

private theorem findings_append_of_edge {source more : List Char} (place : Place)
    (edge : ∀ last ∈ (Piece.cut source).getLast?, last.Stops more) (digits : Halts Char.isDigit more) :
    findings place (source ++ more) = findings place source ++ findings (place.after source) more := by
  rw [findings, Piece.cut_append_of_edge edge digits, Piece.findings_append, Piece.cut_text]
  rfl

/-- A piece that is put behind a source and does not go on with it is found after all the rest. -/
theorem scan_append_piece {source more : String} {piece : Piece} (firstLine : Nat) (fits : piece.Fits [])
    (spelled : more.toList = piece.text) (edge : ∀ last ∈ (Piece.cut source.toList).getLast?, last.Stops piece.text)
    (digits : Halts Char.isDigit piece.text) :
    let place : Place := ⟨source.utf8ByteSize, firstLine + lineFeeds source.toList⟩
    let stop := place.after piece.text
    ∀ finding, piece.finding? place = some finding →
      scan firstLine (source ++ more) =
        ⟨(scan firstLine source).tokens.dropLast ++ (finding.token?.toList ++ [.eof stop.line stop.offset]),
          (scan firstLine source).errors ++ finding.error?.toList⟩ := by
  intro place stop finding read
  have own := findings_of_fits place fits
  have nothing : findings (place.after piece.text) [] = [] := by
    rw [findings, Piece.cut]
    rfl
  rw [List.append_nil, nothing, List.append_nil, read] at own
  have found := findings_append_of_edge ⟨0, firstLine⟩ edge digits
  rw [Place.after_source, own] at found
  rw [scan_eq, scan_eq, String.toList_append, spelled, found, Place.after_append, Place.after_source]
  simp only [List.filterMap_append, List.dropLast_concat, List.append_assoc]
  cases finding <;> rfl

theorem getElem?_scan_tokens {firstLine : Nat} {source : String} {index : Nat} {token : Token}
    (proper : token.kind ≠ .eof) :
    (scan firstLine source).tokens[index]? = some token ↔
      ((findings ⟨0, firstLine⟩ source.toList).filterMap Finding.token?)[index]? = some token := by
  rw [scan_eq]
  rcases Nat.lt_or_ge index ((findings ⟨0, firstLine⟩ source.toList).filterMap Finding.token?).length
    with inside | behind
  · rw [List.getElem?_append_left inside]
  · rw [List.getElem?_append_right behind, List.getElem?_eq_none behind]
    refine ⟨?_, nofun⟩
    intro last
    cases List.mem_singleton.mp (List.mem_of_getElem? last)
    exact (proper rfl).elim

/-- A token of a scan is one piece of its source, at the place that the pieces before it lead to. -/
theorem exists_cut_of_token {firstLine : Nat} {source : String} {token : Token}
    (member : token ∈ (scan firstLine source).tokens) (proper : token.kind ≠ .eof) :
    ∃ front back, Piece.cut source.toList = front ++ token.piece :: back ∧
      token.piece.finding? (Place.after ⟨0, firstLine⟩ (front.flatMap Piece.text)) = some (.token token) := by
  have found := Finding.mem_tokens.mpr (mem_findings_of_mem_tokens member proper)
  obtain ⟨index, here⟩ := List.getElem?_of_mem found
  obtain ⟨front, piece, back, finding, same, read, sorted, _⟩ := Piece.exists_of_getElem?_findings here
  cases Finding.token?_eq_some.mp sorted
  cases Piece.eq_piece_of_finding? read
  exact ⟨front, back, same, read⟩

end LoxLex
