import LoxLex.Proofs.Encoding
import LoxLex.Proofs.Splice

/-! Only the text of tokens matters. With all other bytes turned into spaces, line feeds excepted, a
source has the same tokens and no errors. -/

namespace LoxLex
open Text

def Span.holds (span : Span) (index : Nat) : Bool := span.start ≤ index && index < span.stop

/-- A byte outside tokens becomes a space, unless it ends a line. -/
def blankByte (tokens : List Token) (index : Nat) (byte : UInt8) : UInt8 :=
  if byte = 0x0A ∨ tokens.any (fun token => token.span.holds index) then byte else 0x20

private theorem any_holds_eq_false {tokens : List Token} {index : Nat}
    (apart : ∀ token ∈ tokens, index < token.span.start ∨ token.span.stop ≤ index) :
    tokens.any (fun token => token.span.holds index) = false := by
  apply List.any_eq_false.mpr
  intro token member
  have outside := apart token member
  simp only [Span.holds, Bool.and_eq_true, decide_eq_true_eq]
  omega

private theorem blankByte_append_left {tokens others : List Token} {index : Nat}
    (apart : ∀ token ∈ others, index < token.span.start ∨ token.span.stop ≤ index) :
    blankByte (tokens ++ others) index = blankByte tokens index := by
  funext byte
  rw [blankByte, List.any_append, any_holds_eq_false apart, Bool.or_false, blankByte]

private theorem blankByte_append_right {others tokens : List Token} {index : Nat}
    (apart : ∀ token ∈ others, index < token.span.start ∨ token.span.stop ≤ index) :
    blankByte (others ++ tokens) index = blankByte tokens index := by
  funext byte
  rw [blankByte, List.any_append, any_holds_eq_false apart, Bool.false_or, blankByte]

private theorem mapIdx_eq_map {α β : Type} {change : Nat → α → β} {same : α → β} {items : List α}
    (alike : ∀ index < items.length, change index = same) : items.mapIdx change = items.map same := by
  apply List.ext_getElem
  · simp
  · intro index inside _
    rw [List.getElem_mapIdx, List.getElem_map, alike index (by simpa using inside)]

/-- As many blanks as the character has bytes. -/
def blanksFor (char : Char) : List Char := if char = '\n' then ['\n'] else List.replicate char.utf8Size ' '

private theorem encode_spaces (count : Nat) : encode (List.replicate count ' ') = List.replicate count 0x20 := by
  induction count with
  | zero => rfl
  | succ count ih =>
    rw [List.replicate_succ, encode_cons, ih]
    rfl

private theorem encode_blanksFor (char : Char) :
    encode (blanksFor char) = (String.utf8EncodeChar char).map (blankByte [] 0) := by
  unfold blanksFor
  split
  next feed =>
    subst feed
    rfl
  next other =>
    rw [encode_spaces]
    symm
    apply List.eq_replicate_iff.mpr
    refine ⟨by simp, ?_⟩
    intro byte member
    obtain ⟨own, inside, rfl⟩ := List.mem_map.mp member
    have noFeed : own ≠ 0x0A := by
      rintro rfl
      exact lineFeed_not_mem_utf8EncodeChar other inside
    simp [blankByte, noFeed]

private theorem encode_flatMap_blanksFor (text : List Char) :
    encode (text.flatMap blanksFor) = (encode text).map (blankByte [] 0) := by
  induction text with
  | nil => rfl
  | cons char rest ih => rw [List.flatMap_cons, encode_append, encode_blanksFor, ih, encode_cons, List.map_append]

private theorem Place.after_flatMap_blanksFor (place : Place) (text : List Char) :
    place.after (text.flatMap blanksFor) = place.after text := by
  have length : byteLength (text.flatMap blanksFor) = byteLength text := by
    rw [← length_encode, encode_flatMap_blanksFor, List.length_map, length_encode]
  have feeds : lineFeeds (text.flatMap blanksFor) = lineFeeds text := by
    rw [← count_encode, encode_flatMap_blanksFor, ← count_encode]
    rw [List.count_eq_countP, List.count_eq_countP, List.countP_map]
    apply List.countP_congr
    intro byte _
    by_cases feed : byte = 0x0A
    · simp [blankByte, feed]
    · simp [blankByte, feed]
  rw [after, after, length, feeds]

private theorem isLayout_of_mem_blanksFor {char blank : Char} (member : blank ∈ blanksFor char) : isLayout blank := by
  unfold blanksFor at member
  split at member
  · cases List.mem_singleton.mp member
    rfl
  · cases List.eq_of_mem_replicate member
    rfl

private theorem isDigit_eq_false_of_isLayout {char : Char} (layout : isLayout char) : char.isDigit = false := by
  rcases isLayout_iff.mp layout with rfl | rfl | rfl | rfl <;> rfl

private theorem blanksFor_ne_nil (char : Char) : blanksFor char ≠ [] := by
  have some := Nat.ne_of_gt char.utf8Size_pos
  unfold blanksFor
  split <;> simp [some]

namespace Piece

private theorem token_or_other (piece : Piece) :
    (∃ kind, piece.category = .token kind) ∨ ∀ kind, piece.category ≠ .token kind := by
  cases piece.category <;> simp

def blanks (text : List Char) : List Piece := text.map fun char => ⟨.blank, [char]⟩

private theorem blanks_text (chars : List Char) : (blanks chars).flatMap text = chars := by
  induction chars with
  | nil => rfl
  | cons char rest ih => exact congrArg (char :: ·) ih

private theorem divided_blanks {chars : List Char} (layout : ∀ char ∈ chars, isLayout char) {pieces : List Piece}
    (divided : Divided pieces) : Divided (blanks chars ++ pieces) := by
  induction chars with
  | nil => exact divided
  | cons char rest ih =>
    obtain ⟨here, later⟩ := List.forall_mem_cons.mp layout
    exact .cons (blank_fits here _) (ih later)

private theorem findings_blanks (place : Place) (chars : List Char) : findings place (blanks chars) = [] := by
  induction chars generalizing place with
  | nil => rfl
  | cons char rest ih => exact ih _

/-- A token as it is, and any other piece as blanks. -/
def blanked (piece : Piece) : List Piece :=
  match piece.category with
  | .token _ => [piece]
  | _ => blanks (piece.text.flatMap blanksFor)

private theorem blanked_of_token {piece : Piece} {kind : Kind} (token : piece.category = .token kind) :
    piece.blanked = [piece] := by
  rw [blanked, token]

private theorem blanked_of_other {piece : Piece} (other : ∀ kind, piece.category ≠ .token kind) :
    piece.blanked = blanks (piece.text.flatMap blanksFor) := by
  unfold blanked
  split
  next kind token => exact (other kind token).elim
  next => rfl

def blankedText (pieces : List Piece) : List Char := (pieces.flatMap blanked).flatMap text

private theorem blankedText_cons_token {piece : Piece} {kind : Kind} (token : piece.category = .token kind)
    (pieces : List Piece) : blankedText (piece :: pieces) = piece.text ++ blankedText pieces := by
  simp [blankedText, blanked_of_token token]

private theorem blankedText_cons_other {piece : Piece} (other : ∀ kind, piece.category ≠ .token kind)
    (pieces : List Piece) :
    blankedText (piece :: pieces) = piece.text.flatMap blanksFor ++ blankedText pieces := by
  simp [blankedText, blanked_of_other other, blanks_text]

private theorem exists_blank_of_other {piece : Piece} {after : List Char} (fits : piece.Fits after)
    (other : ∀ kind, piece.category ≠ .token kind) (pieces : List Piece) :
    ∃ blank rest, isLayout blank ∧ blankedText (piece :: pieces) = blank :: rest := by
  obtain ⟨char, behind, spelled⟩ := List.exists_cons_of_ne_nil fits.text_ne_nil
  obtain ⟨blank, more, first⟩ := List.exists_cons_of_ne_nil (blanksFor_ne_nil char)
  have layout : isLayout blank := isLayout_of_mem_blanksFor (first ▸ List.mem_cons_self)
  refine ⟨blank, more ++ (behind.flatMap blanksFor ++ blankedText pieces), layout, ?_⟩
  rw [blankedText_cons_other other, spelled, List.flatMap_cons, first]
  simp

private theorem digits_blanked {pieces : List Piece} (divided : Divided pieces)
    (halts : Halts Char.isDigit (pieces.flatMap text)) : Halts Char.isDigit (blankedText pieces) := by
  cases divided with
  | nil => exact halts_nil
  | @cons piece pieces fits _ =>
    rcases piece.token_or_other with ⟨kind, category⟩ | other
    · rw [blankedText_cons_token category]
      exact halts.of_append.append_of_ne_nil _ fits.text_ne_nil
    · obtain ⟨blank, rest, layout, same⟩ := exists_blank_of_other fits other pieces
      rw [same]
      exact halts_cons.mpr (isDigit_eq_false_of_isLayout layout)

/-- The blanks end every token that ended before, and other tokens follow as they did. -/
private theorem stops_blanked {last : Piece} {kind : Kind} {pieces : List Piece} (token : last.category = .token kind)
    (divided : Divided pieces) (stops : last.Stops (pieces.flatMap text)) :
    last.Stops (blankedText pieces) := by
  cases divided with
  | nil => exact stops_nil
  | @cons piece pieces fits divided =>
    rcases piece.token_or_other with ⟨kind, category⟩ | other
    · rw [blankedText_cons_token category]
      rw [List.flatMap_cons] at stops
      refine stops.of_append.append_of_edge (fun empty => (fits.text_ne_nil empty).elim) ?_
      intro whole point
      rw [point] at stops
      exact digits_blanked divided (stops.fraction whole _ rfl)
    · obtain ⟨blank, rest, layout, same⟩ := exists_blank_of_other fits other pieces
      rw [same]
      exact token_stops token layout

private theorem divided_blanked {pieces : List Piece} (divided : Divided pieces) :
    Divided (pieces.flatMap blanked) := by
  induction divided with
  | nil => exact .nil
  | @cons piece pieces fits divided ih =>
    rw [List.flatMap_cons]
    rcases piece.token_or_other with ⟨kind, category⟩ | other
    · rw [blanked_of_token category]
      exact .cons ⟨fits.shape, stops_blanked category divided fits.stops⟩ ih
    · rw [blanked_of_other other]
      refine divided_blanks ?_ ih
      intro blank member
      obtain ⟨char, _, inside⟩ := List.mem_flatMap.mp member
      exact isLayout_of_mem_blanksFor inside

private theorem exists_token_of_token {piece : Piece} {kind : Kind} (category : piece.category = .token kind)
    (place : Place) : ∃ token, piece.finding? place = some (.token token) := by
  simp [finding?, category]

private theorem token?_of_other {piece : Piece} (other : ∀ kind, piece.category ≠ .token kind) (place : Place) :
    (piece.finding? place).bind Finding.token? = none := by
  unfold finding?
  dsimp only
  split
  next kind token => exact (other kind token).elim
  all_goals rfl

private theorem findings_blanked (place : Place) (pieces : List Piece) :
    findings place (pieces.flatMap blanked) =
      ((findings place pieces).filterMap Finding.token?).map .token := by
  induction pieces generalizing place with
  | nil => rfl
  | cons piece pieces ih =>
    rw [List.flatMap_cons, filterMap_findings_cons, List.map_append]
    rcases piece.token_or_other with ⟨kind, category⟩ | other
    · obtain ⟨token, found⟩ := exists_token_of_token category place
      rw [blanked_of_token category, List.singleton_append, findings, ih, found]
      rfl
    · rw [blanked_of_other other, findings_append, findings_blanks, blanks_text,
        Place.after_flatMap_blanksFor, ih, token?_of_other other]
      rfl

private theorem after_blankedText (place : Place) (pieces : List Piece) :
    place.after (blankedText pieces) = place.after (pieces.flatMap text) := by
  induction pieces generalizing place with
  | nil => rfl
  | cons piece pieces ih =>
    rw [List.flatMap_cons, Place.after_append]
    rcases piece.token_or_other with ⟨kind, category⟩ | other
    · rw [blankedText_cons_token category, Place.after_append, ih]
    · rw [blankedText_cons_other other, Place.after_append, Place.after_flatMap_blanksFor, ih]

/-- Within a piece only its own token, if it is one, decides on the bytes. -/
private theorem encode_blanked_cons {piece : Piece} {place : Place} {change : Nat → UInt8 → UInt8}
    (pieces : List Piece)
    (own : ∀ index < byteLength piece.text, change index =
      blankByte ((piece.finding? place).bind Finding.token?).toList (place.offset + index)) :
    encode (blankedText (piece :: pieces)) =
      (encode piece.text).mapIdx change ++ encode (blankedText pieces) := by
  rcases piece.token_or_other with ⟨kind, category⟩ | other
  · obtain ⟨token, found⟩ := exists_token_of_token category place
    have kept : ∀ index < (encode piece.text).length, change index = id := by
      intro index inside
      rw [length_encode] at inside
      funext byte
      simp [own index inside, blankByte, found, Span.holds, span_of_token found, inside]
    rw [blankedText_cons_token category, encode_append, mapIdx_eq_map kept, List.map_id]
  · have blank : ∀ index < (encode piece.text).length, change index = blankByte [] 0 := by
      intro index inside
      rw [length_encode] at inside
      rw [own index inside, token?_of_other other]
      rfl
    rw [blankedText_cons_other other, encode_append, encode_flatMap_blanksFor, mapIdx_eq_map blank]

private theorem encode_blanked {pieces : List Piece} (divided : Divided pieces) (place : Place) :
    encode (blankedText pieces) = (encode (pieces.flatMap text)).mapIdx fun index =>
      blankByte ((findings place pieces).filterMap Finding.token?) (place.offset + index) := by
  induction divided generalizing place with
  | nil => rfl
  | @cons piece pieces fits divided ih =>
    let own := ((piece.finding? place).bind Finding.token?).toList
    let later := (findings (place.after piece.text) pieces).filterMap Finding.token?
    have ownEnds : ∀ token ∈ own, token.span.stop = place.offset + byteLength piece.text := by
      intro token member
      obtain ⟨finding, found, same⟩ := Option.bind_eq_some_iff.mp (Option.mem_toList.mp member)
      cases Finding.token?_eq_some.mp same
      rw [span_of_token found]
    have laterBegins : ∀ token ∈ later, place.offset + byteLength piece.text ≤ token.span.start :=
      fun token member => (span_of_mem_findings divided (Finding.mem_tokens.mp member)).1
    have here : ∀ index < byteLength piece.text,
        blankByte (own ++ later) (place.offset + index) = blankByte own (place.offset + index) := by
      intro index inside
      apply blankByte_append_left
      intro token member
      exact .inl (Nat.lt_of_lt_of_le (Nat.add_lt_add_left inside _) (laterBegins token member))
    have there : ∀ index, blankByte (own ++ later) (place.offset + (index + byteLength piece.text)) =
        blankByte later ((place.after piece.text).offset + index) := by
      intro index
      rw [Nat.add_comm index, ← Nat.add_assoc]
      apply blankByte_append_right
      intro token member
      exact .inr (ownEnds token member ▸ Nat.le_add_right ..)
    rw [List.flatMap_cons, encode_append, List.mapIdx_append, filterMap_findings_cons, length_encode,
      encode_blanked_cons pieces here, ih (place.after piece.text)]
    simp only [own, later] at there
    simp only [own, later, there]

end Piece

/-- The blanked source is a text of the same size, with the same tokens at the same places and lines. -/
theorem scan_blanked (firstLine : Nat) (source : String) :
    ∃ blanked : String,
      utf8 blanked = (utf8 source).mapIdx (blankByte (scan firstLine source).tokens) ∧
      blanked.utf8ByteSize = source.utf8ByteSize ∧
      scan firstLine blanked = ⟨(scan firstLine source).tokens, []⟩ := by
  let pieces := Piece.cut source.toList
  have divided : Piece.Divided pieces := Piece.divided_cut source.toList
  have found : findings ⟨0, firstLine⟩ (Piece.blankedText pieces) =
      ((findings ⟨0, firstLine⟩ source.toList).filterMap Finding.token?).map .token := by
    rw [findings, Piece.blankedText, Piece.cut_flatMap (Piece.divided_blanked divided)]
    exact Piece.findings_blanked ⟨0, firstLine⟩ pieces
  have stop : Place.after ⟨0, firstLine⟩ (Piece.blankedText pieces) =
      Place.after ⟨0, firstLine⟩ source.toList := by
    rw [Piece.after_blankedText, Piece.cut_text]
  have bytes : utf8 (.ofList (Piece.blankedText pieces)) =
      (utf8 source).mapIdx (blankByte (scan firstLine source).tokens) := by
    rw [utf8_ofList, Piece.encode_blanked divided ⟨0, firstLine⟩, Piece.cut_text, ← utf8_eq, scan_eq]
    congr 1
    funext index
    symm
    rw [Nat.zero_add]
    apply blankByte_append_left
    intro token last
    cases List.mem_singleton.mp last
    exact Nat.lt_or_ge ..
  refine ⟨.ofList (Piece.blankedText pieces), bytes, ?_, ?_⟩
  · rw [← length_utf8, bytes, List.length_mapIdx, length_utf8]
  · rw [scan_eq, scan_eq, String.toList_ofList, found, stop]
    simp only [Finding.tokens_of_tokens, Finding.errors_of_tokens]

end LoxLex
