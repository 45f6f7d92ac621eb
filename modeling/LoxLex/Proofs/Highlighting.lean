import LoxLex.Prompt.Editor
import LoxLex.Proofs.Splice
import LoxLex.Proofs.Terminal

/-! A line at the prompt and its picture. A terminal shows every character of the line, in order, in the
style of the token that covers it, and no style outlasts its token. -/

namespace LoxLex
open Text

def Kind.style : Kind → Style
  | .keyword _ => { bold := true, colour := some .blue }
  | .string => { colour := some .green }
  | .number => { colour := some .yellow }
  | .identifier => {}
  | .symbol _ | .eof => { colour := some .cyan }

/-- The style of what no token covers. -/
def dimmed : Style := { colour := some .brightBlack }

/-- A token covers the character that begins at a byte offset. -/
def Token.CoversAt (token : Token) (offset : Nat) : Prop :=
  token.span.start ≤ offset ∧ offset < token.span.stop

instance (token : Token) (offset : Nat) : Decidable (token.CoversAt offset) :=
  inferInstanceAs (Decidable (_ ∧ _))

/-- Characters shown for a line, each in the style of the token that covers it, or dimmed. -/
structure IsPicture (shown : List (Char × Style)) (line : List Char) (tokens : List Token) : Prop where
  characters : shown.map Prod.fst = line
  covered : ∀ before char after, line = before ++ char :: after →
    ∀ token ∈ tokens, token.CoversAt (byteLength before) →
      shown[before.length]? = some (char, token.kind.style)
  uncovered : ∀ before char after, line = before ++ char :: after →
    (∀ token ∈ tokens, ¬ token.CoversAt (byteLength before)) →
      shown[before.length]? = some (char, dimmed)

namespace Piece

def style (piece : Piece) : Style :=
  match piece.category with
  | .token kind => kind.style
  | _ => dimmed

/-- The characters of pieces, each in the style of its piece. -/
def picture (pieces : List Piece) : List (Char × Style) :=
  pieces.flatMap fun piece => piece.text.map (·, piece.style)

private theorem style_of_token {piece : Piece} {place : Place} {token : Token}
    (found : piece.finding? place = some (.token token)) : piece.style = token.kind.style := by
  rw [eq_piece_of_finding? found]
  rfl

private theorem exists_token_or_dimmed (piece : Piece) (place : Place) :
    (∃ token, piece.finding? place = some (.token token)) ∨
      ((piece.finding? place).bind Finding.token? = none ∧ piece.style = dimmed) := by
  unfold finding? style
  cases piece.category with
  | token kind => exact .inl ⟨_, rfl⟩
  | blank | comment | unexpected | unterminated => exact .inr ⟨rfl, rfl⟩

private theorem map_fst_picture (pieces : List Piece) : (picture pieces).map Prod.fst = pieces.flatMap text := by
  simp [picture, List.map_flatMap, Function.comp_def]

private theorem length_picture (pieces : List Piece) : (picture pieces).length = (pieces.flatMap text).length := by
  rw [← map_fst_picture, List.length_map]

private theorem exists_piece_at {pieces : List Piece} {before after : List Char} {char : Char}
    (whole : pieces.flatMap text = before ++ char :: after) :
    ∃ front piece back inner rest, pieces = front ++ piece :: back ∧ piece.text = inner ++ char :: rest ∧
      before = front.flatMap text ++ inner := by
  induction pieces generalizing before with
  | nil => simp at whole
  | cons first pieces ih =>
    have later (behind : List Char) (whole : pieces.flatMap text = behind ++ char :: after) :
        ∃ front piece back inner rest, first :: pieces = front ++ piece :: back ∧
          piece.text = inner ++ char :: rest ∧ first.text ++ behind = front.flatMap text ++ inner := by
      obtain ⟨front, piece, back, inner, rest, rfl, inside, rfl⟩ := ih whole
      exact ⟨first :: front, piece, back, inner, rest, rfl, inside, by simp⟩
    rcases List.append_eq_append_iff.mp whole with ⟨behind, rfl, same⟩ | ⟨own, inside, same⟩
    · exact later behind same
    · cases own with
      | nil =>
        rw [List.append_nil] at inside
        have found := later [] same.symm
        rwa [List.append_nil, inside] at found
      | cons next own =>
        obtain ⟨rfl, _⟩ := List.cons.inj same
        exact ⟨[], first, pieces, before, own, rfl, inside, rfl⟩

/-- Two pieces of one division over the same byte are one piece. -/
private theorem eq_of_overlap {front back others behind : List Piece} {piece other : Piece} {offset : Nat}
    (same : front ++ piece :: back = others ++ other :: behind)
    (inside : byteLength (front.flatMap text) ≤ offset)
    (within : offset < byteLength (front.flatMap text) + byteLength piece.text)
    (otherInside : byteLength (others.flatMap text) ≤ offset)
    (otherWithin : offset < byteLength (others.flatMap text) + byteLength other.text) : piece = other := by
  rcases List.append_eq_append_iff.mp same with ⟨more, rfl, rest⟩ | ⟨more, rfl, rest⟩
  · cases more with
    | nil => exact (List.cons.inj rest).1
    | cons next more =>
      obtain ⟨rfl, _⟩ := List.cons.inj rest
      simp only [List.flatMap_append, List.flatMap_cons, byteLength_append] at otherInside
      omega
  · cases more with
    | nil => exact (List.cons.inj rest).1.symm
    | cons next more =>
      obtain ⟨rfl, _⟩ := List.cons.inj rest
      simp only [List.flatMap_append, List.flatMap_cons, byteLength_append] at inside
      omega

end Piece

open Prompt

private theorem paintToken_shows {token : Token} (absent : Terminal.escape ∉ token.lexeme.toList) :
    Shows {} (paintToken token).toList (token.lexeme.toList.map (·, token.kind.style)) {} := by
  unfold paintToken
  cases token.kind with
  | keyword => exact .bold (.paint absent .blue rfl)
  | string => exact .paint absent .green rfl
  | number => exact .paint absent .yellow rfl
  | identifier => exact .plain absent {}
  | symbol | eof => exact .paint absent .cyan rfl

private theorem paintGap_shows {gap : List Char} (absent : Terminal.escape ∉ gap) :
    Shows {} (paintGap gap).toList (gap.map (·, dimmed)) {} := by
  cases gap with
  | nil => exact .nil {}
  | cons char rest =>
    rw [← String.toList_ofList (l := char :: rest)] at absent
    have painted : Shows {} _ _ {} := .paint absent .brightBlack rfl
    rwa [String.toList_ofList] at painted

private theorem paintFrom?_cons {start : Nat} {gap rest : List Char} {token : Token} {tokens : List Token}
    {strips : List String} (begins : token.span.start = start + byteLength gap)
    (ends : token.span.stop = token.span.start + byteLength token.lexeme.toList)
    (painted : paintFrom? token.span.stop rest tokens = some strips) :
    paintFrom? start (gap ++ (token.lexeme.toList ++ rest)) (token :: tokens) =
      some (paintGap gap :: paintToken token :: strips) := by
  have before : token.span.start - start = byteLength gap := by omega
  have own : token.span.stop - token.span.start = byteLength token.lexeme.toList := by omega
  rw [paintFrom?, before, own, splitAt?_append]
  change (splitAt? _ (token.lexeme.toList ++ rest)).bind _ = _
  rw [splitAt?_append]
  change (paintFrom? token.span.stop rest tokens).bind _ = _
  rw [painted]
  rfl

private theorem exists_paintFrom? {place : Place} {pieces : List Piece} {start : Nat} {gap : List Char}
    (placed : place.offset = start + byteLength gap)
    (absent : Terminal.escape ∉ gap ++ pieces.flatMap Piece.text) :
    ∃ strips, paintFrom? start (gap ++ pieces.flatMap Piece.text)
        ((Piece.findings place pieces).filterMap Finding.token?) = some strips ∧
      Shows {} (String.join strips).toList (gap.map (·, dimmed) ++ Piece.picture pieces) {} := by
  induction pieces generalizing place start gap with
  | nil =>
    rw [List.flatMap_nil, List.append_nil] at absent ⊢
    refine ⟨[paintGap gap], rfl, ?_⟩
    simpa [Piece.picture] using paintGap_shows absent
  | cons piece pieces ih =>
    rw [List.flatMap_cons] at absent ⊢
    rw [Piece.filterMap_findings_cons]
    rcases piece.exists_token_or_dimmed place with ⟨token, found⟩ | ⟨nothing, dim⟩
    · have span := Piece.span_of_token found
      have lexeme : piece.text = token.lexeme.toList := by
        rw [Piece.eq_piece_of_finding? found]
        rfl
      simp only [List.mem_append, not_or] at absent
      obtain ⟨gapAbsent, ownAbsent, restAbsent⟩ := absent
      have behind : (place.after piece.text).offset = token.span.stop + byteLength [] := by
        simp [span, Place.after, byteLength]
      obtain ⟨strips, painted, shows⟩ := ih behind (by simpa using restAbsent)
      rw [found, lexeme]
      refine ⟨paintGap gap :: paintToken token :: strips, paintFrom?_cons ?_ ?_ ?_, ?_⟩
      · simpa [span] using placed
      · simp [span, lexeme]
      · rwa [← lexeme]
      · have ownShows := paintToken_shows (lexeme ▸ ownAbsent)
        rw [← lexeme, ← Piece.style_of_token found] at ownShows
        have all := (paintGap_shows gapAbsent).append (ownShows.append shows)
        simpa [Piece.picture] using all
    · -- What is no token makes the gap longer.
      have behind : (place.after piece.text).offset = start + byteLength (gap ++ piece.text) := by
        simp [Place.after, placed, Nat.add_assoc]
      rw [← List.append_assoc] at absent
      obtain ⟨strips, painted, shows⟩ := ih behind absent
      rw [nothing, Option.toList_none, List.nil_append, ← List.append_assoc]
      refine ⟨strips, painted, ?_⟩
      simpa [Piece.picture, dim] using shows

private theorem exists_highlight? {line : String} (absent : Terminal.escape ∉ line.toList) :
    ∃ painted, highlight? line = some painted ∧
      Shows {} painted.toList (Piece.picture (Piece.cut line.toList)) {} := by
  have start : (⟨0, 1⟩ : Place).offset = 0 + byteLength [] := rfl
  have clear : Terminal.escape ∉ [] ++ (Piece.cut line.toList).flatMap Piece.text := by
    rwa [List.nil_append, Piece.cut_text]
  obtain ⟨strips, painted, shows⟩ := exists_paintFrom? start clear
  rw [List.nil_append, Piece.cut_text] at painted
  refine ⟨String.join strips, ?_, shows⟩
  rw [highlight?, lex, Lexer.lex, filter_tokens_scan]
  exact congrArg (Option.map String.join) painted

private theorem kind_ne_eof_of_coversAt {firstLine offset : Nat} {source : String} {token : Token}
    (member : token ∈ (scan firstLine source).tokens) (covers : token.CoversAt offset) : token.kind ≠ .eof := by
  rw [scan_eq] at member
  rcases List.mem_append.mp member with found | last
  · exact kind_ne_eof_of_mem_findings (Finding.mem_tokens.mp found)
  · cases List.mem_singleton.mp last
    exact absurd covers.2 (Nat.not_lt_of_le covers.1)

private theorem exists_shown {source : String} {before after : List Char} {char : Char}
    (whole : source.toList = before ++ char :: after) :
    ∃ front piece back, Piece.cut source.toList = front ++ piece :: back ∧
      byteLength (front.flatMap Piece.text) ≤ byteLength before ∧
      byteLength before < byteLength (front.flatMap Piece.text) + byteLength piece.text ∧
      (Piece.picture (Piece.cut source.toList))[before.length]? = some (char, piece.style) := by
  rw [← Piece.cut_text source.toList] at whole
  obtain ⟨front, piece, back, inner, rest, same, inside, rfl⟩ := Piece.exists_piece_at whole
  have picture : Piece.picture (front ++ piece :: back) =
      (Piece.picture front ++ inner.map (·, piece.style)) ++ (char, piece.style) ::
        (rest.map (·, piece.style) ++ Piece.picture back) := by
    simp [Piece.picture, inside]
  have length : (Piece.picture front ++ inner.map (·, piece.style)).length =
      (front.flatMap Piece.text ++ inner).length := by
    simp [Piece.length_picture]
  have positive := byteLength_pos char rest
  refine ⟨front, piece, back, same, ?_, ?_, ?_⟩
  · rw [byteLength_append]
    exact Nat.le_add_right ..
  · rw [inside, byteLength_append, byteLength_append]
    omega
  · rw [same, picture, ← length, List.getElem?_append_right (Nat.le_refl _), Nat.sub_self]
    rfl

private theorem picture_isPicture (firstLine : Nat) (source : String) :
    IsPicture (Piece.picture (Piece.cut source.toList)) source.toList (scan firstLine source).tokens := by
  refine ⟨by rw [Piece.map_fst_picture, Piece.cut_text], ?_, ?_⟩
  · intro before char after whole token member covers
    obtain ⟨front, piece, back, same, begins, ends, shown⟩ := exists_shown whole
    obtain ⟨others, behind, cut, found⟩ := exists_cut_of_token member (kind_ne_eof_of_coversAt member covers)
    obtain ⟨otherBegins, otherEnds⟩ := covers
    rw [Piece.span_of_token found] at otherBegins otherEnds
    simp only [Place.after, Nat.zero_add] at otherBegins otherEnds
    have one : piece = token.piece :=
      Piece.eq_of_overlap (same.symm.trans cut) begins ends otherBegins otherEnds
    rw [shown, one]
    rfl
  · intro before char after whole alone
    obtain ⟨front, piece, back, same, begins, ends, shown⟩ := exists_shown whole
    rcases piece.exists_token_or_dimmed (Place.after ⟨0, firstLine⟩ (front.flatMap Piece.text)) with
      ⟨token, found⟩ | ⟨_, dim⟩
    · have listed : token ∈ (scan firstLine source).tokens := by
        rw [scan_eq, findings, same]
        apply List.mem_append_left
        exact List.mem_of_getElem? (Piece.getElem?_findings found rfl)
      have span := Piece.span_of_token found
      refine (alone token listed ⟨?_, ?_⟩).elim
      · simpa [span, Place.after] using begins
      · simpa [span, Place.after] using ends
    · rw [shown, dim]

/-- The picture of a line shows its characters in the styles of its tokens, and leaves no style behind. In
the line editor commands have no colours, and every line has its characters. -/
theorem highlight_faithful (line : String) (absent : Terminal.escape ∉ line.toList) :
    (∃ painted shown, highlight? line = some painted ∧
      Terminal.display? painted = some ⟨.text, {}, shown⟩ ∧ IsPicture shown line.toList (lex line).tokens) ∧
    ∃ painted shown, Editor.highlight? line = some painted ∧
      Terminal.display? painted = some ⟨.text, {}, shown⟩ ∧ shown.map Prod.fst = line.toList := by
  obtain ⟨painted, found, shows⟩ := exists_highlight? absent
  have picture := picture_isPicture Lexer.new.firstLine line
  refine ⟨⟨painted, _, found, shows.display?, picture⟩, ?_⟩
  rw [Editor.highlight?]
  split
  · exact ⟨line, _, rfl, (Shows.plain absent {}).display?, by simp [Function.comp_def]⟩
  · exact ⟨painted, _, found, shows.display?, picture.characters⟩

/-- Behind a character of two bytes, a keyword is bold; the quote of an open string is dimmed. -/
theorem highlight_faithful_keyword :
    let line := "é if \"@"
    Terminal.escape ∉ line.toList ∧
      ∃ painted shown, highlight? line = some painted ∧
        Terminal.display? painted = some ⟨.text, {}, shown⟩ ∧ shown.map Prod.fst = line.toList ∧
        shown[3]? = some ('f', { bold := true, colour := some .blue }) ∧ shown[5]? = some ('"', dimmed) := by
  intro line
  have absent : Terminal.escape ∉ line.toList := by decide
  obtain ⟨⟨painted, shown, found, display, picture⟩, _⟩ := highlight_faithful line absent
  have listed : (⟨.keyword .kwIf, "if", .none, 1, ⟨3, 5⟩⟩ : Token) ∈ (lex line).tokens := by decide +kernel
  have keyword := picture.covered ['é', ' ', 'i'] 'f' [' ', '"', '@'] (by decide) _ listed (by decide)
  have quote := picture.uncovered ['é', ' ', 'i', 'f', ' '] '"' ['@'] (by decide) (by decide +kernel)
  exact ⟨absent, painted, shown, found, display, picture.characters, keyword, quote⟩

end LoxLex
