import LoxLex.Proofs.Findings

/-! The findings of a scan and what it skips tile the source: nothing is lost, read twice or made up. -/

namespace LoxLex
open Text

/-- A stretch of blanks and comments and the text behind it. A comment runs up to a line feed or to
the end of the source. -/
inductive Skipped : List Char → List Char → Prop
  | nil {after : List Char} : Skipped [] after
  | blank {char : Char} {text after : List Char} (layout : isLayout char) (rest : Skipped text after) :
      Skipped (char :: text) after
  | comment {comment text after : List Char} (isComment : IsComment comment)
      (ends : ∀ char ∈ (text ++ after).head?, char = '\n') (rest : Skipped text after) :
      Skipped (comment ++ text) after

/-- Only blanks and comments lie between two offsets of a source. -/
def Span.IsSkipped (gap : Span) (source : List Char) : Prop :=
  ∃ before text after, source = before ++ (text ++ after) ∧
    gap = ⟨byteLength before, byteLength before + byteLength text⟩ ∧ Skipped text after

namespace Finding

@[simp] def span : Finding → Span
  | token found => found.span
  | error found => ⟨found.offset, found.offset + found.length⟩

/-- The text that a finding stands for. -/
def Covers : Finding → List Char → Prop
  | token found, text => found.lexeme = .ofList text ∧ found.kind ≠ .eof
  | error found, text =>
    match found.fault with
    | .unexpectedCharacter => ∃ char, text = [char] ∧ IsForeign char
    | .unterminatedString => ∃ body, text = '"' :: body ∧ '"' ∉ body

/-- The stretches before, between and behind findings, from one offset to another. -/
def gaps (start stop : Nat) : List Finding → List Span
  | [] => [⟨start, stop⟩]
  | finding :: rest => ⟨start, finding.span.start⟩ :: gaps finding.span.stop stop rest

private theorem gaps_eq_cons (found : List Finding) (last : Nat) :
    ∃ stop rest, ∀ start, gaps start last found = ⟨start, stop⟩ :: rest := by
  cases found with
  | nil => exact ⟨last, [], fun _ => rfl⟩
  | cons finding found => exact ⟨finding.span.start, gaps finding.span.stop last found, fun _ => rfl⟩

end Finding

/-- Findings in order, apart from each other, each over its own text, and only blanks and comments
in the gaps. -/
structure Tiles (found : List Finding) (source : List Char) : Prop where
  nonempty : ∀ finding ∈ found, finding.span.start < finding.span.stop
  inside : ∀ finding ∈ found, finding.span.stop ≤ byteLength source
  apart : found.Pairwise fun earlier later => earlier.span.stop ≤ later.span.start
  covers : ∀ finding ∈ found, ∃ text,
    slice? finding.span.start finding.span.stop source = some text ∧ finding.Covers text
  gaps : ∀ gap ∈ Finding.gaps 0 (byteLength source) found, gap.IsSkipped source

namespace Piece

theorem span_of_finding? {piece : Piece} {place : Place} {finding : Finding}
    (found : piece.finding? place = some finding) :
    finding.span = ⟨place.offset, place.offset + byteLength piece.text⟩ := by
  unfold finding? at found
  dsimp only at found
  split at found <;> cases found <;> rfl

private theorem Shape.covers {piece : Piece} {place : Place} {finding : Finding} (shape : piece.Shape)
    (found : piece.finding? place = some finding) : finding.Covers piece.text := by
  cases shape with
  | lexeme lexeme =>
    rw [finding?_lexeme] at found
    cases found
    refine ⟨rfl, ?_⟩
    cases lexeme <;> simp [Lexeme.token, Lexeme.kind]
  | blank | comment => cases found
  | unexpected foreign => cases found; exact ⟨_, rfl, foreign⟩
  | unterminated unquoted => cases found; exact ⟨_, rfl, unquoted⟩

private theorem findings_apart {pieces : List Piece} (divided : Divided pieces) (place : Place) :
    (findings place pieces).Pairwise fun earlier later => earlier.span.stop ≤ later.span.start := by
  induction divided generalizing place with
  | nil => exact .nil
  | @cons piece pieces fits divided ih =>
    cases found : piece.finding? place with
    | none => simpa [findings, found] using ih (place.after piece.text)
    | some finding =>
      simp only [findings, found, Option.toList_some, List.singleton_append, List.pairwise_cons]
      refine ⟨?_, ih _⟩
      intro later member
      obtain ⟨before, other, _, _, _, foundLater⟩ := exists_of_mem_findings divided member
      rw [span_of_finding? found, span_of_finding? foundLater]
      simp [Place.after, Nat.add_assoc]

private theorem Fits.skipped {piece : Piece} {place : Place} {text after : List Char}
    (fits : piece.Fits (text ++ after)) (nothing : piece.finding? place = none)
    (behind : Skipped text after) : Skipped (piece.text ++ text) after := by
  obtain ⟨shape, stops⟩ := fits
  cases shape with
  | lexeme lexeme =>
    rw [finding?_lexeme] at nothing
    cases nothing
  | blank layout => exact .blank layout behind
  | comment isComment =>
    refine .comment isComment ?_ behind
    intro char first
    simpa [Category.continues] using stops.next char first
  | unexpected | unterminated => cases nothing

/-- A blank or comment in front of a gap belongs to it. -/
private theorem gap_extend {source before rest : List Char} {piece : Piece} {place : Place} {stop : Nat}
    (whole : source = before ++ (piece.text ++ rest)) (placed : place.offset = byteLength before)
    (fits : piece.Fits rest) (nothing : piece.finding? place = none)
    (gap : Span.IsSkipped ⟨(place.after piece.text).offset, stop⟩ source) :
    Span.IsSkipped ⟨place.offset, stop⟩ source := by
  obtain ⟨front, text, after, same, ends, skipped⟩ := gap
  obtain ⟨start, stops⟩ := Span.mk.inj ends
  have front_eq : before ++ piece.text = front ∧ rest = text ++ after := by
    apply append_inj_of_byteLength
    · rw [List.append_assoc, ← whole, same]
    · rw [← start, byteLength_append, Place.after, placed]
  obtain ⟨rfl, rfl⟩ := front_eq
  refine ⟨before, piece.text ++ text, after, by simp [whole], ?_, fits.skipped nothing skipped⟩
  simp [placed, stops, Nat.add_assoc]

private theorem gaps_skipped {source : List Char} {pieces : List Piece} (divided : Divided pieces)
    (place : Place) (before : List Char) (whole : source = before ++ pieces.flatMap text)
    (placed : place.offset = byteLength before) :
    ∀ gap ∈ Finding.gaps place.offset (byteLength source) (findings place pieces),
      gap.IsSkipped source := by
  induction divided generalizing place before with
  | nil =>
    intro gap member
    cases List.mem_singleton.mp member
    exact ⟨before, [], [], whole, by simp [placed, whole, byteLength], .nil⟩
  | @cons piece pieces fits divided ih =>
    have later := ih (place.after piece.text) (before ++ piece.text) (by simp [whole])
      (by simp [Place.after, placed])
    intro gap member
    cases found : piece.finding? place with
    | none =>
      obtain ⟨stop, rest, shape⟩ :=
        Finding.gaps_eq_cons (findings (place.after piece.text) pieces) (byteLength source)
      simp only [findings, found, Option.toList_none, List.nil_append, shape] at member
      rw [shape] at later
      rcases List.mem_cons.mp member with rfl | behind
      · exact gap_extend whole placed fits found (later _ List.mem_cons_self)
      · exact later gap (List.mem_cons_of_mem _ behind)
    | some finding =>
      simp only [findings, found, Option.toList_some, List.singleton_append, Finding.gaps,
        span_of_finding? found] at member
      rcases List.mem_cons.mp member with rfl | behind
      · exact ⟨before, [], _, whole, by simp [placed, byteLength], .nil⟩
      · exact later gap behind

end Piece

theorem findings_tile (firstLine : Nat) (source : List Char) :
    Tiles (findings ⟨0, firstLine⟩ source) source := by
  have divided := Piece.divided_cut source
  -- Every finding is a piece at its place, so what it covers is a slice of the source.
  have sliced : ∀ finding ∈ findings ⟨0, firstLine⟩ source, ∃ text,
      slice? finding.span.start finding.span.stop source = some text ∧ finding.Covers text ∧
        finding.span.start < finding.span.stop ∧ finding.span.stop ≤ byteLength source := by
    intro finding member
    obtain ⟨before, piece, after, rfl, fits, found⟩ := exists_piece_of_finding member
    obtain ⟨char, rest, spelled⟩ := List.exists_cons_of_ne_nil fits.text_ne_nil
    have nonempty : 0 < byteLength piece.text := spelled ▸ byteLength_pos char rest
    rw [Piece.span_of_finding? found]
    refine ⟨piece.text, ?_, fits.shape.covers found, ?_, ?_⟩
    · simpa [Place.after] using slice?_append before piece.text after
    · simpa [Place.after] using nonempty
    · simp [Place.after]
  refine ⟨?_, ?_, Piece.findings_apart divided _, ?_, ?_⟩
  · intro finding member
    obtain ⟨_, _, _, nonempty, _⟩ := sliced finding member
    exact nonempty
  · intro finding member
    obtain ⟨_, _, _, _, inside⟩ := sliced finding member
    exact inside
  · intro finding member
    obtain ⟨text, slice, covers, _⟩ := sliced finding member
    exact ⟨text, slice, covers⟩
  · exact Piece.gaps_skipped divided ⟨0, firstLine⟩ [] (Piece.cut_text source).symm rfl

namespace Tiles

variable {found : List Finding} {source : List Char}

private theorem tokens_apart (tiles : Tiles found source) :
    (found.filterMap Finding.token?).Pairwise fun earlier later => earlier.span.stop ≤ later.span.start := by
  apply tiles.apart.filterMap
  intro first second apart token firstToken other secondToken
  cases first <;> cases firstToken
  cases second <;> cases secondToken
  exact apart

private theorem errors_apart (tiles : Tiles found source) :
    (found.filterMap Finding.error?).Pairwise
      fun earlier later => earlier.offset + earlier.length ≤ later.offset := by
  apply tiles.apart.filterMap
  intro first second apart error firstError other secondError
  cases first <;> cases firstError
  cases second <;> cases secondError
  exact apart

end Tiles

/-- Every scan has such a tiling: its tokens and its errors are the findings of either kind in order,
and the token at the end is the only one of its kind. -/
theorem scan_tiles_source (firstLine : Nat) (source : String) :
    ∃ found : List Finding, Tiles found source.toList ∧
      (scan firstLine source).tokens = found.filterMap Finding.token? ++
        [.eof (firstLine + lineFeeds source.toList) source.utf8ByteSize] ∧
      (scan firstLine source).errors = found.filterMap Finding.error? ∧
      (scan firstLine source).tokens.Pairwise
        (fun earlier later => earlier.span.stop ≤ later.span.start) ∧
      (scan firstLine source).errors.Pairwise
        (fun earlier later => earlier.offset + earlier.length ≤ later.offset) := by
  have tiles := findings_tile firstLine source.toList
  rw [scan_eq, Place.after_source]
  refine ⟨findings ⟨0, firstLine⟩ source.toList, tiles, rfl, rfl, ?_, tiles.errors_apart⟩
  refine List.pairwise_append.mpr ⟨tiles.tokens_apart, List.pairwise_singleton .., ?_⟩
  intro token member last atEnd
  cases List.mem_singleton.mp atEnd
  have inside := tiles.inside _ (Finding.mem_tokens.mp member)
  rwa [byteLength_toList] at inside

end LoxLex
