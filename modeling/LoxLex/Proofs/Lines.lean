import LoxLex.Proofs.Encoding
import LoxLex.Proofs.Splice
import LoxLex.Proofs.Walking

/-! Line numbers. Each token and each error has the number of the first line and the line feeds up to
its end, wherever those are: between tokens, in strings or in an open string. -/

namespace LoxLex
open Text

/-- The line on which the byte at an offset is, counted by the line feeds before it. -/
def lineAt (firstLine : Nat) (source : String) (offset : Nat) : Nat :=
  firstLine + ((utf8 source).take offset).count 0x0A

private theorem lineAt_mono (firstLine : Nat) (source : String) {offset later : Nat} (behind : offset ≤ later) :
    lineAt firstLine source offset ≤ lineAt firstLine source later :=
  Nat.add_le_add_left ((List.take_sublist_take_left behind).count_le 0x0A) firstLine

theorem lineAt_of_append (firstLine : Nat) {source : String} {before after : List Char}
    (whole : source.toList = before ++ after) :
    lineAt firstLine source (byteLength before) = firstLine + lineFeeds before := by
  rw [lineAt, utf8_eq, whole, take_encode_append, count_encode]

def Finding.line : Finding → Nat
  | token found => found.line
  | error found => found.line

/-- Whatever a piece is, it is on the line where the piece ends. -/
theorem Piece.line_of_finding? {piece : Piece} {place : Place} {finding : Finding}
    (found : piece.finding? place = some finding) : finding.line = (place.after piece.text).line := by
  unfold finding? at found
  dsimp only at found
  split at found <;> cases found <;> rfl

private theorem line_of_mem_findings {firstLine : Nat} {source : String} {finding : Finding}
    (member : finding ∈ findings ⟨0, firstLine⟩ source.toList) :
    finding.line = lineAt firstLine source finding.span.stop := by
  obtain ⟨before, piece, after, whole, _, found⟩ := exists_piece_of_finding member
  rw [← List.append_assoc] at whole
  have counted := lineAt_of_append firstLine whole
  rw [Piece.line_of_finding? found, Piece.span_of_finding? found, ← Place.after_append]
  simpa [Place.after] using counted.symm

/-- All that a scan lists, in the order in which it is found. -/
def allFindings (firstLine : Nat) (source : String) : List Finding :=
  findings ⟨0, firstLine⟩ source.toList ++
    [.token (.eof (lineAt firstLine source source.utf8ByteSize) source.utf8ByteSize)]

private theorem line_of_mem_allFindings {firstLine : Nat} {source : String} {finding : Finding}
    (member : finding ∈ allFindings firstLine source) :
    finding.line = lineAt firstLine source finding.span.stop := by
  rcases List.mem_append.mp member with found | last
  · exact line_of_mem_findings found
  · cases List.mem_singleton.mp last
    rfl

private theorem allFindings_ordered (firstLine : Nat) (source : String) :
    (allFindings firstLine source).Pairwise fun earlier later =>
      earlier.span.start < later.span.start ∧ earlier.line ≤ later.line := by
  have tiles := findings_tile firstLine source.toList
  have apart : (allFindings firstLine source).Pairwise fun earlier later =>
      earlier.span.start < later.span.start ∧ earlier.span.stop ≤ later.span.stop := by
    refine List.pairwise_append.mpr ⟨?_, List.pairwise_singleton .., ?_⟩
    · refine tiles.apart.imp_of_mem ?_
      intro earlier later member behind before
      have first := tiles.nonempty earlier member
      have second := tiles.nonempty later behind
      omega
    · intro finding member last atEnd
      cases List.mem_singleton.mp atEnd
      have nonempty := tiles.nonempty finding member
      have inside := tiles.inside finding member
      rw [byteLength_toList] at inside
      exact ⟨Nat.lt_of_lt_of_le nonempty inside, inside⟩
  refine apart.imp_of_mem ?_
  intro earlier later member behind ⟨before, ends⟩
  refine ⟨before, ?_⟩
  rw [line_of_mem_allFindings member, line_of_mem_allFindings behind]
  exact lineAt_mono firstLine source ends

private theorem scan_eq_allFindings (firstLine : Nat) (source : String) :
    scan firstLine source = ⟨(allFindings firstLine source).filterMap Finding.token?,
      (allFindings firstLine source).filterMap Finding.error?⟩ := by
  have last : lineAt firstLine source source.utf8ByteSize = firstLine + lineFeeds source.toList := by
    rw [← byteLength_toList]
    exact lineAt_of_append firstLine (List.append_nil _).symm
  rw [scan_eq, Place.after_source]
  simp [allFindings, last]

private theorem allFindings_moved (firstLine more : Nat) (source : String) :
    allFindings (firstLine + more) source = (allFindings firstLine source).map (Finding.moved 0 more) := by
  have shifted := findings_moved ⟨0, firstLine⟩ 0 more source.toList
  have last : lineAt (firstLine + more) source source.utf8ByteSize =
      lineAt firstLine source source.utf8ByteSize + more := Nat.add_right_comm ..
  rw [allFindings, allFindings, last, List.map_append]
  exact congrArg (· ++ _) shifted

/-- Lines count the line feeds up to the end of what they belong to, never decrease, and move with the
number of the first line. -/
theorem scan_lines_exact (firstLine : Nat) (source : String) :
    Bytewise.scan? firstLine source = some (scan firstLine source) ∧
    (∀ token ∈ (scan firstLine source).tokens, token.line = lineAt firstLine source token.span.stop) ∧
    (∀ error ∈ (scan firstLine source).errors,
      error.line = lineAt firstLine source (error.offset + error.length)) ∧
    (∃ merged : List Finding, merged.filterMap Finding.token? = (scan firstLine source).tokens ∧
      merged.filterMap Finding.error? = (scan firstLine source).errors ∧
      merged.Pairwise fun earlier later =>
        earlier.span.start < later.span.start ∧ earlier.line ≤ later.line) ∧
    ∀ more, scan (firstLine + more) source =
      ⟨(scan firstLine source).tokens.map fun token => token.moved 0 more,
        (scan firstLine source).errors.map fun error => error.moved 0 more⟩ := by
  refine ⟨Bytewise.scan?_eq firstLine source, ?_⟩
  rw [scan_eq_allFindings]
  refine ⟨?_, ?_, ⟨allFindings firstLine source, rfl, rfl, allFindings_ordered firstLine source⟩, ?_⟩
  · intro token member
    exact line_of_mem_allFindings (Finding.mem_tokens.mp member)
  · intro error member
    exact line_of_mem_allFindings (Finding.mem_errors.mp member)
  · intro more
    rw [scan_eq_allFindings, allFindings_moved, Finding.tokens_moved, Finding.errors_moved]

/-- A string over two lines, a comment, and an open string that holds the last line feed. -/
theorem scan_lines_exact_strings :
    let source := "\"é\n\" // \"\n@ \"\n"
    let string : Token := ⟨.string, "\"é\n\"", .text "é\n", 1, ⟨0, 5⟩⟩
    let foreign : LexError := ⟨.unexpectedCharacter, 2, 11, 1⟩
    let unclosed : LexError := ⟨.unterminatedString, 3, 13, 2⟩
    (string ∈ (scan 0 source).tokens ∧ foreign ∈ (scan 0 source).errors ∧ unclosed ∈ (scan 0 source).errors) ∧
      lineAt 0 source 5 = 1 ∧ lineAt 0 source 12 = 2 ∧ lineAt 0 source 15 = 3 := by
  intro source string foreign unclosed
  obtain ⟨_, tokens, errors, _⟩ := scan_lines_exact 0 source
  have first : string ∈ (scan 0 source).tokens := by decide +kernel
  have second : foreign ∈ (scan 0 source).errors := by decide +kernel
  have third : unclosed ∈ (scan 0 source).errors := by decide +kernel
  exact ⟨⟨first, second, third⟩, (tokens string first).symm, (errors foreign second).symm,
    (errors unclosed third).symm⟩

end LoxLex
