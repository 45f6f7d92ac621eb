import LoxLex.Proofs.Lines
import LoxLex.Proofs.Opacity
import LoxLex.Proofs.Walking

/-! A scan may be taken up again at the end of any token or error. A scanner that knows the offset and
the line there, and nothing else of what came before, finds all the rest. -/

namespace LoxLex
open Text

namespace Scan

/-- Whether a token or an error is among those of a scan. -/
def Lists (scan : Scan) : Finding → Prop
  | .token token => token ∈ scan.tokens
  | .error error => error ∈ scan.errors

def ofFindings (found : List Finding) : Scan :=
  ⟨found.filterMap Finding.token?, found.filterMap Finding.error?⟩

private theorem lists_ofFindings {found : List Finding} {finding : Finding} :
    (ofFindings found).Lists finding ↔ finding ∈ found := by
  cases finding with
  | token token => exact Finding.mem_tokens
  | error error => exact Finding.mem_errors

/-- What begins at an offset or behind it. -/
def startingAt (scan : Scan) (offset : Nat) : Scan :=
  ⟨scan.tokens.filter fun token => offset ≤ token.span.start,
    scan.errors.filter fun error => offset ≤ error.offset⟩

private theorem startingAt_ofFindings (found : List Finding) (offset : Nat) :
    (ofFindings found).startingAt offset = ofFindings (found.filter fun finding => offset ≤ finding.span.start) := by
  have sorted {α : Type} (sort : Finding → Option α) (start : α → Nat)
      (same : ∀ finding item, sort finding = some item → start item = finding.span.start) :
      (found.filterMap sort).filter (fun item => offset ≤ start item) =
        (found.filter fun finding => offset ≤ finding.span.start).filterMap sort := by
    rw [List.filter_filterMap, List.filterMap_filter]
    congr 1
    funext finding
    cases own : sort finding with
    | none => exact (ite_self none).symm
    | some item => simp only [Option.filter_some, same finding item own]
  rw [startingAt, ofFindings, sorted Finding.token? (·.span.start), sorted Finding.error? (·.offset)]
  · rfl
  · intro finding error own
    rw [Finding.error?_eq_some.mp own]
    rfl
  · intro finding token own
    rw [Finding.token?_eq_some.mp own]
    rfl

def moved (scan : Scan) (bytes lines : Nat) : Scan :=
  ⟨scan.tokens.map fun token => token.moved bytes lines, scan.errors.map fun error => error.moved bytes lines⟩

private theorem ofFindings_moved (found : List Finding) (bytes lines : Nat) :
    ofFindings (found.map (Finding.moved bytes lines)) = (ofFindings found).moved bytes lines := by
  rw [ofFindings, moved, Finding.tokens_moved, Finding.errors_moved]
  rfl

end Scan

private theorem scan_eq_ofFindings (firstLine : Nat) (source : String) :
    scan firstLine source = .ofFindings (Piece.findingsToEnd ⟨0, firstLine⟩ (Piece.cut source.toList)) :=
  scan_eq_findingsToEnd firstLine source

namespace Piece

private theorem filter_findingsToEnd {place : Place} {front back : List Piece} (divided : Divided (front ++ back)) :
    let stop := place.after (front.flatMap text)
    (findingsToEnd place (front ++ back)).filter (fun finding => stop.offset ≤ finding.span.start) =
      findingsToEnd stop back := by
  intro stop
  have before : ∀ finding ∈ findings place front, ¬ stop.offset ≤ finding.span.start := by
    intro finding member
    obtain ⟨_, nonempty, inside⟩ := span_of_mem_findings divided.front member
    exact Nat.not_le_of_lt (Nat.lt_of_lt_of_le nonempty inside)
  have behind : ∀ finding ∈ findingsToEnd stop back, stop.offset ≤ finding.span.start := by
    intro finding member
    exact start_of_mem_findingsToEnd divided.back member
  rw [findingsToEnd_append, List.filter_append, List.filter_eq_nil_iff.mpr, List.nil_append,
    List.filter_eq_self.mpr]
  · intro finding member
    exact decide_eq_true (behind finding member)
  · intro finding member
    rw [decide_eq_true_eq]
    exact before finding member

private theorem exists_cut_of_mem_findings {place : Place} {source : List Char} {finding : Finding}
    (member : finding ∈ LoxLex.findings place source) :
    ∃ front piece back, cut source = front ++ piece :: back ∧
      piece.finding? (place.after (front.flatMap text)) = some finding := by
  obtain ⟨index, here⟩ := List.getElem?_of_mem member
  rw [LoxLex.findings, ← List.filterMap_some (l := findings place (cut source))] at here
  obtain ⟨front, piece, back, other, same, read, sorted, _⟩ := exists_of_getElem?_findings here
  cases sorted
  exact ⟨front, piece, back, same, read⟩

/-- Every finding, the end among them, is where some first pieces end. -/
private theorem exists_cut_of_mem_findingsToEnd {place : Place} {source : List Char} {finding : Finding}
    (member : finding ∈ findingsToEnd place (cut source)) :
    ∃ front back, cut source = front ++ back ∧
      place.after (front.flatMap text) = ⟨finding.span.stop, finding.line⟩ := by
  rcases List.mem_append.mp member with found | last
  · obtain ⟨front, piece, back, same, read⟩ := exists_cut_of_mem_findings found
    refine ⟨front ++ [piece], back, by rw [same, List.append_assoc]; rfl, ?_⟩
    rw [List.flatMap_append, Place.after_append, List.flatMap_singleton, span_of_finding? read,
      line_of_finding? read]
    rfl
  · cases List.mem_singleton.mp last
    exact ⟨cut source, [], (List.append_nil _).symm, rfl⟩

end Piece

/-- From where some first pieces end, a scan is the scan of the text behind them. -/
private theorem scan_startingAt (firstLine : Nat) {source : String} {front back : List Piece}
    (cut : Piece.cut source.toList = front ++ back) :
    let stop := Place.after ⟨0, firstLine⟩ (front.flatMap Piece.text)
    (scan firstLine source).startingAt stop.offset =
      (scan stop.line (.ofList (back.flatMap Piece.text))).moved stop.offset 0 := by
  intro stop
  have divided : Piece.Divided (front ++ back) := cut ▸ Piece.divided_cut source.toList
  have fresh : stop = Place.moved ⟨0, stop.line⟩ stop.offset 0 := by
    simp [Place.moved]
  have behind : Piece.findingsToEnd stop back =
      (Piece.findingsToEnd ⟨0, stop.line⟩ back).map (Finding.moved stop.offset 0) := by
    rw [← Piece.findingsToEnd_moved, ← fresh]
  rw [scan_eq_ofFindings, scan_eq_ofFindings, cut, String.toList_ofList, Piece.cut_flatMap divided.back,
    Scan.startingAt_ofFindings, Piece.filter_findingsToEnd divided, behind, Scan.ofFindings_moved]

/-- What a scan finds from the end of a token or an error on is what a fresh walk over the rest of the
source finds, begun on the line of that end and moved behind it. -/
theorem scan_restarts (firstLine : Nat) (source : String) :
    Bytewise.scan? firstLine source = some (scan firstLine source) ∧
      ∀ finding, (scan firstLine source).Lists finding →
        ∃ rest later, slice? finding.span.stop source.utf8ByteSize source.toList = some rest ∧
          Bytewise.scan? finding.line (.ofList rest) = some later ∧
          (scan firstLine source).startingAt finding.span.stop = later.moved finding.span.stop 0 := by
  refine ⟨Bytewise.scan?_eq firstLine source, ?_⟩
  intro finding listed
  rw [scan_eq_ofFindings, Scan.lists_ofFindings] at listed
  obtain ⟨front, back, cut, stop⟩ := Piece.exists_cut_of_mem_findingsToEnd listed
  have restarted := scan_startingAt firstLine cut
  have whole : source.toList = front.flatMap Piece.text ++ back.flatMap Piece.text := by
    rw [← List.flatMap_append, ← cut, Piece.cut_text]
  have offset : byteLength (front.flatMap Piece.text) = finding.span.stop := by
    have placed := congrArg Place.offset stop
    simpa [Place.after] using placed
  have sliced := slice?_append (front.flatMap Piece.text) (back.flatMap Piece.text) []
  rw [List.append_nil, ← whole, ← byteLength_append, ← whole, byteLength_toList, offset] at sliced
  rw [stop] at restarted
  exact ⟨_, _, sliced, Bytewise.scan?_eq _ _, restarted⟩

/-- Behind a character of two bytes, a string over two lines; a number and an error follow it. -/
theorem scan_restarts_string :
    let source := "é\"a\nb\"1.@"
    let string : Token := ⟨.string, "\"a\nb\"", .text "a\nb", 2, ⟨2, 7⟩⟩
    (scan 1 source).Lists (.token string) ∧
      ∃ rest later, slice? 7 source.utf8ByteSize source.toList = some rest ∧
        Bytewise.scan? 2 (.ofList rest) = some later ∧ (scan 1 source).startingAt 7 = later.moved 7 0 := by
  intro source string
  have listed : string ∈ (scan 1 source).tokens := by decide +kernel
  obtain ⟨_, restarts⟩ := scan_restarts 1 source
  exact ⟨listed, restarts (.token string) listed⟩

end LoxLex
