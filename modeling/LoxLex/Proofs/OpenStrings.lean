import LoxLex.Proofs.Opacity
import LoxLex.Proofs.Regions

/-! A string that no quote closes is the last thing in its source, and one more quote makes a token of it.
Where no string is open, nor a comment, one more quote opens a string and changes nothing else. -/

namespace LoxLex
open Text

/-- An error that tells of an open string: it reaches from a quote to the end of the source, and there is
no other quote on the way. -/
structure LexError.TellsOpen (mistake : LexError) (source : String) (body : List Char) : Prop where
  fault : mistake.fault = .unterminatedString
  begins : ∃ before, source.toList = before ++ '"' :: body ∧ mistake.offset = byteLength before
  unquoted : '"' ∉ body
  reaches : mistake.offset + mistake.length = source.utf8ByteSize

/-- The token that an open string is when a quote follows it. -/
def LexError.closed (mistake : LexError) (body : List Char) : Token :=
  ⟨.string, .ofList ('"' :: (body ++ ['"'])), .text (.ofList body), mistake.line,
    ⟨mistake.offset, mistake.offset + mistake.length + 1⟩⟩

namespace Piece

private theorem fault_of_finding? {piece : Piece} {place : Place} {mistake : LexError}
    (found : piece.finding? place = some (.error mistake)) :
    mistake.fault = .unterminatedString ↔ piece.category = .unterminated := by
  unfold finding? at found
  dsimp only at found
  split at found <;> cases found
  all_goals simp [*]

private theorem exists_mem_of_mem_findings {pieces : List Piece} {place : Place} {finding : Finding}
    (member : finding ∈ findings place pieces) :
    ∃ piece ∈ pieces, ∃ here, piece.finding? here = some finding := by
  induction pieces generalizing place with
  | nil => cases member
  | cons piece pieces ih =>
    rcases List.mem_append.mp member with here | later
    · exact ⟨piece, List.mem_cons_self, place, Option.mem_toList.mp here⟩
    · obtain ⟨other, inside, found⟩ := ih later
      exact ⟨other, List.mem_cons_of_mem _ inside, found⟩

private theorem Divided.eq_nil_of_open {front back : List Piece} {piece : Piece}
    (divided : Divided (front ++ piece :: back)) (isOpen : piece.category = .unterminated) : back = [] := by
  obtain ⟨fits, rest⟩ := divided.middle
  apply rest.eq_nil_of_text
  cases behind : back.flatMap text with
  | nil => rfl
  | cons char more =>
    have ends := fits.stops.next
    rw [behind, halts_cons, isOpen] at ends
    cases ends

private theorem Divided.closed {pieces : List Piece} {last : Piece} (divided : Divided (pieces ++ [last])) :
    ∀ piece ∈ pieces, piece.category ≠ .unterminated := by
  intro piece member isOpen
  obtain ⟨front, back, rfl⟩ := List.append_of_mem member
  have whole : Divided (front ++ piece :: (back ++ [last])) := by simpa using divided
  have nothing := whole.eq_nil_of_open isOpen
  simp at nothing

private theorem stops_quote {piece : Piece} (closed : piece.category ≠ .unterminated)
    (ended : piece.category ≠ .comment)
    (rest : List Char) : piece.Stops ('"' :: rest) := by
  refine stops_cons ?_ (by decide)
  cases category : piece.category with
  | token kind => cases kind <;> simp [Category.continues] <;> decide
  | blank | unexpected => rfl
  | comment => exact (ended category).elim
  | unterminated => exact (closed category).elim

end Piece

private theorem fault_ne_of_closed {pieces : List Piece} (closed : ∀ piece ∈ pieces, piece.category ≠ .unterminated)
    (place : Place) :
    ∀ mistake ∈ (Piece.findings place pieces).filterMap Finding.error?, mistake.fault ≠ .unterminatedString := by
  intro mistake member isOpen
  obtain ⟨piece, inside, here, found⟩ := Piece.exists_mem_of_mem_findings (Finding.mem_errors.mp member)
  exact closed piece inside ((Piece.fault_of_finding? found).mp isOpen)

private theorem exists_open_string {source : List Char} (isOpen : regionAt source = .string) :
    ∃ front body, Piece.cut source = front ++ [⟨.unterminated, '"' :: body⟩] ∧ '"' ∉ body := by
  obtain ⟨front, last, same, shape, region⟩ := exists_last (by rw [isOpen]; decide)
  have category := Piece.Category.region_eq_string_iff.mp (region.trans isOpen)
  cases shape with
  | unterminated unquoted => exact ⟨front, _, same, unquoted⟩
  | _ => cases category

private theorem regionAt_eq_comment_iff {source : List Char} :
    regionAt source = .comment ↔ ∃ before body, HasComment source before body [] := by
  constructor
  · intro inside
    obtain ⟨front, last, same, shape, region⟩ := exists_last (by rw [inside]; decide)
    have category := Piece.Category.region_eq_comment_iff.mp (region.trans inside)
    cases shape with
    | comment isComment =>
      obtain ⟨body, rfl, _⟩ := isComment
      exact ⟨_, body, front, [], same, rfl, rfl⟩
    | _ => cases category
  · rintro ⟨before, body, front, back, same, _, nothing⟩
    have divided := Piece.divided_cut source
    rw [same] at divided
    obtain rfl := divided.middle.2.eq_nil_of_text nothing.symm
    have final : ⟨.comment, '/' :: '/' :: body⟩ ∈ (Piece.cut source).getLast? := by simp [same]
    exact regionAt_of_last final

private theorem closed_of_region {source : List Char} (closed : regionAt source ≠ .string) :
    ∀ piece ∈ Piece.cut source, piece.category ≠ .unterminated := by
  intro piece member isOpen
  obtain ⟨front, back, same⟩ := List.append_of_mem member
  have divided := Piece.divided_cut source
  rw [same] at divided
  obtain rfl := divided.eq_nil_of_open isOpen
  have final : piece ∈ (Piece.cut source).getLast? := by simp [same]
  exact closed ((regionAt_of_last final).trans (Piece.Category.region_eq_string_iff.mpr isOpen))

/-- The error of a string that begins at a place and stays open. -/
def openError (here : Place) (body : List Char) : LexError :=
  ⟨.unterminatedString, (here.after ('"' :: body)).line, here.offset, byteLength ('"' :: body)⟩

private theorem after_closed (here : Place) (body : List Char) :
    here.after ('"' :: (body ++ ['"'])) =
      ⟨(openError here body).offset + (openError here body).length + 1, (openError here body).line⟩ := by
  obtain ⟨bytes, lines⟩ := extent_quoted body
  have quote : byteLength ('"' :: body) = byteLength body + 1 := Nat.add_comm ..
  have feeds : lineFeeds ('"' :: body) = lineFeeds body := by simp [lineFeeds]
  simp only [Place.after, bytes, lines, openError, quote, feeds]
  rfl

private theorem token_closed (here : Place) {body : List Char} (unquoted : '"' ∉ body) :
    (Lexeme.string body unquoted).token here = (openError here body).closed body := by
  rw [Lexeme.token, Lexeme.text, after_closed]
  rfl

section Open

variable {source : String} {front : List Piece} {body : List Char}

private theorem toList_open (same : Piece.cut source.toList = front ++ [⟨.unterminated, '"' :: body⟩]) :
    source.toList = front.flatMap Piece.text ++ '"' :: body := by
  rw [← Piece.cut_text source.toList, same]
  simp

private theorem offset_open (same : Piece.cut source.toList = front ++ [⟨.unterminated, '"' :: body⟩]) (place : Place) :
    (place.after (front.flatMap Piece.text)).offset + byteLength ('"' :: body) =
      place.offset + source.utf8ByteSize := by
  rw [← byteLength_toList, toList_open same, byteLength_append, ← Nat.add_assoc]
  rfl

private theorem scan_open (firstLine : Nat) (same : Piece.cut source.toList = front ++ [⟨.unterminated, '"' :: body⟩]) :
    let found := Piece.findings ⟨0, firstLine⟩ front
    let mistake := openError (Place.after ⟨0, firstLine⟩ (front.flatMap Piece.text)) body
    scan firstLine source =
      ⟨found.filterMap Finding.token? ++ [.eof mistake.line source.utf8ByteSize],
        found.filterMap Finding.error? ++ [mistake]⟩ := by
  intro found mistake
  have size := offset_open same ⟨0, firstLine⟩
  rw [Nat.zero_add] at size
  have read : Piece.finding? (Place.after ⟨0, firstLine⟩ (front.flatMap Piece.text))
      ⟨.unterminated, '"' :: body⟩ = some (.error mistake) := rfl
  rw [scan_eq_findingsToEnd, same, Piece.findingsToEnd_concat, read, ← size]
  simp only [List.filterMap_append]
  rfl

private theorem scan_closed (firstLine : Nat) (same : Piece.cut source.toList = front ++ [⟨.unterminated, '"' :: body⟩])
    (unquoted : '"' ∉ body) :
    let found := Piece.findings ⟨0, firstLine⟩ front
    let mistake := openError (Place.after ⟨0, firstLine⟩ (front.flatMap Piece.text)) body
    scan firstLine (source ++ "\"") =
      ⟨found.filterMap Finding.token? ++ [mistake.closed body, .eof mistake.line (source.utf8ByteSize + 1)],
        found.filterMap Finding.error?⟩ := by
  intro found mistake
  let string : Lexeme := .string body unquoted
  let here := Place.after ⟨0, firstLine⟩ (front.flatMap Piece.text)
  have fits : Piece.Fits ⟨.token .string, string.text⟩ (List.flatMap Piece.text []) :=
    ⟨.lexeme string, Piece.stops_nil⟩
  have replaced := Piece.cut_replace same fits rfl (by simp)
  have spelled : (source ++ "\"").toList = front.flatMap Piece.text ++ (string.text ++ List.flatMap Piece.text []) := by
    rw [String.toList_append, toList_open same]
    simp [string, Lexeme.text]
  have read : Piece.finding? here ⟨.token .string, string.text⟩ = some (.token (mistake.closed body)) :=
    token_closed here unquoted ▸ Piece.finding?_lexeme string here
  have stop : here.after string.text = ⟨source.utf8ByteSize + 1, mistake.line⟩ := by
    have size := offset_open same ⟨0, firstLine⟩
    rw [Nat.zero_add] at size
    exact size ▸ after_closed here body
  rw [scan_eq_findingsToEnd, spelled, replaced, Piece.findingsToEnd_concat, read, stop]
  simp only [List.filterMap_append]
  exact congrArg _ (List.append_nil _)

end Open

/-- Where neither a string nor a comment is open, a quote is an error of its own. -/
private theorem scan_opened {source : String} (closed : regionAt source.toList ≠ .string)
    (ended : regionAt source.toList ≠ .comment) (firstLine : Nat) :
    let line := firstLine + lineFeeds source.toList
    scan firstLine (source ++ "\"") =
      ⟨(scan firstLine source).tokens.dropLast ++ [.eof line (source.utf8ByteSize + 1)],
        (scan firstLine source).errors ++ [⟨.unterminatedString, line, source.utf8ByteSize, 1⟩]⟩ := by
  have edge : ∀ last ∈ (Piece.cut source.toList).getLast?, last.Stops ['"'] := by
    intro last final
    obtain ⟨noString, noComment⟩ := category_of_last final closed ended
    exact Piece.stops_quote noString noComment []
  have fits : Piece.Fits ⟨.unterminated, ['"']⟩ [] := ⟨.unterminated (by simp), Piece.stops_nil⟩
  exact scan_append_piece firstLine fits rfl edge (halts_cons.mpr rfl) _ rfl

private theorem open_reported_iff {firstLine : Nat} {source : String} :
    (∃ mistake ∈ (scan firstLine source).errors, mistake.fault = .unterminatedString) ↔
      regionAt source.toList = .string := by
  constructor
  · rintro ⟨mistake, member, reported⟩
    apply Classical.byContradiction
    intro closed
    rw [scan_eq] at member
    exact fault_ne_of_closed (closed_of_region closed) _ mistake member reported
  · intro isOpen
    obtain ⟨front, body, same, _⟩ := exists_open_string isOpen
    rw [scan_open firstLine same]
    exact ⟨_, List.mem_append_right _ (List.mem_singleton.mpr rfl), rfl⟩

/-- The error of an open string comes after all else, and one more quote makes a token of it. -/
private theorem exists_closed {firstLine : Nat} {source : String} {mistake : LexError}
    (member : mistake ∈ (scan firstLine source).errors) (reported : mistake.fault = .unterminatedString) :
    ∃ tokens earlier body, mistake.TellsOpen source body ∧
      (∀ token ∈ tokens, token.kind ≠ .eof ∧ token.span.stop ≤ mistake.offset) ∧
      (∀ other ∈ earlier, other.fault ≠ .unterminatedString) ∧
      scan firstLine source = ⟨tokens ++ [.eof mistake.line source.utf8ByteSize], earlier ++ [mistake]⟩ ∧
      scan firstLine (source ++ "\"") =
        ⟨tokens ++ [mistake.closed body, .eof mistake.line (source.utf8ByteSize + 1)], earlier⟩ := by
  obtain ⟨front, body, same, unquoted⟩ := exists_open_string (open_reported_iff.mp ⟨mistake, member, reported⟩)
  have divided := Piece.divided_cut source.toList
  rw [same] at divided
  have found := scan_open firstLine same
  have none := fault_ne_of_closed divided.closed ⟨0, firstLine⟩
  obtain rfl : mistake = openError (Place.after ⟨0, firstLine⟩ (front.flatMap Piece.text)) body := by
    rw [found] at member
    rcases List.mem_append.mp member with first | last
    · exact (none mistake first reported).elim
    · exact List.mem_singleton.mp last
  have size := offset_open same ⟨0, firstLine⟩
  rw [Nat.zero_add] at size
  refine ⟨_, _, body, ⟨rfl, ⟨_, toList_open same, ?_⟩, unquoted, size⟩, ?_, none, found,
    scan_closed firstLine same unquoted⟩
  · exact Nat.zero_add _
  · intro token inside
    have own := Finding.mem_tokens.mp inside
    have listed : .token token ∈ findings ⟨0, firstLine⟩ source.toList := by
      rw [findings, same, Piece.findings_append]
      exact List.mem_append_left _ own
    exact ⟨kind_ne_eof_of_mem_findings listed, (Piece.span_of_mem_findings divided.front own).2.2⟩

private theorem countP_open_le (firstLine : Nat) (source : String) :
    (scan firstLine source).errors.countP (fun mistake => mistake.fault = .unterminatedString) ≤ 1 := by
  by_cases reported : ∃ mistake ∈ (scan firstLine source).errors, mistake.fault = .unterminatedString
  · obtain ⟨mistake, member, own⟩ := reported
    obtain ⟨tokens, earlier, body, _, _, none, found, _⟩ := exists_closed member own
    have noEarlier : earlier.countP (fun other => other.fault = .unterminatedString) = 0 := by
      simpa [List.countP_eq_zero] using none
    rw [found, List.countP_append, noEarlier, Nat.zero_add]
    exact List.countP_le_length
  · have nothing : (scan firstLine source).errors.countP (fun mistake => mistake.fault = .unterminatedString) = 0 := by
      simpa [List.countP_eq_zero] using reported
    rw [nothing]
    exact Nat.zero_le 1

/-- A string is reported to be open at most once, exactly where one is, and behind all else that is found.
One more quote makes a token of it. Where neither a string nor a comment is open, one more quote is found to
open a string, and all else stays. -/
theorem scan_open_string (firstLine : Nat) (source : String) :
    (scan firstLine source).errors.countP (fun mistake => mistake.fault = .unterminatedString) ≤ 1 ∧
    ((∃ mistake ∈ (scan firstLine source).errors, mistake.fault = .unterminatedString) ↔
      regionAt source.toList = .string) ∧
    (regionAt source.toList = .comment ↔ ∃ before body, HasComment source.toList before body []) ∧
    (∀ mistake ∈ (scan firstLine source).errors, mistake.fault = .unterminatedString →
      ∃ tokens earlier body, mistake.TellsOpen source body ∧
        (∀ token ∈ tokens, token.kind ≠ .eof ∧ token.span.stop ≤ mistake.offset) ∧
        scan firstLine source = ⟨tokens ++ [.eof mistake.line source.utf8ByteSize], earlier ++ [mistake]⟩ ∧
        scan firstLine (source ++ "\"") =
          ⟨tokens ++ [mistake.closed body, .eof mistake.line (source.utf8ByteSize + 1)], earlier⟩) ∧
    ((∀ mistake ∈ (scan firstLine source).errors, mistake.fault ≠ .unterminatedString) →
      regionAt source.toList ≠ .comment →
      ∃ tokens line,
        scan firstLine source = ⟨tokens ++ [.eof line source.utf8ByteSize], (scan firstLine source).errors⟩ ∧
        scan firstLine (source ++ "\"") =
          ⟨tokens ++ [.eof line (source.utf8ByteSize + 1)],
            (scan firstLine source).errors ++ [⟨.unterminatedString, line, source.utf8ByteSize, 1⟩]⟩) := by
  refine ⟨countP_open_le firstLine source, open_reported_iff, regionAt_eq_comment_iff, ?_, ?_⟩
  · intro mistake member reported
    obtain ⟨tokens, earlier, body, tells, before, _, found, closed⟩ := exists_closed member reported
    exact ⟨tokens, earlier, body, tells, before, found, closed⟩
  · intro none ended
    have closed : regionAt source.toList ≠ .string := by
      intro isOpen
      obtain ⟨mistake, member, reported⟩ := open_reported_iff.mpr isOpen
      exact none mistake member reported
    refine ⟨_, _, ?_, scan_opened closed ended firstLine⟩
    rw [← tokens_eq_dropLast]

/-- Behind an error and a comment that holds a quote, a string is open over a line end. In the other source
the end comes right behind a slash. -/
theorem scan_open_string_lines :
    let source := "@ //\"\nx\"é\n"
    let mistake : LexError := ⟨.unterminatedString, 3, 7, 4⟩
    let other := "//\"\n1./"
    (mistake ∈ (scan 1 source).errors ∧ mistake.fault = .unterminatedString) ∧
      (scan 1 (source ++ "\"")).tokens =
        (scan 1 source).tokens.dropLast ++ [⟨.string, "\"é\n\"", .text "é\n", 3, ⟨7, 12⟩⟩, .eof 3 12] ∧
      (scan 1 (source ++ "\"")).errors = (scan 1 source).errors.dropLast ∧
      ((∀ mistake ∈ (scan 1 other).errors, mistake.fault ≠ .unterminatedString) ∧
        regionAt other.toList ≠ .comment) ∧
      (scan 1 (other ++ "\"")).tokens.dropLast = (scan 1 other).tokens.dropLast ∧
      (scan 1 (other ++ "\"")).errors = (scan 1 other).errors ++ [⟨.unterminatedString, 2, 7, 1⟩] := by
  intro source mistake other
  have member : mistake ∈ (scan 1 source).errors := by decide +kernel
  obtain ⟨tokens, earlier, body, tells, _, found, closed⟩ := (scan_open_string 1 source).2.2.2.1 mistake member rfl
  obtain ⟨before, whole, start⟩ := tells.begins
  have parts : source.toList = "@ //\"\nx".toList ++ "\"é\n".toList := by decide
  obtain ⟨_, rest⟩ := append_inj_of_byteLength (whole.symm.trans parts) (start.symm.trans (by decide))
  obtain rfl : body = "é\n".toList := by simpa using rest
  have none : ∀ mistake ∈ (scan 1 other).errors, mistake.fault ≠ .unterminatedString := by decide +kernel
  have ended : regionAt other.toList ≠ .comment := by decide
  obtain ⟨others, line, same, opened⟩ := (scan_open_string 1 other).2.2.2.2 none ended
  have last : (scan 1 other).tokens.getLast? = some (.eof 2 7) := by decide +kernel
  obtain rfl : line = 2 := by
    rw [same] at last
    simpa [Token.eof] using congrArg (Option.map Token.line) last
  refine ⟨⟨member, rfl⟩, ?_, ?_, ⟨none, ended⟩, ?_, ?_⟩
  · rw [closed, found, List.dropLast_concat]
    rfl
  · rw [closed, found, List.dropLast_concat]
  · rw [opened, same]
    simp only [List.dropLast_concat]
  · rw [opened]
    rfl

end LoxLex
