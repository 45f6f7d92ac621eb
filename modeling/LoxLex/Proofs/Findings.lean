import LoxLex.Proofs.Division

/-! A scan lists what the pieces of its source are at their places. The lists depend on the text and
on the place where it begins, and on nothing else. -/

namespace LoxLex
open Text

theorem Text.byteLength_toList (source : String) : byteLength source.toList = source.utf8ByteSize := by
  have spelled : ∀ text : List Char, byteLength text = (String.ofList text).utf8ByteSize := by
    intro text
    induction text with
    | nil => rfl
    | cons char rest ih =>
      rw [← List.singleton_append, String.ofList_append, String.utf8ByteSize_append,
        ← String.singleton_eq_ofList, String.utf8ByteSize_singleton, ← ih]
      rfl
  simpa using spelled source.toList

theorem Text.append_inj_of_byteLength {before rest front behind : List Char}
    (same : before ++ rest = front ++ behind) (size : byteLength before = byteLength front) :
    before = front ∧ rest = behind := by
  have split := splitAt?_append before rest
  rw [same, size, splitAt?_append] at split
  cases split
  exact ⟨rfl, rfl⟩

namespace Place

@[simp] theorem after_nil (place : Place) : place.after [] = place := rfl

theorem after_append (place : Place) (first second : List Char) :
    place.after (first ++ second) = (place.after first).after second := by
  simp [after, lineFeeds, Nat.add_assoc]

theorem after_source (firstLine : Nat) (source : String) :
    after ⟨0, firstLine⟩ source.toList = ⟨source.utf8ByteSize, firstLine + lineFeeds source.toList⟩ := by
  simp [after, byteLength_toList]

def moved (place : Place) (bytes lines : Nat) : Place := ⟨place.offset + bytes, place.line + lines⟩

theorem after_moved (place : Place) (bytes lines : Nat) (text : List Char) :
    (place.moved bytes lines).after text = (place.after text).moved bytes lines := by
  simp only [moved, after, Place.mk.injEq]
  omega

end Place

def Span.moved (span : Span) (bytes : Nat) : Span := ⟨span.start + bytes, span.stop + bytes⟩

def Token.moved (token : Token) (bytes lines : Nat) : Token :=
  { token with line := token.line + lines, span := token.span.moved bytes }

def LexError.moved (error : LexError) (bytes lines : Nat) : LexError :=
  { error with line := error.line + lines, offset := error.offset + bytes }

namespace Finding

def moved (bytes lines : Nat) : Finding → Finding
  | token found => token (found.moved bytes lines)
  | error found => error (found.moved bytes lines)

@[simp] def token? : Finding → Option Token
  | token found => some found
  | error _ => none

@[simp] def error? : Finding → Option LexError
  | token _ => none
  | error found => some found

theorem token?_eq_some {finding : Finding} {found : Token} :
    finding.token? = some found ↔ finding = token found := by
  cases finding <;> simp

theorem error?_eq_some {finding : Finding} {found : LexError} :
    finding.error? = some found ↔ finding = error found := by
  cases finding <;> simp

/-- Changes a finding as a token or as an error. -/
def map (onToken : Token → Token) (onError : LexError → LexError) : Finding → Finding
  | token found => token (onToken found)
  | error found => error (onError found)

theorem tokens_map (onToken : Token → Token) (onError : LexError → LexError) (found : List Finding) :
    (found.map (map onToken onError)).filterMap token? = (found.filterMap token?).map onToken := by
  rw [List.filterMap_map, List.map_filterMap]
  congr 1
  funext finding
  cases finding <;> rfl

theorem errors_map (onToken : Token → Token) (onError : LexError → LexError) (found : List Finding) :
    (found.map (map onToken onError)).filterMap error? = (found.filterMap error?).map onError := by
  rw [List.filterMap_map, List.map_filterMap]
  congr 1
  funext finding
  cases finding <;> rfl

private theorem moved_eq_map (bytes lines : Nat) :
    moved bytes lines = map (fun token => token.moved bytes lines) fun error => error.moved bytes lines := by
  funext finding
  cases finding <;> rfl

theorem tokens_moved (found : List Finding) (bytes lines : Nat) :
    (found.map (moved bytes lines)).filterMap token? =
      (found.filterMap token?).map fun token => token.moved bytes lines := by
  rw [moved_eq_map, tokens_map]

theorem errors_moved (found : List Finding) (bytes lines : Nat) :
    (found.map (moved bytes lines)).filterMap error? =
      (found.filterMap error?).map fun error => error.moved bytes lines := by
  rw [moved_eq_map, errors_map]

theorem mem_tokens {token : Token} {found : List Finding} :
    token ∈ found.filterMap token? ↔ .token token ∈ found := by
  simp only [List.mem_filterMap, token?_eq_some, exists_eq_right]

theorem mem_errors {error : LexError} {found : List Finding} :
    error ∈ found.filterMap error? ↔ .error error ∈ found := by
  simp only [List.mem_filterMap, error?_eq_some, exists_eq_right]

theorem tokens_of_tokens (tokens : List Token) : (tokens.map token).filterMap token? = tokens := by
  rw [List.filterMap_map]
  exact List.filterMap_some

theorem errors_of_tokens (tokens : List Token) : (tokens.map token).filterMap error? = [] := by
  simp [List.filterMap_map]

end Finding

/-- The token that a lexeme is at a place. -/
def Lexeme.token (lexeme : Lexeme) (place : Place) : Token :=
  let stop := place.after lexeme.text
  ⟨lexeme.kind, .ofList lexeme.text, lexeme.literal, stop.line, ⟨place.offset, stop.offset⟩⟩

theorem Decimal.ofNumeral?_written {whole fraction : List Char} (nonempty : whole ≠ [])
    (digits : ∀ char ∈ whole ++ fraction, char.isDigit) :
    ofNumeral? (whole ++ if fraction = [] then [] else '.' :: fraction) =
      some ⟨Nat.ofDigitChars 10 (whole ++ fraction) 0, -fraction.length⟩ := by
  obtain ⟨inside, behind⟩ := List.forall_mem_append.mp digits
  have ends : Halts Char.isDigit (if fraction = [] then [] else '.' :: fraction) := by
    split
    · exact halts_nil
    · exact halts_cons.mpr rfl
  rw [ofNumeral?, takeWhile_run inside ends, dropWhile_run inside ends, if_neg (by simpa using nonempty)]
  cases fraction with
  | nil => simp
  | cons next fraction => simpa using behind

namespace Piece

theorem literal_lexeme (lexeme : Lexeme) : literal lexeme.kind lexeme.text = lexeme.literal := by
  cases lexeme with
  | symbol | keyword | identifier => rfl
  | number whole fraction nonempty digits =>
    simp only [Lexeme.kind, Lexeme.text, literal, Binary64.ofNumeral?,
      Decimal.ofNumeral?_written nonempty digits]
    rfl
  | string value _ => simp [Lexeme.kind, Lexeme.text, Lexeme.literal, literal]

theorem finding?_lexeme (lexeme : Lexeme) (place : Place) :
    finding? place ⟨.token lexeme.kind, lexeme.text⟩ = some (.token (lexeme.token place)) := by
  simp only [finding?, literal_lexeme]
  rfl

theorem exists_lexeme_of_token {piece : Piece} {place : Place} {token : Token} (shape : piece.Shape)
    (found : piece.finding? place = some (.token token)) :
    ∃ lexeme : Lexeme, piece = ⟨.token lexeme.kind, lexeme.text⟩ ∧ token = lexeme.token place := by
  cases shape with
  | lexeme lexeme =>
    rw [finding?_lexeme] at found
    cases found
    exact ⟨lexeme, rfl, rfl⟩
  | _ => cases found

/-- What pieces are, the first of them at a given place and each other one behind the one before. -/
def findings (place : Place) : List Piece → List Finding
  | [] => []
  | piece :: pieces => (piece.finding? place).toList ++ findings (place.after piece.text) pieces

theorem findings_append (place : Place) (first second : List Piece) :
    findings place (first ++ second) =
      findings place first ++ findings (place.after (first.flatMap text)) second := by
  induction first generalizing place with
  | nil => rfl
  | cons piece pieces ih =>
    simp only [List.cons_append, findings, ih, List.flatMap_cons, Place.after_append, List.append_assoc]

private theorem finding?_moved (piece : Piece) (place : Place) (bytes lines : Nat) :
    piece.finding? (place.moved bytes lines) = (piece.finding? place).map (Finding.moved bytes lines) := by
  simp only [finding?, Place.after_moved]
  split <;> rfl

/-- What pieces are depends on their place only in offsets and lines. -/
theorem findings_moved (place : Place) (bytes lines : Nat) (pieces : List Piece) :
    findings (place.moved bytes lines) pieces = (findings place pieces).map (Finding.moved bytes lines) := by
  induction pieces generalizing place with
  | nil => rfl
  | cons piece pieces ih =>
    rw [findings, findings, Place.after_moved, ih, finding?_moved, List.map_append]
    cases piece.finding? place <;> rfl

theorem finding_mem_findings {pieces : List Piece} {piece : Piece} (member : piece ∈ pieces) (place : Place) :
    ∃ here, ∀ finding, piece.finding? here = some finding → finding ∈ findings place pieces := by
  induction pieces generalizing place with
  | nil => cases member
  | cons first pieces ih =>
    rcases List.mem_cons.mp member with rfl | later
    · refine ⟨place, ?_⟩
      intro finding found
      simp [findings, found]
    · obtain ⟨here, found⟩ := ih later (place.after first.text)
      refine ⟨here, ?_⟩
      intro finding same
      exact List.mem_append_right _ (found finding same)

theorem exists_of_mem_findings {pieces : List Piece} {place : Place} {finding : Finding}
    (divided : Divided pieces) (member : finding ∈ findings place pieces) :
    ∃ (before : List Char) (piece : Piece) (after : List Char),
      pieces.flatMap text = before ++ (piece.text ++ after) ∧ piece.Fits after ∧
      piece.finding? (place.after before) = some finding := by
  induction divided generalizing place with
  | nil => cases member
  | @cons piece pieces fits _ ih =>
    rcases List.mem_append.mp member with here | later
    · exact ⟨[], piece, pieces.flatMap text, rfl, fits, Option.mem_toList.mp here⟩
    · obtain ⟨before, other, after, same, otherFits, found⟩ := ih later
      exact ⟨piece.text ++ before, other, after, by simp [same], otherFits, by rwa [Place.after_append]⟩

end Piece

def findings (place : Place) (text : List Char) : List Finding := Piece.findings place (Piece.cut text)

theorem findings_moved (place : Place) (bytes lines : Nat) (text : List Char) :
    findings (place.moved bytes lines) text = (findings place text).map (Finding.moved bytes lines) :=
  Piece.findings_moved ..

theorem findings_of_fits {piece : Piece} {after : List Char} (place : Place) (fits : piece.Fits after) :
    findings place (piece.text ++ after) =
      (piece.finding? place).toList ++ findings (place.after piece.text) after := by
  rw [findings, Piece.cut_of_fits fits]
  rfl

theorem findings_lexeme {lexeme : Lexeme} {after : List Char} (place : Place)
    (stops : Piece.Stops ⟨.token lexeme.kind, lexeme.text⟩ after) :
    findings place (lexeme.text ++ after) =
      .token (lexeme.token place) :: findings (place.after lexeme.text) after := by
  have found := findings_of_fits place ⟨.lexeme lexeme, stops⟩
  rwa [Piece.finding?_lexeme] at found

theorem exists_piece_of_finding {place : Place} {text : List Char} {finding : Finding}
    (member : finding ∈ findings place text) :
    ∃ (before : List Char) (piece : Piece) (after : List Char), text = before ++ (piece.text ++ after) ∧
      piece.Fits after ∧ piece.finding? (place.after before) = some finding := by
  have found := Piece.exists_of_mem_findings (Piece.divided_cut text) member
  rwa [Piece.cut_text] at found

/-- A fold over pieces adds their findings to what has been noted before. -/
theorem Progress.foldl_step (report : σ → LexError → σ) (progress : Progress σ) (pieces : List Piece) :
    pieces.foldl (step report) progress =
      let found := Piece.findings progress.place pieces
      let errors := found.filterMap Finding.error?
      { place := progress.place.after (pieces.flatMap Piece.text)
        tokens := progress.tokens ++ (found.filterMap Finding.token?).toArray
        errors := progress.errors + errors.length
        sink := errors.foldl report progress.sink
        events := progress.events ++
          (errors.map fun error => .lexicalError error.line error.message).toArray } := by
  induction pieces generalizing progress with
  | nil => simp [Piece.findings]
  | cons piece pieces ih =>
    rw [List.foldl_cons, ih, List.flatMap_cons, Place.after_append, Piece.findings]
    cases found : piece.finding? progress.place with
    | none => simp [step, record, found]
    | some finding =>
      cases finding with
      | token token => simp [step, record, found, List.filterMap_cons]
      | error error => simp [step, record, found, List.filterMap_cons, Nat.add_assoc, Nat.add_comm 1]

/-- The lists of a scan are its findings in order, and the token at the end. -/
theorem scan_eq (firstLine : Nat) (source : String) :
    scan firstLine source =
      let found := findings ⟨0, firstLine⟩ source.toList
      let stop := Place.after ⟨0, firstLine⟩ source.toList
      ⟨found.filterMap Finding.token? ++ [.eof stop.line stop.offset], found.filterMap Finding.error?⟩ := by
  simp only [scan, scanWith, Progress.toScan, Progress.foldl_step, Progress.finish, Progress.start,
    Piece.cut_text, findings]
  simp

/-- The token at the end is on the line behind all line feeds. -/
theorem tokens_eq_dropLast (firstLine : Nat) (source : String) :
    (scan firstLine source).tokens = (scan firstLine source).tokens.dropLast ++
      [.eof (firstLine + lineFeeds source.toList) source.utf8ByteSize] := by
  rw [scan_eq, Place.after_source, List.dropLast_concat]

theorem mem_findings_of_mem_tokens {firstLine : Nat} {source : String} {token : Token}
    (member : token ∈ (scan firstLine source).tokens) (proper : token.kind ≠ .eof) :
    .token token ∈ findings ⟨0, firstLine⟩ source.toList := by
  rw [scan_eq] at member
  rcases List.mem_append.mp member with found | last
  · exact Finding.mem_tokens.mp found
  · cases List.mem_singleton.mp last
    exact (proper rfl).elim

/-- The tokens of a scan are lexemes, and one at the end. -/
theorem exists_lexeme_of_mem_tokens {firstLine : Nat} {source : String} {token : Token}
    (member : token ∈ (scan firstLine source).tokens) :
    (∃ (lexeme : Lexeme) (place : Place), token = lexeme.token place) ∨
      ∃ line offset, token = .eof line offset := by
  rw [scan_eq] at member
  rcases List.mem_append.mp member with found | last
  · obtain ⟨before, piece, after, _, fits, read⟩ := exists_piece_of_finding (Finding.mem_tokens.mp found)
    obtain ⟨lexeme, _, same⟩ := Piece.exists_lexeme_of_token fits.shape read
    exact .inl ⟨lexeme, _, same⟩
  · exact .inr ⟨_, _, List.mem_singleton.mp last⟩

theorem kind_ne_eof_of_mem_findings {place : Place} {text : List Char} {token : Token}
    (member : .token token ∈ findings place text) : token.kind ≠ .eof := by
  obtain ⟨before, piece, after, _, fits, found⟩ := exists_piece_of_finding member
  obtain ⟨lexeme, _, rfl⟩ := Piece.exists_lexeme_of_token fits.shape found
  exact lexeme.kind_ne_eof

/-- All tokens of a scan but the one at the end. -/
theorem filter_tokens_scan (firstLine : Nat) (source : String) :
    (scan firstLine source).tokens.filter (·.kind ≠ .eof) =
      (findings ⟨0, firstLine⟩ source.toList).filterMap Finding.token? := by
  have proper : ∀ token ∈ (findings ⟨0, firstLine⟩ source.toList).filterMap Finding.token?,
      decide (token.kind ≠ .eof) := by
    intro token member
    exact decide_eq_true (kind_ne_eof_of_mem_findings (Finding.mem_tokens.mp member))
  rw [scan_eq, List.filter_append, List.filter_eq_self.mpr proper]
  simp [Token.eof]

end LoxLex
