import LoxLex.Proofs.Ending
import LoxLex.Proofs.Lines

/-! Line ends of two characters. A scan with a carriage return put before each line feed finds the same,
on the same lines, further on by the line feeds before it. -/

namespace LoxLex
open Text

namespace Text

/-- Each line feed with a carriage return before it, also where there is one already. -/
def crlf (text : List Char) : List Char :=
  text.flatMap fun char => if char = '\n' then ['\r', '\n'] else [char]

@[simp] private theorem crlf_nil : crlf [] = [] := rfl

@[simp] private theorem crlf_append (first second : List Char) : crlf (first ++ second) = crlf first ++ crlf second :=
  List.flatMap_append

@[simp] private theorem crlf_cons_feed (rest : List Char) : crlf ('\n' :: rest) = '\r' :: '\n' :: crlf rest := rfl

private theorem crlf_cons {char : Char} (other : char ≠ '\n') (rest : List Char) :
    crlf (char :: rest) = char :: crlf rest := by
  rw [crlf, List.flatMap_cons, if_neg other]
  rfl

private theorem crlf_eq_self {text : List Char} (sameLine : '\n' ∉ text) : crlf text = text := by
  induction text with
  | nil => rfl
  | cons char rest ih =>
    rw [crlf_cons (List.ne_of_not_mem_cons sameLine).symm, ih (List.not_mem_of_not_mem_cons sameLine)]

private theorem mem_crlf {char : Char} {text : List Char} (proper : char ≠ '\r') : char ∈ crlf text ↔ char ∈ text := by
  induction text with
  | nil => rfl
  | cons first rest ih =>
    by_cases feed : first = '\n'
    · subst feed
      simp [proper, ih]
    · rw [crlf_cons feed, List.mem_cons, List.mem_cons, ih]

private theorem lineFeeds_crlf (text : List Char) : lineFeeds (crlf text) = lineFeeds text := by
  induction text with
  | nil => rfl
  | cons char rest ih =>
    rw [lineFeeds] at ih ⊢
    by_cases feed : char = '\n'
    · subst feed
      simp [ih, lineFeeds]
    · rw [crlf_cons feed, List.count_cons, ih, lineFeeds, lineFeeds, List.count_cons]

private theorem byteLength_crlf (text : List Char) : byteLength (crlf text) = byteLength text + lineFeeds text := by
  induction text with
  | nil => rfl
  | cons char rest ih =>
    by_cases feed : char = '\n'
    · subst feed
      simp only [crlf_cons_feed, byteLength, ih, lineFeeds, List.count_cons_self,
        show '\r'.utf8Size = 1 from rfl]
      omega
    · simp [crlf_cons feed, byteLength, ih, lineFeeds, feed, Nat.add_assoc]

end Text

/-- Where an offset of a source comes to lie: one byte further on for each line feed before it. -/
def crlfOffset (source : String) (offset : Nat) : Nat := offset + ((utf8 source).take offset).count 0x0A

def Literal.crlf : Literal → Literal
  | .text value => .text (.ofList (Text.crlf value.toList))
  | other => other

def Token.crlf (source : String) (token : Token) : Token :=
  { token with
    lexeme := .ofList (Text.crlf token.lexeme.toList)
    literal := token.literal.crlf
    span := ⟨crlfOffset source token.span.start, crlfOffset source token.span.stop⟩ }

/-- Both ends of the stretch at fault move, each by the line feeds before it. -/
def LexError.crlf (source : String) (error : LexError) : LexError :=
  let start := crlfOffset source error.offset
  { error with offset := start, length := crlfOffset source (error.offset + error.length) - start }

private theorem crlfOffset_of_append {source : String} {before after : List Char}
    (whole : source.toList = before ++ after) :
    crlfOffset source (byteLength before) = byteLength (crlf before) :=
  (lineAt_of_append (byteLength before) whole).trans (byteLength_crlf before).symm

private theorem Halts.crlf {holds : Char → Bool} {after : List Char} (ends : Halts holds after)
    (return_ends : holds '\r' = false) : Halts holds (Text.crlf after) := by
  cases after with
  | nil => exact halts_nil
  | cons char rest =>
    by_cases feed : char = '\n'
    · subst feed
      exact halts_cons.mpr return_ends
    · rw [crlf_cons feed]
      exact halts_cons.mpr (halts_cons.mp ends)

namespace Lexeme

/-- A string holds its line feeds with their carriage returns; nothing else has line feeds. -/
def crlf : Lexeme → Lexeme
  | string value unquoted => string (Text.crlf value) (by rwa [mem_crlf (by decide)])
  | other => other

private theorem kind_crlf (lexeme : Lexeme) : lexeme.crlf.kind = lexeme.kind := by
  cases lexeme <;> rfl

private theorem text_crlf (lexeme : Lexeme) : lexeme.crlf.text = Text.crlf lexeme.text := by
  cases lexeme with
  | string value _ => simp [crlf, text, crlf_cons, crlf_append]
  | symbol | keyword | identifier | number =>
    symm
    exact crlf_eq_self (sameLine_text (by simp [kind]))

private theorem literal_crlf (lexeme : Lexeme) : lexeme.crlf.literal = lexeme.literal.crlf := by
  cases lexeme with
  | string value _ => simp [crlf, literal, Literal.crlf]
  | symbol | keyword | identifier | number => rfl

end Lexeme

namespace Piece

/-- Neither a carriage return nor a line feed goes on with a token, a blank or a foreign character, and
nothing follows an open string. -/
private theorem stops_crlf {piece : Piece} {after : List Char} (stops : piece.Stops after)
    (proper : piece.category ≠ .comment) : Stops ⟨piece.category, Text.crlf piece.text⟩ (Text.crlf after) := by
  cases after with
  | nil => exact stops_nil
  | cons char rest =>
    have ends : piece.category.continues '\r' = false := by
      cases category : piece.category with
      | token kind =>
        have blank : piece.Stops ['\r'] := token_stops category rfl
        exact category ▸ halts_cons.mp blank.next
      | blank | unexpected => rfl
      | comment => exact (proper category).elim
      | unterminated => simpa [category, Category.continues] using stops.next
    refine ⟨stops.next.crlf ends, ?_⟩
    rintro ⟨number, pointless⟩ behind same
    by_cases feed : char = '\n'
    · subst feed
      cases same
    · rw [crlf_cons feed] at same
      obtain ⟨rfl, rfl⟩ := List.cons.inj same
      have whole : piece.IsWhole := ⟨number, by rwa [mem_crlf (by decide)] at pointless⟩
      exact (stops.fraction whole rest rfl).crlf rfl

private theorem shape_crlf {piece : Piece} (shape : piece.Shape) (proper : piece.text ≠ ['\n']) :
    Shape ⟨piece.category, Text.crlf piece.text⟩ := by
  have unchanged (sameLine : '\n' ∉ piece.text) : Shape ⟨piece.category, Text.crlf piece.text⟩ := by
    rw [crlf_eq_self sameLine]
    exact shape
  cases shape with
  | lexeme lexeme =>
    have changed := Shape.lexeme lexeme.crlf
    rwa [lexeme.kind_crlf, lexeme.text_crlf] at changed
  | blank layout => exact unchanged (by simpa [eq_comm] using proper)
  | comment isComment =>
    obtain ⟨body, rfl, sameLine⟩ := isComment
    exact unchanged (by simpa)
  | unexpected foreign =>
    refine unchanged fun feed => ?_
    exact foreign.1 (List.mem_singleton.mp feed ▸ by decide)
  | @unterminated body unquoted =>
    have begins : Text.crlf ('"' :: body) = '"' :: Text.crlf body := crlf_cons (by decide) body
    rw [begins]
    exact .unterminated (by rwa [mem_crlf (by decide)])

/-- A piece in the longer text is what it was, with both its ends moved. -/
private theorem finding?_crlf {piece : Piece} (shape : piece.Shape) {firstLine : Nat} {source : String}
    {before after : List Char} (whole : source.toList = before ++ (piece.text ++ after)) :
    finding? (Place.after ⟨0, firstLine⟩ (Text.crlf before)) ⟨piece.category, Text.crlf piece.text⟩ =
      (piece.finding? (Place.after ⟨0, firstLine⟩ before)).map
        (Finding.map (Token.crlf source) (LexError.crlf source)) := by
  have start := crlfOffset_of_append whole
  rw [← List.append_assoc] at whole
  have stop := crlfOffset_of_append whole
  rw [crlf_append, byteLength_append, byteLength_append] at stop
  cases shape with
  | lexeme lexeme =>
    rw [finding?_lexeme, ← lexeme.kind_crlf, ← lexeme.text_crlf, finding?_lexeme]
    rw [← lexeme.text_crlf] at stop
    simp only [Option.map_some, Finding.map, Lexeme.token, Token.crlf, lexeme.kind_crlf, lexeme.literal_crlf,
      lexeme.text_crlf, String.toList_ofList, Place.after, lineFeeds_crlf, Nat.zero_add, start]
    simp only [stop, lexeme.text_crlf]
  | blank | comment => rfl
  | unexpected | unterminated =>
    simp only [finding?, Option.map_some, Finding.map, LexError.crlf, Place.after, lineFeeds_crlf,
      Nat.zero_add, start, stop, Nat.add_sub_cancel_left]

end Piece

private theorem findings_of_skipped {piece : Piece} {after : List Char} (place : Place) (fits : piece.Fits after)
    (nothing : piece.finding? place = none) :
    findings place (piece.text ++ after) = findings (place.after piece.text) after := by
  rw [findings_of_fits place fits, nothing]
  rfl

private theorem findings_blank {char : Char} (layout : isLayout char) (place : Place) (after : List Char) :
    findings place (char :: after) = findings (place.after [char]) after :=
  findings_of_skipped place (Piece.blank_fits layout after) rfl

/-- A comment takes the carriage return that comes behind it, which is skipped either way. -/
private theorem findings_comment_crlf {comment after : List Char} (isComment : IsComment comment)
    (stops : Piece.Stops ⟨.comment, comment⟩ after) (place : Place) :
    findings place (crlf (comment ++ after)) = findings (place.after (crlf comment)) (crlf after) := by
  obtain ⟨body, rfl, sameLine⟩ := isComment
  have unchanged : crlf ('/' :: '/' :: body) = '/' :: '/' :: body := crlf_eq_self (by simpa)
  rw [crlf_append, unchanged]
  cases after with
  | nil => exact findings_of_skipped place ⟨.comment ⟨body, rfl, sameLine⟩, stops⟩ rfl
  | cons char rest =>
    obtain rfl : char = '\n' := by simpa [Piece.Category.continues] using stops.next
    have longer : Piece.Fits ⟨.comment, '/' :: '/' :: (body ++ ['\r'])⟩ ('\n' :: crlf rest) :=
      ⟨.comment ⟨body ++ ['\r'], rfl, by simpa⟩, Piece.stops_line_feed (by simp)⟩
    calc
      findings place ('/' :: '/' :: body ++ crlf ('\n' :: rest))
          = findings place ('/' :: '/' :: (body ++ ['\r']) ++ '\n' :: crlf rest) := by simp
      _ = findings ((place.after ('/' :: '/' :: body)).after ['\r']) ('\n' :: crlf rest) := by
        rw [← Place.after_append]
        exact findings_of_skipped place longer rfl
      _ = findings (place.after ('/' :: '/' :: body)) (crlf ('\n' :: rest)) :=
        (findings_blank rfl _ _).symm

private theorem findings_crlf_append {piece : Piece} {firstLine : Nat} {source : String} {before after : List Char}
    (fits : piece.Fits after) (whole : source.toList = before ++ (piece.text ++ after)) :
    let here := Place.after ⟨0, firstLine⟩ before
    let there := Place.after ⟨0, firstLine⟩ (crlf before)
    findings there (crlf (piece.text ++ after)) =
      ((piece.finding? here).toList.map (Finding.map (Token.crlf source) (LexError.crlf source))) ++
        findings (there.after (crlf piece.text)) (crlf after) := by
  intro here there
  by_cases feed : piece.text = ['\n']
  · have read := Piece.cut_of_fits fits
    have blank := Piece.cut_of_fits (Piece.blank_fits (show isLayout '\n' from rfl) after)
    rw [feed, blank] at read
    obtain rfl := (List.cons.inj read).1
    exact (findings_blank rfl _ _).trans (findings_blank rfl _ _)
  obtain ⟨shape, stops⟩ := fits
  by_cases comment : piece.category = .comment
  · cases shape with
    | comment isComment => exact findings_comment_crlf isComment stops there
    | _ => cases comment
  · have changed := findings_of_fits there ⟨Piece.shape_crlf shape feed, Piece.stops_crlf stops comment⟩
    rw [Piece.finding?_crlf shape whole] at changed
    rw [crlf_append, changed]
    cases piece.finding? here <;> rfl

private theorem findings_crlf {pieces : List Piece} (divided : Piece.Divided pieces) {firstLine : Nat}
    {source : String} {before : List Char} (whole : source.toList = before ++ pieces.flatMap Piece.text) :
    findings (Place.after ⟨0, firstLine⟩ (crlf before)) (crlf (pieces.flatMap Piece.text)) =
      (Piece.findings (Place.after ⟨0, firstLine⟩ before) pieces).map
        (Finding.map (Token.crlf source) (LexError.crlf source)) := by
  induction divided generalizing before with
  | nil => simp [findings, Piece.findings, Piece.cut]
  | @cons piece pieces fits _ ih =>
    rw [List.flatMap_cons] at whole ⊢
    have further : source.toList = (before ++ piece.text) ++ pieces.flatMap Piece.text := by
      rw [whole, List.append_assoc]
    rw [findings_crlf_append fits whole, Piece.findings, List.map_append, ← Place.after_append, ← crlf_append,
      ih further, Place.after_append]

/-- Line ends of two characters make every lexeme, value and stretch that has line feeds longer, and
move what is behind a line feed; kinds, lines and the order of all that is found stay. -/
theorem scan_crlf (firstLine : Nat) (source : String) :
    scan firstLine (.ofList (crlf source.toList)) =
      ⟨(scan firstLine source).tokens.map (Token.crlf source),
        (scan firstLine source).errors.map (LexError.crlf source)⟩ := by
  apply scan_map
  have pieces := Piece.cut_text source.toList
  have whole : source.toList = [] ++ (Piece.cut source.toList).flatMap Piece.text := pieces.symm
  have found : findings ⟨0, firstLine⟩ (crlf ((Piece.cut source.toList).flatMap Piece.text)) = _ :=
    findings_crlf (Piece.divided_cut source.toList) whole
  have last := crlfOffset_of_append (List.append_nil source.toList).symm
  rw [pieces, findings, Place.after_nil] at found
  rw [Piece.findingsToEnd, Piece.findingsToEnd, pieces, Piece.cut_text, String.toList_ofList, List.map_append,
    found]
  simp [Finding.map, Token.eof, Token.crlf, Literal.crlf, Place.after, lineFeeds_crlf, last]

end LoxLex
