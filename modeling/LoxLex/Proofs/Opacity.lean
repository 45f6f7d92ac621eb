import LoxLex.Proofs.Ending
import LoxLex.Proofs.Splice

/-! Strings and comments are opaque: other text inside one of them changes nothing else but the places
of what is behind it. -/

namespace LoxLex
open Text

structure Extent where
  bytes : Nat
  lines : Nat

def extent (text : List Char) : Extent := ⟨byteLength text, lineFeeds text⟩

/-- Moves what is behind a text of one extent to where it is behind a text of another. Nothing behind a
text comes to less than its extent, so the differences are never cut off at zero. -/
def Token.shifted (old new : Extent) (token : Token) : Token :=
  { token with
    line := token.line + new.lines - old.lines
    span := ⟨token.span.start + new.bytes - old.bytes, token.span.stop + new.bytes - old.bytes⟩ }

def LexError.shifted (old new : Extent) (error : LexError) : LexError :=
  { error with line := error.line + new.lines - old.lines, offset := error.offset + new.bytes - old.bytes }

def Token.shiftedFrom (offset : Nat) (old new : Extent) (token : Token) : Token :=
  if offset ≤ token.span.start then token.shifted old new else token

def LexError.shiftedFrom (offset : Nat) (old new : Extent) (error : LexError) : LexError :=
  if offset ≤ error.offset then error.shifted old new else error

def Token.withValue (old new : List Char) (token : Token) : Token :=
  { token with
    lexeme := .ofList ('"' :: (new ++ ['"']))
    literal := .text (.ofList new)
    line := token.line + lineFeeds new - lineFeeds old
    span := ⟨token.span.start, token.span.stop + byteLength new - byteLength old⟩ }

/-- The whole effect on the tokens of another value in one of them. -/
def Token.afterRewrite (string : Token) (old new : List Char) (token : Token) : Token :=
  if token = string then token.withValue old new
  else token.shiftedFrom string.span.stop (extent old) (extent new)

namespace Finding

def shifted (old new : Extent) : Finding → Finding :=
  map (Token.shifted old new) (LexError.shifted old new)

private theorem moved_eq_shifted {here there : Place} {old new : Extent}
    (bytes : there.offset + old.bytes = here.offset + new.bytes)
    (lines : there.line + old.lines = here.line + new.lines) (finding : Finding) :
    finding.moved there.offset there.line =
      (finding.moved here.offset here.line).shifted old new := by
  have forward (offset : Nat) : offset + there.offset = offset + here.offset + new.bytes - old.bytes := by
    omega
  have down (line : Nat) : line + there.line = line + here.line + new.lines - old.lines := by
    omega
  cases finding <;>
    simp only [moved, shifted, map, Token.moved, Token.shifted, Span.moved, LexError.moved,
      LexError.shifted, ← forward, ← down]

end Finding

namespace Piece

private theorem stops_of_same_head {piece : Piece} {after other : List Char} (stops : piece.Stops after)
    (same : other.head? = after.head?) (notPoint : after.head? ≠ some '.') : piece.Stops other := by
  refine ⟨?_, ?_⟩
  · intro char first
    exact stops.next char (same ▸ first)
  · rintro _ rest rfl
    exact absurd same.symm notPoint

/-- A piece may take the place of another that begins alike, unless that is a point. -/
theorem cut_replace {source : List Char} {front back : List Piece} {old new : Piece}
    (cutHere : cut source = front ++ old :: back) (fits : new.Fits (back.flatMap text))
    (same : new.text.head? = old.text.head?) (notPoint : old.text.head? ≠ some '.') :
    cut (front.flatMap text ++ (new.text ++ back.flatMap text)) = front ++ new :: back := by
  have divided := divided_cut source
  rw [cutHere] at divided
  obtain ⟨oldFits, rest⟩ := divided.middle
  have headed : (new.text ++ back.flatMap text).head? = (old.text ++ back.flatMap text).head? := by
    rw [List.head?_append, List.head?_append, same]
  have unpointed : (old.text ++ back.flatMap text).head? ≠ some '.' := by
    obtain ⟨char, more, spelled⟩ := List.exists_cons_of_ne_nil oldFits.text_ne_nil
    simpa [spelled] using notPoint
  have replaced : Divided (front ++ new :: back) := by
    refine divided.splice (.cons fits rest) ?_ ?_
    · intro last _ stops
      exact stops_of_same_head stops headed unpointed
    · intro halts char first
      exact halts char (headed ▸ first)
  rw [← cut_flatMap replaced, List.flatMap_append, List.flatMap_cons]

private theorem findingsToEnd_shifted {here there : Place} {old new : Extent}
    (bytes : there.offset + old.bytes = here.offset + new.bytes)
    (lines : there.line + old.lines = here.line + new.lines) (pieces : List Piece) :
    findingsToEnd there pieces = (findingsToEnd here pieces).map (Finding.shifted old new) := by
  have from_start (place : Place) :
      findingsToEnd place pieces = (findingsToEnd ⟨0, 0⟩ pieces).map (.moved place.offset place.line) := by
    rw [← findingsToEnd_moved]
    simp [Place.moved]
  rw [from_start there, from_start here, List.map_map]
  congr 1
  funext finding
  exact Finding.moved_eq_shifted bytes lines finding

theorem start_of_mem_findingsToEnd {pieces : List Piece} {place : Place} {finding : Finding}
    (divided : Divided pieces) (member : finding ∈ findingsToEnd place pieces) :
    place.offset ≤ finding.span.start := by
  rcases List.mem_append.mp member with found | last
  · exact (span_of_mem_findings divided found).1
  · cases List.mem_singleton.mp last
    exact Nat.le_add_right ..

/-- Where one piece takes the place of another, its finding does too, what is before stays, and what
is behind is shifted. -/
private theorem findingsToEnd_replace {place : Place} {front back : List Piece} {old new : Piece}
    {change : Finding → Finding} (divided : Divided (front ++ old :: back)) (oldExtent newExtent : Extent)
    (bytes : byteLength new.text + oldExtent.bytes = byteLength old.text + newExtent.bytes)
    (lines : lineFeeds new.text + oldExtent.lines = lineFeeds old.text + newExtent.lines) :
    let here := place.after (front.flatMap text)
    (∀ finding, finding.span.start < here.offset → change finding = finding) →
    (old.finding? here).map change = new.finding? here →
    (∀ finding, here.offset + byteLength old.text ≤ finding.span.start →
      change finding = finding.shifted oldExtent newExtent) →
    findingsToEnd place (front ++ new :: back) =
      (findingsToEnd place (front ++ old :: back)).map change := by
  intro here before own behind
  have kept : (findings place front).map change = findings place front := by
    rw [List.map_congr_left (g := id), List.map_id]
    intro finding member
    obtain ⟨_, nonempty, ends⟩ := span_of_mem_findings divided.front member
    exact before finding (Nat.lt_of_lt_of_le nonempty ends)
  have further : (findingsToEnd (here.after old.text) back).map change =
      findingsToEnd (here.after new.text) back := by
    have shifted : findingsToEnd (here.after new.text) back =
        (findingsToEnd (here.after old.text) back).map (Finding.shifted oldExtent newExtent) :=
      findingsToEnd_shifted (by simp only [Place.after]; omega) (by simp only [Place.after]; omega) back
    rw [shifted]
    apply List.map_congr_left
    intro finding member
    exact behind finding (start_of_mem_findingsToEnd divided.middle.2 member)
  have single : (old.finding? here).toList.map change = (new.finding? here).toList := by
    rw [← own]
    cases old.finding? here <;> rfl
  rw [findingsToEnd_append, findingsToEnd_append, findingsToEnd_cons, findingsToEnd_cons,
    List.map_append, List.map_append, kept, further, single]

end Piece

theorem extent_quoted (value : List Char) :
    byteLength ('"' :: (value ++ ['"'])) = byteLength value + 2 ∧
      lineFeeds ('"' :: (value ++ ['"'])) = lineFeeds value := by
  constructor
  · simp only [byteLength, byteLength_append, show '"'.utf8Size = 1 from rfl]
    omega
  · simp [lineFeeds]

namespace Lexeme

private theorem withValue_token {old new : List Char} (unquoted : '"' ∉ old) (newUnquoted : '"' ∉ new)
    (place : Place) :
    ((string old unquoted).token place).withValue old new = (string new newUnquoted).token place := by
  obtain ⟨oldBytes, oldLines⟩ := extent_quoted old
  obtain ⟨newBytes, newLines⟩ := extent_quoted new
  simp only [Token.withValue, token, text, kind, literal, Place.after, oldBytes, oldLines, newBytes,
    newLines, Token.mk.injEq, Span.mk.injEq, true_and]
  omega

end Lexeme

/-- What stands in a source before, in and behind one of its comments. -/
def HasComment (source before body after : List Char) : Prop :=
  ∃ front back, Piece.cut source = front ++ ⟨.comment, '/' :: '/' :: body⟩ :: back ∧
    before = front.flatMap Piece.text ∧ after = back.flatMap Piece.text

private theorem Lexeme.exists_string {lexeme : Lexeme} (string : lexeme.kind = .string) :
    ∃ value, ∃ unquoted : '"' ∉ value, lexeme = .string value unquoted := by
  cases lexeme with
  | string value unquoted => exact ⟨value, unquoted, rfl⟩
  | _ => cases string

private theorem exists_string_of_token {firstLine : Nat} {source : String} {token : Token}
    (member : token ∈ (scan firstLine source).tokens) (string : token.kind = .string) :
    ∃ front value back, ∃ unquoted : '"' ∉ value,
      Piece.cut source.toList = front ++ ⟨.token .string, '"' :: (value ++ ['"'])⟩ :: back ∧
      token = (Lexeme.string value unquoted).token
        (Place.after ⟨0, firstLine⟩ (front.flatMap Piece.text)) := by
  obtain ⟨front, back, cutHere, read⟩ := exists_cut_of_token member (by simp [string])
  have divided := Piece.divided_cut source.toList
  rw [cutHere] at divided
  obtain ⟨lexeme, piece, own⟩ := Piece.exists_lexeme_of_token divided.middle.1.shape read
  obtain ⟨value, unquoted, rfl⟩ : ∃ value, ∃ unquoted : '"' ∉ value, lexeme = .string value unquoted :=
    Lexeme.exists_string (by rw [← string, own]; rfl)
  exact ⟨front, value, back, unquoted, by rw [cutHere, piece]; rfl, own⟩

private theorem findingsToEnd_rewrite_string {firstLine : Nat} {front back : List Piece} {old new : List Char}
    (unquoted : '"' ∉ old) (newUnquoted : '"' ∉ new)
    (divided : Piece.Divided (front ++ ⟨.token .string, '"' :: (old ++ ['"'])⟩ :: back)) :
    let token := (Lexeme.string old unquoted).token
      (Place.after ⟨0, firstLine⟩ (front.flatMap Piece.text))
    Piece.findingsToEnd ⟨0, firstLine⟩ (front ++ ⟨.token .string, '"' :: (new ++ ['"'])⟩ :: back) =
      (Piece.findingsToEnd ⟨0, firstLine⟩ (front ++ ⟨.token .string, '"' :: (old ++ ['"'])⟩ :: back)).map
        (Finding.map (Token.afterRewrite token old new)
          (LexError.shiftedFrom token.span.stop (extent old) (extent new))) := by
  intro token
  obtain ⟨oldBytes, oldLines⟩ := extent_quoted old
  obtain ⟨newBytes, newLines⟩ := extent_quoted new
  have nonempty : token.span.start < token.span.stop :=
    Nat.lt_add_of_pos_right (byteLength_pos '"' (old ++ ['"']))
  refine Piece.findingsToEnd_replace divided (extent old) (extent new) ?_ ?_ ?_ ?_ ?_
  · simp only [oldBytes, newBytes, extent]
    omega
  · simp only [oldLines, newLines, extent]
    omega
  · intro finding before
    cases finding with
    | token found =>
      have other : found ≠ token := by
        rintro rfl
        exact Nat.lt_irrefl _ before
      have earlier : ¬ token.span.stop ≤ found.span.start := Nat.not_le_of_lt (Nat.lt_trans before nonempty)
      exact congrArg Finding.token ((if_neg other).trans (if_neg earlier))
    | error found =>
      exact congrArg Finding.error (if_neg (Nat.not_le_of_lt (Nat.lt_trans before nonempty)))
  · have rewritten : Token.afterRewrite token old new token = (Lexeme.string new newUnquoted).token _ :=
      (if_pos rfl).trans (Lexeme.withValue_token unquoted newUnquoted _)
    have oldRead := Piece.finding?_lexeme (.string old unquoted)
      (Place.after ⟨0, firstLine⟩ (front.flatMap Piece.text))
    have newRead := Piece.finding?_lexeme (.string new newUnquoted)
      (Place.after ⟨0, firstLine⟩ (front.flatMap Piece.text))
    exact (congrArg _ oldRead).trans ((congrArg (some ∘ Finding.token) rewritten).trans newRead.symm)
  · intro finding behind
    cases finding with
    | token found =>
      have other : found ≠ token := by
        rintro rfl
        exact Nat.not_le_of_lt nonempty behind
      exact congrArg Finding.token ((if_neg other).trans (if_pos behind))
    | error found => exact congrArg Finding.error (if_pos behind)

private theorem findingsToEnd_rewrite_comment {firstLine : Nat} {front back : List Piece} {old new : List Char}
    (sameLine : '\n' ∉ old) (newSameLine : '\n' ∉ new)
    (divided : Piece.Divided (front ++ ⟨.comment, '/' :: '/' :: old⟩ :: back)) :
    let behind := byteLength (front.flatMap Piece.text ++ '/' :: '/' :: old)
    Piece.findingsToEnd ⟨0, firstLine⟩ (front ++ ⟨.comment, '/' :: '/' :: new⟩ :: back) =
      (Piece.findingsToEnd ⟨0, firstLine⟩ (front ++ ⟨.comment, '/' :: '/' :: old⟩ :: back)).map
        (Finding.map (Token.shiftedFrom behind ⟨byteLength old, 0⟩ ⟨byteLength new, 0⟩)
          (LexError.shiftedFrom behind ⟨byteLength old, 0⟩ ⟨byteLength new, 0⟩)) := by
  intro behind
  have further : behind = (Place.after ⟨0, firstLine⟩ (front.flatMap Piece.text)).offset +
      byteLength ('/' :: '/' :: old) := by
    simp [behind, Place.after]
  refine Piece.findingsToEnd_replace divided ⟨byteLength old, 0⟩ ⟨byteLength new, 0⟩ ?_ ?_ ?_ rfl ?_
  · simp only [byteLength]
    omega
  · simp [lineFeeds, List.count_eq_zero_of_not_mem sameLine, List.count_eq_zero_of_not_mem newSameLine]
  · intro finding before
    have earlier : ¬ behind ≤ finding.span.start :=
      Nat.not_le_of_lt (further ▸ Nat.lt_add_right _ before)
    cases finding with
    | token found => exact congrArg Finding.token (if_neg earlier)
    | error found => exact congrArg Finding.error (if_neg earlier)
  · intro finding later
    rw [← further] at later
    cases finding with
    | token found => exact congrArg Finding.token (if_pos later)
    | error found => exact congrArg Finding.error (if_pos later)

private theorem scan_rewrite_string {firstLine : Nat} {source : String} {token : Token}
    (member : token ∈ (scan firstLine source).tokens) (string : token.kind = .string) :
    ∃ before old after, source.toList = before ++ '"' :: (old ++ '"' :: after) ∧
      byteLength before = token.span.start ∧ token.lexeme = .ofList ('"' :: (old ++ ['"'])) ∧
      ∀ value, '"' ∉ value →
        scan firstLine (.ofList (before ++ '"' :: (value ++ '"' :: after))) =
          ⟨(scan firstLine source).tokens.map (Token.afterRewrite token old value),
            (scan firstLine source).errors.map
              (LexError.shiftedFrom token.span.stop (extent old) (extent value))⟩ := by
  obtain ⟨front, old, back, unquoted, cutHere, rfl⟩ := exists_string_of_token member string
  have divided := Piece.divided_cut source.toList
  have spelled := Piece.cut_text source.toList
  rw [cutHere] at divided spelled
  refine ⟨front.flatMap Piece.text, old, back.flatMap Piece.text, ?_, ?_, rfl, ?_⟩
  · simp [← spelled]
  · simp [Lexeme.token, Place.after]
  · intro value newUnquoted
    apply scan_map
    have fits : Piece.Fits ⟨.token .string, '"' :: (value ++ ['"'])⟩ (back.flatMap Piece.text) :=
      ⟨.lexeme (.string value newUnquoted), Piece.stops_of_halts (by simp) fun _ _ => rfl⟩
    have replaced := Piece.cut_replace cutHere fits rfl (by simp)
    rw [String.toList_ofList, cutHere, ← findingsToEnd_rewrite_string unquoted newUnquoted divided,
      ← replaced]
    simp

private theorem scan_rewrite_comment {source : String} {before old after : List Char}
    (comment : HasComment source.toList before old after) :
    ('\n' ∉ old ∧ ∀ char ∈ after.head?, char = '\n') ∧
      source.toList = before ++ '/' :: '/' :: (old ++ after) ∧
      ∀ firstLine new, '\n' ∉ new →
        let behind := byteLength (before ++ '/' :: '/' :: old)
        scan firstLine (.ofList (before ++ '/' :: '/' :: (new ++ after))) =
          ⟨(scan firstLine source).tokens.map
              (Token.shiftedFrom behind ⟨byteLength old, 0⟩ ⟨byteLength new, 0⟩),
            (scan firstLine source).errors.map
              (LexError.shiftedFrom behind ⟨byteLength old, 0⟩ ⟨byteLength new, 0⟩)⟩ := by
  obtain ⟨front, back, cutHere, rfl, rfl⟩ := comment
  have divided := Piece.divided_cut source.toList
  have spelled := Piece.cut_text source.toList
  rw [cutHere] at divided spelled
  obtain ⟨⟨shape, stops⟩, _⟩ := divided.middle
  have sameLine : '\n' ∉ old := by
    cases shape with
    | comment isComment =>
      obtain ⟨body, same, none⟩ := isComment
      cases same
      exact none
  refine ⟨⟨sameLine, ?_⟩, by simp [← spelled], ?_⟩
  · intro char first
    simpa [Piece.Category.continues] using stops.next char first
  · intro firstLine new newSameLine behind
    apply scan_map
    have fits : Piece.Fits ⟨.comment, '/' :: '/' :: new⟩ (back.flatMap Piece.text) :=
      ⟨.comment ⟨new, rfl, newSameLine⟩, Piece.stops_of_halts (by simp) stops.next⟩
    have replaced := Piece.cut_replace cutHere fits rfl (by simp)
    rw [String.toList_ofList, cutHere, ← findingsToEnd_rewrite_comment sameLine newSameLine divided,
      ← replaced]
    simp

/-- The value of a string and the text of a comment tell nothing to the rest of the scan. With another
one, what is behind has other places, by as much as the two texts differ; a string has its new value,
and its end moves as well. -/
theorem scan_opacity (firstLine : Nat) (source : String) :
    (∀ token ∈ (scan firstLine source).tokens, token.kind = .string →
      ∃ before old after, source.toList = before ++ '"' :: (old ++ '"' :: after) ∧
        byteLength before = token.span.start ∧ token.lexeme = .ofList ('"' :: (old ++ ['"'])) ∧
        ∀ value, '"' ∉ value →
          scan firstLine (.ofList (before ++ '"' :: (value ++ '"' :: after))) =
            ⟨(scan firstLine source).tokens.map (Token.afterRewrite token old value),
              (scan firstLine source).errors.map
                (LexError.shiftedFrom token.span.stop (extent old) (extent value))⟩) ∧
    ∀ before old after, HasComment source.toList before old after →
      ('\n' ∉ old ∧ ∀ char ∈ after.head?, char = '\n') ∧
        source.toList = before ++ '/' :: '/' :: (old ++ after) ∧
        ∀ new, '\n' ∉ new →
          let behind := byteLength (before ++ '/' :: '/' :: old)
          scan firstLine (.ofList (before ++ '/' :: '/' :: (new ++ after))) =
            ⟨(scan firstLine source).tokens.map
                (Token.shiftedFrom behind ⟨byteLength old, 0⟩ ⟨byteLength new, 0⟩),
              (scan firstLine source).errors.map
                (LexError.shiftedFrom behind ⟨byteLength old, 0⟩ ⟨byteLength new, 0⟩)⟩ := by
  refine ⟨fun token member string => scan_rewrite_string member string, ?_⟩
  intro before old after comment
  obtain ⟨ends, whole, rewritten⟩ := scan_rewrite_comment comment
  exact ⟨ends, whole, rewritten firstLine⟩

/-- Slashes go into a string and more slashes into a comment, between an error and an open string. -/
theorem scan_opacity_slashes :
    let source := "@\"é\n\" // \"\nx \"d"
    let string : Token := ⟨.string, "\"é\n\"", .text "é\n", 2, ⟨1, 6⟩⟩
    (string ∈ (scan 1 source).tokens ∧ string.kind = .string ∧ '"' ∉ "//\\".toList) ∧
      (HasComment source.toList "@\"é\n\" ".toList " \"".toList "\nx \"d".toList ∧ '\n' ∉ "//".toList) ∧
      scan 1 "@\"//\\\" // \"\nx \"d" =
        ⟨(scan 1 source).tokens.map (Token.afterRewrite string "é\n".toList "//\\".toList),
          (scan 1 source).errors.map (LexError.shiftedFrom 6 ⟨3, 1⟩ ⟨3, 0⟩)⟩ ∧
      scan 1 "@\"é\n\" ////\nx \"d" =
        ⟨(scan 1 source).tokens.map (Token.shiftedFrom 11 ⟨2, 0⟩ ⟨2, 0⟩),
          (scan 1 source).errors.map (LexError.shiftedFrom 11 ⟨2, 0⟩ ⟨2, 0⟩)⟩ := by
  intro source string
  have member : string ∈ (scan 1 source).tokens := by decide +kernel
  have unquoted : '"' ∉ "//\\".toList := by decide
  have sameLine : '\n' ∉ "//".toList := by decide
  have comment : HasComment source.toList "@\"é\n\" ".toList " \"".toList "\nx \"d".toList :=
    ⟨[⟨.unexpected, ['@']⟩, ⟨.token .string, "\"é\n\"".toList⟩, ⟨.blank, [' ']⟩],
      [⟨.blank, ['\n']⟩, ⟨.token .identifier, ['x']⟩, ⟨.blank, [' ']⟩, ⟨.unterminated, "\"d".toList⟩],
      by decide +kernel, by decide, by decide⟩
  obtain ⟨before, old, after, whole, start, lexeme, rewritten⟩ :=
    (scan_opacity 1 source).1 string member rfl
  have quoted : '"' :: (old ++ ['"']) = "\"é\n\"".toList := by
    rw [← String.toList_ofList (l := '"' :: (old ++ ['"'])), ← lexeme]
  have parts : source.toList = ['@'] ++ ("\"é\n\"".toList ++ " // \"\nx \"d".toList) := by decide
  have joined : '"' :: (old ++ '"' :: after) = "\"é\n\"".toList ++ after := by simp [← quoted]
  rw [whole, joined] at parts
  obtain ⟨rfl, rest⟩ := append_inj_of_byteLength parts start
  obtain rfl := List.append_cancel_left rest
  obtain rfl : old = "é\n".toList := by simpa using congrArg (fun text => text.tail.dropLast) quoted
  have inString := rewritten _ unquoted
  have inComment := ((scan_opacity 1 source).2 _ _ _ comment).2.2 _ sameLine
  exact ⟨⟨member, rfl, unquoted⟩, ⟨comment, sameLine⟩, inString, inComment⟩

end LoxLex
