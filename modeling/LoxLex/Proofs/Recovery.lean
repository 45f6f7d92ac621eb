import LoxLex.Proofs.Splice
import LoxLex.Proofs.WrappedLines
import Mathlib.Data.List.Sort

/-! Errors stay local. A character that belongs to no lexeme is one error wherever it is put between
tokens, and the scan finds all else as before. -/

namespace LoxLex
open Text

/-- What begins at an offset or behind it moves when text is put in there. -/
def Token.movedFrom (offset bytes : Nat) (token : Token) : Token :=
  if offset ≤ token.span.start then token.moved bytes 0 else token

def LexError.movedFrom (offset bytes : Nat) (error : LexError) : LexError :=
  if offset ≤ error.offset then error.moved bytes 0 else error

private theorem map_split {α : Type} {start : α → Nat} {move : α → α} {offset : Nat} {front back : List α}
    (before : ∀ item ∈ front, start item < offset) (behind : ∀ item ∈ back, offset ≤ start item) :
    (front ++ back).map (fun item => if offset ≤ start item then move item else item) =
      front ++ back.map move := by
  rw [List.map_append]
  congr 1
  · rw [List.map_congr_left fun item member => if_neg (Nat.not_le_of_lt (before item member))]
    exact List.map_id _
  · apply List.map_congr_left
    intro item member
    exact if_pos (behind item member)

private theorem orderedInsert_between {α : Type} (below : α → α → Prop) [DecidableRel below] {item : α}
    {front back : List α} (before : ∀ other ∈ front, ¬ below item other)
    (behind : ∀ other ∈ back, below item other) :
    (front ++ back).orderedInsert below item = front ++ item :: back := by
  induction front with
  | nil =>
    cases back with
    | nil => rfl
    | cons next back => exact List.orderedInsert_cons_of_le below back (behind next List.mem_cons_self)
  | cons first front ih =>
    obtain ⟨here, later⟩ := List.forall_mem_cons.mp before
    rw [List.cons_append, List.orderedInsert_of_not_le below _ here, ih later]
    rfl

/-- Findings that begin before an offset, and findings that begin there or behind it. -/
private structure DividedAt (offset : Nat) (front back : List Finding) : Prop where
  before : ∀ finding ∈ front, finding.span.start < offset
  behind : ∀ finding ∈ back, offset ≤ finding.span.start

private theorem findings_dividedAt {front back : List Piece} (divided : Piece.Divided (front ++ back))
    (place : Place) :
    let here := place.after (front.flatMap Piece.text)
    DividedAt here.offset (Piece.findings place front) (Piece.findings here back) := by
  refine ⟨?_, ?_⟩
  · intro finding member
    obtain ⟨_, nonempty, ends⟩ := Piece.span_of_mem_findings divided.front member
    exact Nat.lt_of_lt_of_le nonempty ends
  · intro finding member
    exact (Piece.span_of_mem_findings divided.back member).1

namespace DividedAt

variable {offset : Nat} {front back : List Finding}

private theorem tokens (parts : DividedAt offset front back) (mistake : LexError) (bytes : Nat) :
    ((front ++ back).filterMap Finding.token?).map (Token.movedFrom offset bytes) =
      (front ++ .error mistake :: back.map (Finding.moved bytes 0)).filterMap Finding.token? := by
  rw [List.filterMap_append, List.filterMap_append, List.filterMap_cons_none rfl, Finding.tokens_moved]
  refine map_split ?_ ?_
  · exact fun token member => parts.before _ (Finding.mem_tokens.mp member)
  · exact fun token member => parts.behind _ (Finding.mem_tokens.mp member)

private theorem errors (parts : DividedAt offset front back) (mistake : LexError)
    (there : mistake.offset = offset) (bytes : Nat) :
    (((front ++ back).filterMap Finding.error?).map (LexError.movedFrom offset bytes)).orderedInsert
        (fun first second => first.offset ≤ second.offset) mistake =
      (front ++ .error mistake :: back.map (Finding.moved bytes 0)).filterMap Finding.error? := by
  have before : ∀ error ∈ front.filterMap Finding.error?, error.offset < offset :=
    fun error member => parts.before _ (Finding.mem_errors.mp member)
  have behind : ∀ error ∈ back.filterMap Finding.error?, offset ≤ error.offset :=
    fun error member => parts.behind _ (Finding.mem_errors.mp member)
  have moved : ((front ++ back).filterMap Finding.error?).map (LexError.movedFrom offset bytes) =
      front.filterMap Finding.error? ++
        (back.filterMap Finding.error?).map fun error => error.moved bytes 0 := by
    rw [List.filterMap_append]
    exact map_split before behind
  have own : Finding.error? (.error mistake) = some mistake := rfl
  rw [moved, List.filterMap_append, List.filterMap_cons_some own, Finding.errors_moved]
  apply orderedInsert_between
  · intro other member
    rw [there]
    exact Nat.not_le_of_lt (before other member)
  · intro other member
    obtain ⟨own, inside, rfl⟩ := List.mem_map.mp member
    rw [there]
    exact Nat.le_add_right_of_le (behind own inside)

end DividedAt

private theorem eof_movedFrom {offset : Nat} {place : Place} (behind : offset ≤ place.offset) (bytes : Nat) :
    (Token.eof place.line place.offset).movedFrom offset bytes =
      .eof (place.moved bytes 0).line (place.moved bytes 0).offset := if_pos behind

private theorem Place.after_singleton {char : Char} (sameLine : char ≠ '\n') (place : Place) :
    place.after [char] = place.moved char.utf8Size 0 := by
  simp [after, moved, byteLength, lineFeeds, sameLine]

private theorem Place.after_insert {char : Char} (sameLine : char ≠ '\n') (place : Place) (before after : List Char) :
    place.after (before ++ char :: after) = (place.after (before ++ after)).moved char.utf8Size 0 := by
  rw [List.append_cons, after_append, after_append, after_singleton sameLine, after_moved, ← after_append]

private theorem IsForeign.ne_of_mem_marks {char mark : Char} (foreign : IsForeign char) (meant : mark ∈ marks) :
    char ≠ mark := by
  rintro rfl
  exact foreign.1 meant

private theorem IsForeign.isDigit_eq_false {char : Char} (foreign : IsForeign char) : char.isDigit = false := by
  simpa using mt isWordChar_of_isDigit foreign.2

namespace Piece

private theorem Fits.head_not_layout {piece : Piece} {after : List Char} (fits : piece.Fits after)
    (proper : piece.category ≠ .blank) : ∀ char ∈ piece.text.head?, ¬ isLayout char := by
  intro char first layout
  obtain ⟨rest, spelled⟩ := List.head?_eq_some_iff.mp first
  have same : piece :: cut after = ⟨.blank, [char]⟩ :: cut (rest ++ after) := by
    rw [← cut_of_fits fits, spelled]
    exact cut_of_fits (blank_fits layout (rest ++ after))
  exact proper (congrArg category (List.cons.inj same).1)

private theorem token_continues_foreign {kind : Kind} {char : Char} (foreign : IsForeign char) :
    Category.continues (.token kind) char = false := by
  have noWord : isWordChar char = false := by simpa using foreign.2
  cases kind with
  | symbol sign =>
    have noEqual : char ≠ '=' := foreign.ne_of_mem_marks (by decide)
    have noSlash : char ≠ '/' := foreign.ne_of_mem_marks (by decide)
    simp [Category.continues, noEqual, noSlash]
  | identifier | keyword => exact noWord
  | number => exact foreign.isDigit_eq_false
  | string | eof => rfl

/-- A character that begins nothing stops all that stopped at a token. -/
private theorem stops_foreign {last token : Piece} {kind : Kind} {after rest : List Char} {char : Char}
    (fits : token.Fits after) (category : token.category = .token kind) (foreign : IsForeign char)
    (stops : last.Stops (token.text ++ after)) : last.Stops (char :: rest) := by
  have notPoint : char ≠ '.' := foreign.ne_of_mem_marks (by decide)
  obtain ⟨first, more, spelled⟩ := List.exists_cons_of_ne_nil fits.text_ne_nil
  have stopped := stops.next
  rw [spelled, List.cons_append, halts_cons] at stopped
  refine stops_cons ?_ notPoint
  cases before : last.category with
  | token kind => exact token_continues_foreign foreign
  | blank | unexpected => rfl
  | comment =>
    -- A comment only stops at a line feed, and the token begins with none.
    rw [before] at stopped
    have feed : first = '\n' := by simpa [Category.continues] using stopped
    have noLayout := fits.head_not_layout (by simp [category]) first (by simp [spelled])
    subst feed
    exact (noLayout rfl).elim
  | unterminated =>
    rw [before] at stopped
    cases stopped

private theorem divided_insert_foreign {front back : List Piece} {token : Piece} {kind : Kind} {char : Char}
    (divided : Divided (front ++ token :: back)) (category : token.category = .token kind)
    (foreign : IsForeign char) : Divided (front ++ ⟨.unexpected, [char]⟩ :: token :: back) := by
  have behind := divided.back
  have others : Divided (⟨.unexpected, [char]⟩ :: token :: back) :=
    .cons (unexpected_fits foreign _) behind
  refine divided.splice others ?_ ?_
  · intro last _ stops
    cases behind with
    | cons fits _ => exact stops_foreign fits category foreign stops
  · intro _
    exact halts_cons.mpr foreign.isDigit_eq_false

private theorem findings_insert_unexpected {place : Place} {front back : List Piece} {char : Char}
    (sameLine : char ≠ '\n') :
    let here := place.after (front.flatMap text)
    findings place (front ++ ⟨.unexpected, [char]⟩ :: back) =
      findings place front ++ .error ⟨.unexpectedCharacter, here.line, here.offset, char.utf8Size⟩ ::
        (findings here back).map (Finding.moved char.utf8Size 0) := by
  intro here
  rw [findings_append, findings, Place.after_singleton sameLine, findings_moved, finding?,
    Place.after_singleton sameLine]
  rfl

end Piece

/-- A token divides the findings, and the error of a character put in front of it comes in there. -/
private theorem exists_findings_insert {firstLine : Nat} {source : String} {token : Token} {char : Char}
    (member : token ∈ (scan firstLine source).tokens) (proper : token.kind ≠ .eof)
    (foreign : IsForeign char) :
    ∃ before after first second, source.toList = before ++ after ∧
      byteLength before = token.span.start ∧ DividedAt token.span.start first second ∧
      findings ⟨0, firstLine⟩ source.toList = first ++ second ∧
      findings ⟨0, firstLine⟩ (before ++ char :: after) = first ++
        .error ⟨.unexpectedCharacter, firstLine + lineFeeds before, token.span.start, char.utf8Size⟩ ::
          second.map (Finding.moved char.utf8Size 0) := by
  obtain ⟨front, back, same, read⟩ := exists_cut_of_token member proper
  have divided := Piece.divided_cut source.toList
  rw [same] at divided
  let before := front.flatMap Piece.text
  let after := (token.piece :: back).flatMap Piece.text
  have whole : source.toList = before ++ after := by
    rw [← List.flatMap_append, ← same, Piece.cut_text]
  have start : (Place.after ⟨0, firstLine⟩ before).offset = token.span.start := by
    rw [Piece.span_of_token read]
  have inserted : Piece.cut (before ++ char :: after) =
      front ++ ⟨.unexpected, [char]⟩ :: token.piece :: back := by
    have longer := Piece.cut_flatMap (Piece.divided_insert_foreign divided rfl foreign)
    rwa [List.flatMap_append, List.flatMap_cons] at longer
  refine ⟨before, after, Piece.findings ⟨0, firstLine⟩ front,
    Piece.findings (Place.after ⟨0, firstLine⟩ before) (token.piece :: back), whole, ?_, ?_, ?_, ?_⟩
  · rw [← start, Place.after, Nat.zero_add]
  · exact start ▸ findings_dividedAt divided ⟨0, firstLine⟩
  · rw [findings, same, Piece.findings_append]
  · rw [findings, inserted, Piece.findings_insert_unexpected (foreign.ne_of_mem_marks (by decide)), start]
    rfl

/-- As long as lines have no bound. -/
private theorem scan_insert_unbounded {firstLine : Nat} {source : String} {token : Token} {char : Char}
    (member : token ∈ (scan firstLine source).tokens) (proper : token.kind ≠ .eof)
    (foreign : IsForeign char) :
    ∃ before after, splitAt? token.span.start source.toList = some (before, after) ∧
      let found := scan firstLine source
      let mistake : LexError :=
        ⟨.unexpectedCharacter, firstLine + lineFeeds before, token.span.start, char.utf8Size⟩
      scan firstLine (.ofList (before ++ char :: after)) =
        ⟨found.tokens.map (Token.movedFrom token.span.start char.utf8Size),
          (found.errors.map (LexError.movedFrom token.span.start char.utf8Size)).orderedInsert
            (fun first second => first.offset ≤ second.offset) mistake⟩ := by
  obtain ⟨before, after, first, second, whole, placed, parts, listed, inserted⟩ :=
    exists_findings_insert member proper foreign
  refine ⟨before, after, by rw [whole, ← placed, splitAt?_append], ?_⟩
  intro found mistake
  have stop : Place.after ⟨0, firstLine⟩ (before ++ char :: after) =
      (Place.after ⟨0, firstLine⟩ source.toList).moved char.utf8Size 0 := by
    rw [Place.after_insert (foreign.ne_of_mem_marks (by decide)), whole]
  have ends : token.span.start ≤ (Place.after ⟨0, firstLine⟩ source.toList).offset := by
    simp [Place.after, whole, ← placed]
  simp only [found, scan_eq, String.toList_ofList, listed, inserted, stop, List.map_append,
    List.map_singleton, eof_movedFrom ends, parts.tokens mistake, parts.errors mistake rfl]
  rfl

private theorem wrapped_movedFrom (offset bytes : Nat) (token : Token) :
    (token.movedFrom offset bytes).wrapped = token.wrapped.movedFrom offset bytes := by
  unfold Token.movedFrom
  simp only [apply_ite Token.wrapped]
  rfl

private theorem error_wrapped_movedFrom (offset bytes : Nat) (error : LexError) :
    (error.movedFrom offset bytes).wrapped = error.wrapped.movedFrom offset bytes := by
  unfold LexError.movedFrom
  simp only [apply_ite LexError.wrapped]
  rfl

private theorem wrapped_insert (found : Scan) (offset bytes : Nat) (mistake : LexError) :
    let sooner (first second : LexError) : Prop := first.offset ≤ second.offset
    Scan.wrapped ⟨found.tokens.map (Token.movedFrom offset bytes),
        (found.errors.map (LexError.movedFrom offset bytes)).orderedInsert sooner mistake⟩ =
      ⟨found.wrapped.tokens.map (Token.movedFrom offset bytes),
        (found.wrapped.errors.map (LexError.movedFrom offset bytes)).orderedInsert sooner mistake.wrapped⟩ := by
  intro sooner
  have tokens : (found.tokens.map (Token.movedFrom offset bytes)).map Token.wrapped =
      (found.tokens.map Token.wrapped).map (Token.movedFrom offset bytes) := by
    rw [List.map_map, List.map_map]
    exact List.map_congr_left fun token _ => wrapped_movedFrom offset bytes token
  have errors : (found.errors.map (LexError.movedFrom offset bytes)).map LexError.wrapped =
      (found.errors.map LexError.wrapped).map (LexError.movedFrom offset bytes) := by
    rw [List.map_map, List.map_map]
    exact List.map_congr_left fun error _ => error_wrapped_movedFrom offset bytes error
  have inserted := List.map_orderedInsert (r := sooner) (s := sooner) LexError.wrapped
    (found.errors.map (LexError.movedFrom offset bytes)) mistake (fun _ _ => Iff.rfl) (fun _ _ => Iff.rfl)
  rw [errors] at inserted
  exact congrArg₂ Scan.mk tokens inserted

/-- A character that begins nothing, put in front of a token, adds its own error in the order of the
offsets. All else is found as before, and moved from the token on. Lines are counted in a machine word, and
so is the line of the error. -/
theorem scan_insert_foreign (firstLine : UInt64) (source : String) :
    ∃ found, found = (scan firstLine.toNat source).wrapped ∧ Bytewise.scanWrapped? firstLine source = some found ∧
      ∀ token ∈ found.tokens, token.kind ≠ .eof → ∀ char, IsForeign char →
        ∃ before after, splitAt? token.span.start source.toList = some (before, after) ∧
          let mistake : LexError :=
            ⟨.unexpectedCharacter, (firstLine + .ofNat (lineFeeds before)).toNat, token.span.start, char.utf8Size⟩
          Bytewise.scanWrapped? firstLine (.ofList (before ++ char :: after)) =
            some ⟨found.tokens.map (Token.movedFrom token.span.start char.utf8Size),
              (found.errors.map (LexError.movedFrom token.span.start char.utf8Size)).orderedInsert
                (fun first second => first.offset ≤ second.offset) mistake⟩ := by
  refine ⟨_, rfl, Bytewise.scanWrapped?_eq firstLine source, ?_⟩
  intro token member proper char foreign
  obtain ⟨own, inside, rfl⟩ := List.mem_map.mp member
  obtain ⟨before, after, split, inserted⟩ := scan_insert_unbounded inside proper foreign
  refine ⟨before, after, split, ?_⟩
  rw [Bytewise.scanWrapped?_eq, inserted, wrapped_insert, LexError.wrapped, wrapLine_word]
  rfl

/-- Behind a number and its point, between an error and a string that stays open. The line feed before them
comes behind the greatest line. -/
theorem scan_insert_foreign_point :
    let source := "@\n1.x\""
    let token : Token := ⟨.identifier, "x", .none, 0, ⟨4, 5⟩⟩
    ∃ found, Bytewise.scanWrapped? (.ofNat (UInt64.size - 1)) source = some found ∧
      (token ∈ found.tokens ∧ token.kind ≠ .eof ∧ IsForeign 'é') ∧
      found.errors = [⟨.unexpectedCharacter, UInt64.size - 1, 0, 1⟩, ⟨.unterminatedString, 0, 5, 1⟩] ∧
      Bytewise.scanWrapped? (.ofNat (UInt64.size - 1)) "@\n1.éx\"" =
        some ⟨found.tokens.map (Token.movedFrom 4 2),
          (found.errors.map (LexError.movedFrom 4 2)).orderedInsert
            (fun first second => first.offset ≤ second.offset) ⟨.unexpectedCharacter, 0, 4, 2⟩⟩ := by
  intro source token
  obtain ⟨found, told, known, inserts⟩ := scan_insert_foreign (.ofNat (UInt64.size - 1)) source
  have member : token ∈ found.tokens := by
    rw [told]
    decide +kernel
  have proper : token.kind ≠ .eof := by decide
  have foreign : IsForeign 'é' := by decide
  have errors : found.errors = [⟨.unexpectedCharacter, UInt64.size - 1, 0, 1⟩, ⟨.unterminatedString, 0, 5, 1⟩] := by
    rw [told]
    decide +kernel
  obtain ⟨before, after, split, inserted⟩ := inserts token member proper 'é' foreign
  have parts : splitAt? token.span.start source.toList = some ("@\n1.".toList, "x\"".toList) := by
    decide +kernel
  rw [parts] at split
  cases split
  exact ⟨found, known, ⟨member, proper, foreign⟩, errors, inserted⟩

end LoxLex
