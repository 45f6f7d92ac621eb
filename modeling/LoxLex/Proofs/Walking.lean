import LoxLex.Proofs.Reading
import LoxLex.Proofs.Findings

/-! The walk over bytes finds what the cut into pieces finds: from between two characters it reads the
first piece of the text behind the cursor, and stops between two characters again. -/

namespace LoxLex
open Text

private theorem lt_of_isDigit {char : Char} (digit : char.isDigit) : char.toNat < 0x80 :=
  Nat.lt_of_le_of_lt (Char.isDigit_iff_toNat.mp digit).2 (by decide)

private theorem lt_of_isWordStart {char : Char} (start : isWordStart char) : char.toNat < 0x80 := by
  rcases (Bool.or_eq_true _ _).mp start with letter | underscore
  · rcases (Bool.or_eq_true _ _).mp letter with upper | lower
    · have bound := UInt32.le_iff_toNat_le.mp (of_decide_eq_true upper).2
      exact Nat.lt_of_le_of_lt bound (by decide)
    · have bound := UInt32.le_iff_toNat_le.mp (of_decide_eq_true ((Bool.and_eq_true _ _).mp lower).2)
      exact Nat.lt_of_le_of_lt bound (by decide)
  · rw [of_decide_eq_true underscore]
    decide

theorem lt_of_isWordChar {char : Char} (word : isWordChar char) : char.toNat < 0x80 := by
  rcases (Bool.or_eq_true _ _).mp word with start | digit
  · exact lt_of_isWordStart start
  · exact lt_of_isDigit digit

private theorem lt_of_mem_marks {char : Char} (meant : char ∈ marks) : char.toNat < 0x80 := by
  have small : marks.all fun mark => mark.toNat < 0x80 := by decide
  simpa using List.all_eq_true.mp small char meant

private theorem isForeign_of_le {char : Char} (large : 0x80 ≤ char.toNat) : IsForeign char :=
  ⟨fun meant => Nat.not_le_of_lt (lt_of_mem_marks meant) large,
    fun word => Nat.not_le_of_lt (lt_of_isWordChar word) large⟩

theorem Progress.record_place (report : σ → LexError → σ) (progress : Progress σ) (finding : Option Finding)
    (place : Place) : (progress.record report finding place).place = place := by
  unfold record
  split <;> rfl

namespace Bytewise

theorem toChar_of_spells {byte : UInt8} {char : Char} (spells : Spells byte char) : toChar byte = char := by
  rw [toChar, spells.toNat_eq, Char.ofNat_toNat]

private theorem toNat_toChar (byte : UInt8) : (toChar byte).toNat = byte.toNat := by
  have valid : byte.toNat.isValidChar := .inl (Nat.lt_trans byte.toNat_lt (by decide))
  rw [toChar, Char.ofNat, dif_pos valid]
  rfl

private theorem agrees_class {test : Char → Bool} (narrow : ∀ char, test char → char.toNat < 0x80) :
    Agrees (fun byte => test (toChar byte)) test false := by
  have beyond : ∀ char : Char, 0x80 ≤ char.toNat → test char = false := by
    intro char large
    rw [Bool.eq_false_iff]
    intro holds
    exact Nat.not_le_of_lt (narrow char holds) large
  refine ⟨?_, ?_, beyond⟩
  · intro byte char spells
    simp only [toChar_of_spells spells]
  · intro byte large
    apply beyond
    rw [toNat_toChar]
    exact UInt8.le_iff_toNat_le.mp large

private theorem agrees_ne {mark : UInt8} {sign : Char} (signs : Spells mark sign) :
    Agrees (· ≠ mark) (· ≠ sign) true := by
  refine ⟨?_, ?_, ?_⟩
  · intro byte char spells
    exact decide_eq_decide.mpr (not_congr (spells.eq_iff signs))
  · intro byte large
    apply decide_eq_true
    rintro rfl
    exact UInt8.not_le.mpr signs.lt large
  · intro char large
    apply decide_eq_true
    rintro rfl
    exact Nat.not_le_of_lt signs.small large

private theorem equals_spells : Spells 0x3D '=' := ⟨by decide, rfl⟩

private theorem quote_spells : Spells 0x22 '"' := ⟨by decide, rfl⟩

private theorem point_spells : Spells 0x2E '.' := ⟨by decide, rfl⟩

private theorem slash_spells : Spells 0x2F '/' := ⟨by decide, rfl⟩

private theorem feed_spells : Spells 0x0A '\n' := ⟨by decide, rfl⟩

private theorem agrees_digit : Agrees (fun byte => (toChar byte).isDigit) Char.isDigit false :=
  agrees_class fun _ => lt_of_isDigit

private theorem agrees_wordChar : Agrees (fun byte => isWordChar (toChar byte)) isWordChar false :=
  agrees_class fun _ => lt_of_isWordChar

/-- The place of a cursor. -/
def placeOf (cursor : Cursor) : Place := ⟨cursor.pos, cursor.line⟩

theorem placeOf_behind (cursor : Cursor) (text : List Char) :
    placeOf (cursor.behind text) = (placeOf cursor).after text := by
  rw [Cursor.behind_eq]
  rfl

variable {cursor next : Cursor} {before text rest after : List Char} {char : Char}

private theorem token?_behind (between : cursor.Between before (text ++ after)) (kind : Kind) (literal : Literal)
    (same : literal = Piece.literal kind text) :
    token? kind literal cursor.pos (cursor.behind text) =
      some (Piece.finding? (placeOf cursor) ⟨.token kind, text⟩) := by
  have stop := placeOf_behind cursor text
  rw [token?, between.sliceFrom?, same, Piece.finding?, ← stop]
  rfl

private theorem error_behind (cursor : Cursor) (text : List Char) (fault : Fault) :
    error fault cursor.pos (cursor.behind text) =
      .error ⟨fault, ((placeOf cursor).after text).line, cursor.pos, byteLength text⟩ := by
  rw [error, ← placeOf_behind, Cursor.behind_eq, Nat.add_sub_cancel_left]
  rfl

private theorem matchByte_behind (between : cursor.Between before rest) {byte : UInt8} {sign : Char}
    (signs : Spells byte sign) :
    cursor.matchByte byte = if rest.head? = some sign then (true, cursor.behind [sign]) else (false, cursor) := by
  simp only [Cursor.matchByte, between.peek_eq_some_iff signs, Cursor.step_eq, Cursor.behind, signs.encode_eq]

private theorem passSymbol_behind (between : next.Between before rest) (found : Symbol) (char : Char) :
    ∃ sign more, passSymbol found next = (sign, next.behind more) ∧
      (Piece.symbol found char rest).1 = ⟨.token (.symbol sign), char :: more⟩ := by
  unfold passSymbol
  cases longer : found.withEqual? with
  | none => exact ⟨found, [], rfl, by simp [Piece.symbol, longer]⟩
  | some sign =>
    rw [matchByte_behind between equals_spells]
    by_cases equals : rest.head? = some '='
    · obtain ⟨after, rfl⟩ := List.head?_eq_some_iff.mp equals
      exact ⟨sign, ['='], by simp, by simp [Piece.symbol, longer]⟩
    · have ends : Halts (· = '=') rest := by
        intro other first
        apply decide_eq_false
        rintro rfl
        exact equals first
      exact ⟨found, [], by simp [equals], by rw [Piece.symbol_alone fun _ => ends]⟩

private theorem passString_behind (between : next.Between before rest) :
    (∃ value, passString next = (true, next.behind (value ++ ['"'])) ∧
      (Piece.string '"' rest).1 = ⟨.token .string, '"' :: (value ++ ['"'])⟩) ∨
    ∃ value, passString next = (false, next.behind value) ∧
      (Piece.string '"' rest).1 = ⟨.unterminated, '"' :: value⟩ := by
  have middle := between.behind_takeWhile (· ≠ '"')
  have ends : Halts (· ≠ '"') (rest.dropWhile (· ≠ '"')) := halts_dropWhile rest
  rw [passString, between.advanceWhile (agrees_ne quote_spells), matchByte_behind middle quote_spells, Piece.string]
  cases found : rest.dropWhile (· ≠ '"') with
  | nil => exact .inr ⟨_, if_neg (by simp), rfl⟩
  | cons closing after =>
    rw [found, halts_cons] at ends
    have quote : closing = '"' := by simpa using ends
    subst quote
    refine .inl ⟨rest.takeWhile (· ≠ '"'), ?_, rfl⟩
    rw [List.head?_cons, if_pos rfl, Cursor.behind_append]

theorem sliceFrom?_value {value : List Char}
    (between : cursor.Between before (('"' :: (value ++ ['"'])) ++ after)) :
    (cursor.behind ('"' :: (value ++ ['"']))).sliceFrom? (cursor.pos + 1) = some (.ofList (value ++ ['"'])) := by
  have inside : (cursor.behind ['"']).Between (before ++ ['"']) ((value ++ ['"']) ++ after) :=
    Cursor.Between.behind between
  have found := inside.sliceFrom?
  rwa [← Cursor.behind_append, Cursor.behind_eq cursor ['"']] at found

theorem utf8ByteSize_closed (value : List Char) :
    (String.ofList (value ++ ['"'])).utf8ByteSize = byteLength value + 1 := by
  rw [← byteLength_toList, String.toList_ofList, byteLength_append]
  rfl

theorem slice?_inner (value : List Char) :
    let closed := String.ofList (value ++ ['"'])
    slice? 0 (closed.utf8ByteSize - 1) closed.toList = some value := by
  intro closed
  rw [utf8ByteSize_closed, Nat.add_sub_cancel, String.toList_ofList]
  simpa [byteLength] using slice?_append [] value ['"']

private theorem stringValue?_behind {value : List Char}
    (between : cursor.Between before (('"' :: (value ++ ['"'])) ++ after)) :
    stringValue? cursor.pos (cursor.behind ('"' :: (value ++ ['"']))) = some (.ofList value) := by
  rw [stringValue?, sliceFrom?_value between, Option.bind_eq_bind, Option.bind_some, slice?_inner]
  rfl

private theorem literal_ofWord (name : String) (text : List Char) : .none = Piece.literal (.ofWord name) text := by
  rw [Kind.ofWord]
  cases Keyword.ofWord? name <;> rfl

private theorem number_whole_of_not {digit : Char} (pointless : ∀ next more,
    rest.dropWhile Char.isDigit = '.' :: next :: more → next.isDigit = false) :
    (Piece.number digit rest).1 = ⟨.token .number, digit :: rest.takeWhile Char.isDigit⟩ := by
  unfold Piece.number
  split
  next next more found => rw [if_neg (by simp [pointless next more found])]
  next => rfl

private theorem passNumber_behind (between : next.Between before rest) (digit : Char) :
    ∃ more, passNumber next = next.behind more ∧ (Piece.number digit rest).1 = ⟨.token .number, digit :: more⟩ := by
  let whole := rest.takeWhile Char.isDigit
  have middle : (next.behind whole).Between _ _ := between.behind_takeWhile Char.isDigit
  have passed : next.advanceWhile (fun byte => (toChar byte).isDigit) = next.behind whole :=
    between.advanceWhile agrees_digit
  by_cases fraction : ∃ first more, rest.dropWhile Char.isDigit = '.' :: first :: more ∧ first.isDigit
  · obtain ⟨first, more, found, isDigit⟩ := fraction
    rw [found] at middle
    have point : ((next.behind whole).behind ['.']).Between _ (first :: more) := middle.behind
    refine ⟨whole ++ ('.' :: (first :: more).takeWhile Char.isDigit), ?_, ?_⟩
    · have goesOn : (next.behind whole).peek = some 0x2E := (middle.peek_eq_some_iff point_spells).mpr rfl
      have digits : (next.behind whole).peekNext.any (fun byte => (toChar byte).isDigit) := by
        rwa [middle.any_peekNext point_spells agrees_digit]
      have both := (Bool.and_eq_true _ _).mpr ⟨decide_eq_true goesOn, digits⟩
      rw [passNumber, passed, if_pos both, middle.advance point_spells, point.advanceWhile agrees_digit,
        ← Cursor.behind_append, ← Cursor.behind_append]
      rfl
    · simp [Piece.number, found, isDigit, whole]
  · refine ⟨whole, ?_, number_whole_of_not ?_⟩
    · have ends : ¬ ((next.behind whole).peek = some 0x2E ∧
          (next.behind whole).peekNext.any fun byte => (toChar byte).isDigit) := by
        rintro ⟨point, digits⟩
        obtain ⟨behind, found⟩ := List.head?_eq_some_iff.mp ((middle.peek_eq_some_iff point_spells).mp point)
        rw [found] at middle
        rw [middle.any_peekNext point_spells agrees_digit] at digits
        obtain ⟨first, here, isDigit⟩ := (Option.any_eq_true ..).mp digits
        obtain ⟨more, rfl⟩ := List.head?_eq_some_iff.mp here
        exact fraction ⟨first, more, found, isDigit⟩
      rw [passNumber, passed, if_neg]
      rwa [Bool.and_eq_true, decide_eq_true_eq]
    · intro first more found
      simpa using fun isDigit => fraction ⟨first, more, found, isDigit⟩

private theorem continue?_foreign {start : Nat} {byte : UInt8} (foreign : IsForeign (toChar byte)) :
    continue? start byte next =
      let stop := if byte < 0x80 then next else next.skipContinuation
      (some (some (error .unexpectedCharacter start stop)), stop) := by
  obtain ⟨unmarked, noWord⟩ := foreign
  have plain := mt mem_marks.mpr unmarked
  simp only [not_or, Bool.not_eq_true, Option.isSome_eq_false_iff, Option.isNone_iff_eq_none] at plain
  have notSlash : byte ≠ 0x2F := by
    rintro rfl
    exact unmarked (by decide)
  have notQuote : byte ≠ 0x22 := by
    rintro rfl
    exact unmarked (by decide)
  simp [continue?, plain, notSlash, notQuote, mt isWordChar_of_isDigit noWord, mt isWordChar_of_isWordStart noWord]

private theorem skip_wide {lead : UInt8} {more : List UInt8} (between : cursor.Between before (char :: rest))
    (spelled : String.utf8EncodeChar char = lead :: more) (goesOn : ∀ byte ∈ more, isContinuation byte) :
    (cursor.step lead).skipContinuation = cursor.behind [char] := by
  have bytes : cursor.rest = [lead] ++ (more ++ encode rest) := by
    rw [between.rest, encode_cons, spelled]
    rfl
  rw [Cursor.step_eq, Cursor.skipContinuation, Cursor.advanceWhile_eq, Cursor.rest_pass bytes,
    takeWhile_isContinuation goesOn, Cursor.pass_pass, Cursor.behind]
  simp [encode, spelled]

private theorem first_foreign (foreign : IsForeign char) (rest : List Char) :
    (Piece.first char rest).1 = ⟨.unexpected, [char]⟩ := by
  obtain ⟨_, _, same, found⟩ := Piece.first_of_fits (Piece.unexpected_fits foreign rest)
  cases same
  exact congrArg Prod.fst found

private theorem continue?_ascii {byte : UInt8} {piece : Piece} (between : cursor.Between before (char :: rest))
    (spells : Spells byte char) (first : (Piece.first char rest).1 = piece) :
    continue? cursor.pos byte (cursor.behind [char]) =
      (some (piece.finding? (placeOf cursor)), cursor.behind piece.text) := by
  have next : (cursor.behind [char]).Between (before ++ [char]) rest := between.behind
  have joined : ∀ more, (cursor.behind [char]).behind more = cursor.behind (char :: more) :=
    fun more => (cursor.behind_append [char] more).symm
  rw [continue?, toChar_of_spells spells]
  simp only [spells.eq_iff slash_spells, spells.eq_iff quote_spells, next.peek_eq_some_iff slash_spells]
  have own : cursor.Between before (piece.text ++ (Piece.first char rest).2) := by
    rwa [← first, Piece.first_text]
  generalize (Piece.first char rest).2 = after at own
  unfold Piece.first at first
  by_cases layout : isLayout char
  · rw [if_pos layout] at first ⊢
    subst first
    rfl
  rw [if_neg layout] at first ⊢
  by_cases comment : char = '/' ∧ rest.head? = some '/'
  · rw [if_pos comment] at first ⊢
    subst first
    rw [next.advanceWhile (agrees_ne feed_spells), joined]
    rfl
  rw [if_neg comment] at first ⊢
  cases known : Symbol.ofChar? char with
  | some found =>
    obtain ⟨sign, more, passed, same⟩ := passSymbol_behind next found char
    rw [known] at first
    cases first.symm.trans same
    dsimp only
    rw [passed, joined]
    exact Prod.ext (token?_behind own _ .none rfl) rfl
  | none =>
    rw [known] at first
    dsimp only at first ⊢
    by_cases quote : char = '"'
    · subst quote
      rw [if_pos rfl]
      rcases passString_behind next with ⟨value, passed, same⟩ | ⟨value, passed, same⟩
      · cases first.symm.trans same
        rw [passed, joined]
        dsimp only
        rw [stringValue?_behind own]
        exact Prod.ext (token?_behind own _ (.text (.ofList value)) (by simp [Piece.literal])) rfl
      · cases first.symm.trans same
        rw [passed, joined]
        dsimp only
        rw [error_behind]
        rfl
    rw [if_neg quote] at first ⊢
    by_cases digit : char.isDigit
    · obtain ⟨more, passed, same⟩ := passNumber_behind next char
      rw [if_pos digit] at first ⊢
      cases first.symm.trans same
      rw [passed, joined, own.sliceFrom?]
      exact Prod.ext (token?_behind own _ _ (by simp [Piece.literal])) rfl
    rw [if_neg digit] at first ⊢
    by_cases word : isWordStart char
    · rw [if_pos word, Piece.word] at first
      cases first
      rw [if_pos word, next.advanceWhile agrees_wordChar, joined, own.sliceFrom?]
      exact Prod.ext (token?_behind own _ .none (literal_ofWord ..)) rfl
    · rw [if_neg word] at first ⊢
      subst first
      rw [if_pos spells.lt, error_behind]
      rfl

/-- What a byte begins is the first piece from its character on, and the cursor comes behind it. -/
private theorem continue?_behind {byte : UInt8} {piece : Piece} (between : cursor.Between before (char :: rest))
    (found : cursor.peek = some byte) (first : (Piece.first char rest).1 = piece) :
    continue? cursor.pos byte (cursor.step byte) =
      (some (piece.finding? (placeOf cursor)), cursor.behind piece.text) := by
  obtain ⟨bytes, spelled, shape⟩ := exists_encoded char
  have here : bytes.head? = some byte := by
    rw [← found, Cursor.peek_eq, between.rest, encode_cons, spelled, List.head?_append]
    cases shape <;> rfl
  cases shape with
  | @wide lead more large begins goesOn =>
    cases here
    have beyond : ¬ byte < 0x80 := UInt8.not_lt.mpr (UInt8.le_trans (by decide) begins)
    have foreign : IsForeign (toChar byte) := by
      apply isForeign_of_le
      rw [toNat_toChar]
      exact UInt8.le_iff_toNat_le.mp (UInt8.not_lt.mp beyond)
    rw [first_foreign (isForeign_of_le large)] at first
    subst first
    rw [continue?_foreign foreign]
    dsimp only
    rw [if_neg beyond, skip_wide between spelled goesOn, error_behind]
    rfl
  | ascii spells =>
    cases here
    rw [Cursor.Between.step spells]
    exact continue?_ascii between spells first

/-- Between two characters one piece is read, up to between two others. -/
theorem exists_read (between : cursor.Between before (char :: rest)) :
    let piece := (Piece.first char rest).1
    ∃ byte, cursor.peek = some byte ∧
      continue? cursor.pos byte (cursor.step byte) =
        (some (piece.finding? (placeOf cursor)), cursor.behind piece.text) ∧
      (cursor.behind piece.text).Between (before ++ piece.text) (Piece.first char rest).2 := by
  intro piece
  obtain ⟨byte, found⟩ : ∃ byte, cursor.peek = some byte := by
    obtain ⟨bytes, spelled, shape⟩ := exists_encoded char
    rw [Cursor.peek_eq, between.rest, encode_cons, spelled]
    cases shape <;> exact ⟨_, rfl⟩
  exact ⟨byte, found, continue?_behind between found rfl, Cursor.Between.behind (by rwa [Piece.first_text])⟩

theorem peek_of_end (between : cursor.Between before []) : cursor.peek = none := by
  rw [Cursor.peek_eq, between.rest]
  rfl

variable {σ : Type u} {report : σ → LexError → σ} {progress : Progress σ}

private theorem walk?_of_end (ends : cursor.peek = none) : walk? report progress cursor = some progress := by
  unfold walk?
  split
  next => rfl
  next byte found => rw [ends] at found; cases found

private theorem walk?_of_read {byte : UInt8} {finding : Option Finding} {later : Cursor}
    (found : cursor.peek = some byte) (read : continue? cursor.pos byte (cursor.step byte) = (some finding, later)) :
    walk? report progress cursor = walk? report (progress.record report finding (placeOf later)) later := by
  rw [walk?]
  split
  next ends => rw [found] at ends; cases ends
  next other here =>
    cases found.symm.trans here
    split
    next missing => rw [read] at missing; cases missing
    next same => cases read.symm.trans same; rfl

private theorem walk?_eq (between : cursor.Between before after) (placed : progress.place = placeOf cursor) :
    walk? report progress cursor = some ((Piece.cut after).foldl (Progress.step report) progress) := by
  fun_induction Piece.cut after generalizing cursor before progress with
  | case1 => exact walk?_of_end (peek_of_end between)
  | case2 char rest ih =>
    obtain ⟨byte, found, read, later⟩ := exists_read between
    rw [walk?_of_read found read, ih later (Progress.record_place ..), List.foldl_cons, Progress.step, placed,
      placeOf_behind]

theorem scanWith?_eq (sink : σ) (firstLine : Nat) (source : String) :
    scanWith? report sink firstLine source = some (scanWith report sink firstLine source) := by
  have walked : walk? report (.start sink firstLine) (.start source firstLine) = _ :=
    walk?_eq (Cursor.start_between source firstLine) rfl
  rw [scanWith?, walked]
  rfl

theorem scan?_eq (firstLine : Nat) (source : String) : scan? firstLine source = some (scan firstLine source) := by
  rw [scan?, scanWith?_eq]
  rfl

end Bytewise

end LoxLex
