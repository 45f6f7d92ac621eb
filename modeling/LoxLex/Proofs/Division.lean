import LoxLex.Proofs.Lexeme

/-! Pieces known by their form and by what may follow them, without a scanner. The scanner's cut is
the only division of a text into such pieces, so facts about a scan reduce to facts about one piece
and the text behind it. -/

namespace LoxLex

/-- A run of the characters in a class ends here. -/
def Halts (holds : Char → Bool) (after : List Char) : Prop :=
  ∀ char ∈ after.head?, holds char = false

variable {holds : Char → Bool}

@[simp] theorem halts_nil : Halts holds [] := by simp [Halts]

@[simp] theorem halts_cons {char : Char} {rest : List Char} :
    Halts holds (char :: rest) ↔ holds char = false := by
  simp [Halts]

theorem halts_iff_not_any {after : List Char} : Halts holds after ↔ ¬ after.head?.any holds := by
  cases after <;> simp

theorem Halts.append {text more : List Char} (first : Halts holds text) (second : Halts holds more) :
    Halts holds (text ++ more) := by
  cases text with
  | nil => exact second
  | cons char rest => exact halts_cons.mpr (halts_cons.mp first)

theorem Halts.append_of_ne_nil {text : List Char} (more : List Char) (first : Halts holds text)
    (nonempty : text ≠ []) : Halts holds (text ++ more) := by
  obtain ⟨char, rest, rfl⟩ := List.exists_cons_of_ne_nil nonempty
  exact halts_cons.mpr (halts_cons.mp first)

theorem Halts.of_append {text more : List Char} (ends : Halts holds (text ++ more)) : Halts holds text := by
  cases text with
  | nil => exact halts_nil
  | cons char rest => exact halts_cons.mpr (halts_cons.mp ends)

theorem halts_dropWhile (text : List Char) : Halts holds (text.dropWhile holds) := by
  intro char first
  have stopped := List.head?_dropWhile_not holds text
  rwa [Option.mem_def.mp first] at stopped

theorem takeWhile_run {run after : List Char} (inside : ∀ char ∈ run, holds char)
    (ends : Halts holds after) : (run ++ after).takeWhile holds = run := by
  rw [List.takeWhile_append_of_pos inside]
  cases after with
  | nil => simp
  | cons char rest => simp [halts_cons.mp ends]

theorem dropWhile_run {run after : List Char} (inside : ∀ char ∈ run, holds char)
    (ends : Halts holds after) : (run ++ after).dropWhile holds = after := by
  rw [List.dropWhile_append_of_pos inside]
  cases after with
  | nil => rfl
  | cons char rest => simp [halts_cons.mp ends]

theorem holds_of_mem_takeWhile {text : List Char} {char : Char} (member : char ∈ text.takeWhile holds) :
    holds char := List.all_eq_true.mp List.all_takeWhile char member

private theorem not_mem_takeWhile_ne (banned : Char) (text : List Char) :
    banned ∉ text.takeWhile (· ≠ banned) := by
  intro member
  simpa using holds_of_mem_takeWhile member

theorem ne_of_not_mem {banned : Char} {text : List Char} (absent : banned ∉ text) :
    ∀ char ∈ text, decide (char ≠ banned) := by
  intro char member
  apply decide_eq_true
  intro same
  subst same
  exact absent member

namespace Piece

inductive Shape : Piece → Prop
  | lexeme (lexeme : Lexeme) : Shape ⟨.token lexeme.kind, lexeme.text⟩
  | blank {char : Char} (layout : isLayout char) : Shape ⟨.blank, [char]⟩
  | comment {text : List Char} (comment : IsComment text) : Shape ⟨.comment, text⟩
  | unexpected {char : Char} (foreign : IsForeign char) : Shape ⟨.unexpected, [char]⟩
  | unterminated {body : List Char} (unquoted : '"' ∉ body) : Shape ⟨.unterminated, '"' :: body⟩

/-- The characters that go on with a piece of some category when they come next. -/
def Category.continues : Category → Char → Bool
  | .token (.symbol symbol), char =>
    symbol.withEqual?.isSome && char = '=' || symbol = .slash && char = '/'
  | .token (.keyword _), char | .token .identifier, char => isWordChar char
  | .token .number, char => char.isDigit
  | .comment, char => char ≠ '\n'
  | .unterminated, _ => true
  | .token .string, _ | .token .eof, _ | .blank, _ | .unexpected, _ => false

/-- A number without a fraction. -/
def IsWhole (piece : Piece) : Prop := piece.category = .token .number ∧ '.' ∉ piece.text

/-- The text behind a piece does not go on with it. Only a number without a fraction looks two
characters ahead. -/
structure Stops (piece : Piece) (after : List Char) : Prop where
  next : Halts piece.category.continues after
  fraction : piece.IsWhole → ∀ rest, after = '.' :: rest → Halts Char.isDigit rest

theorem stops_nil {piece : Piece} : piece.Stops [] := by
  refine ⟨halts_nil, ?_⟩
  intro _ rest impossible
  cases impossible

theorem stops_of_halts {piece : Piece} {after : List Char} (notNumber : piece.category ≠ .token .number)
    (next : Halts piece.category.continues after) : piece.Stops after := by
  refine ⟨next, ?_⟩
  intro whole
  exact absurd whole.1 notNumber

theorem stops_cons {piece : Piece} {char : Char} {rest : List Char}
    (next : piece.category.continues char = false) (notPoint : char ≠ '.') : piece.Stops (char :: rest) := by
  refine ⟨halts_cons.mpr next, ?_⟩
  intro _ behind same
  exact absurd (List.cons.inj same).1 notPoint

/-- A blank ends every token. -/
theorem token_stops {piece : Piece} {kind : Kind} {char : Char} {rest : List Char}
    (token : piece.category = .token kind) (layout : isLayout char) : piece.Stops (char :: rest) := by
  rcases isLayout_iff.mp layout with rfl | rfl | rfl | rfl
  all_goals
    refine stops_cons ?_ (by decide)
    rw [token]
    cases kind <;> simp [Category.continues] <;> decide

/-- A line feed ends everything but an open string. -/
theorem stops_line_feed {piece : Piece} {rest : List Char} (closed : piece.category ≠ .unterminated) :
    piece.Stops ('\n' :: rest) := by
  cases category : piece.category with
  | token kind => exact token_stops category rfl
  | unterminated => exact (closed category).elim
  | blank | comment | unexpected =>
    refine stops_cons ?_ (by decide)
    rw [category]
    rfl

/-- More text matters only behind no text at all, or behind the point that a number looks past. -/
theorem Stops.append_of_edge {piece : Piece} {text more : List Char} (first : piece.Stops text)
    (edge : text = [] → piece.Stops more)
    (digits : piece.IsWhole → text = ['.'] → Halts Char.isDigit more) : piece.Stops (text ++ more) := by
  cases text with
  | nil => exact edge rfl
  | cons char rest =>
    refine ⟨first.next.append_of_ne_nil more (List.cons_ne_nil _ _), ?_⟩
    intro whole behind same
    obtain ⟨rfl, rfl⟩ := List.cons.inj same
    have none := first.fraction whole rest rfl
    cases rest with
    | nil => exact digits whole rfl
    | cons next rest => exact none.append_of_ne_nil more (List.cons_ne_nil _ _)

private theorem Stops.append {piece : Piece} {text more : List Char} (first : piece.Stops text)
    (second : piece.Stops more) : piece.Stops (text ++ more) := by
  refine first.append_of_edge (fun _ => second) ?_
  intro whole _
  have next := second.next
  rwa [whole.1] at next

theorem Stops.of_append {piece : Piece} {text more : List Char} (stops : piece.Stops (text ++ more)) :
    piece.Stops text := by
  refine ⟨stops.next.of_append, ?_⟩
  intro whole rest same
  subst same
  exact (stops.fraction whole (rest ++ more) rfl).of_append

structure Fits (piece : Piece) (after : List Char) : Prop where
  shape : piece.Shape
  stops : piece.Stops after

theorem blank_fits {char : Char} (layout : isLayout char) (after : List Char) :
    Fits ⟨.blank, [char]⟩ after :=
  ⟨.blank layout, stops_of_halts (by simp) fun _ _ => rfl⟩

theorem unexpected_fits {char : Char} (foreign : IsForeign char) (after : List Char) :
    Fits ⟨.unexpected, [char]⟩ after :=
  ⟨.unexpected foreign, stops_of_halts (by simp) fun _ _ => rfl⟩

/-- Pieces that each fit in front of the text of those behind them. -/
inductive Divided : List Piece → Prop
  | nil : Divided []
  | cons {piece : Piece} {pieces : List Piece} (fits : piece.Fits (pieces.flatMap Piece.text))
      (divided : Divided pieces) : Divided (piece :: pieces)

theorem Divided.append {first second : List Piece} (divided : Divided first) (rest : Divided second)
    (stops : ∀ piece ∈ first, piece.Stops (second.flatMap Piece.text)) : Divided (first ++ second) := by
  induction divided with
  | nil => exact rest
  | @cons piece pieces fits _ ih =>
    obtain ⟨here, behind⟩ := List.forall_mem_cons.mp stops
    have joined : piece.Fits ((pieces ++ second).flatMap Piece.text) := by
      rw [List.flatMap_append]
      exact ⟨fits.shape, fits.stops.append here⟩
    exact .cons joined (ih behind)

private theorem shape_token {kind : Kind} {text : List Char} (lexeme : Lexeme)
    (sameKind : lexeme.kind = kind) (sameText : lexeme.text = text) : Shape ⟨.token kind, text⟩ :=
  sameKind ▸ sameText ▸ .lexeme lexeme

theorem symbol_alone {found : Symbol} {char : Char} {rest : List Char}
    (ends : found.withEqual?.isSome → Halts (· = '=') rest) :
    symbol found char rest = (⟨.token (.symbol found), [char]⟩, rest) := by
  unfold symbol
  split
  next longerHere =>
    have different := halts_cons.mp (ends (by simp [longerHere]))
    simp at different
  next => rfl

private theorem symbol_longer {found longer : Symbol} {char : Char} {rest : List Char}
    (longerHere : found.withEqual? = some longer) :
    symbol found char ('=' :: rest) = (⟨.token (.symbol longer), [char, '=']⟩, rest) := by
  simp [symbol, longerHere]

private theorem halts_symbol {symbol : Symbol} {after : List Char} :
    Halts (Category.continues (.token (.symbol symbol))) after ↔
      (symbol.withEqual?.isSome → Halts (· = '=') after) ∧ (symbol = .slash → Halts (· = '/') after) := by
  cases after with
  | nil => simp
  | cons char rest => simp [Category.continues]

private theorem symbol_fits {found : Symbol} {char : Char} {rest : List Char}
    (known : Symbol.ofChar? char = some found)
    (single : ¬ (char = '/' ∧ rest.head? = some '/')) :
    (symbol found char rest).1.Fits (symbol found char rest).2 := by
  have spelled := Symbol.ofChar?_eq_some.mp known
  by_cases ends : found.withEqual?.isSome → Halts (· = '=') rest
  · rw [symbol_alone ends]
    refine ⟨shape_token (.symbol found) rfl spelled, stops_of_halts (by simp) (halts_symbol.mpr ⟨ends, ?_⟩)⟩
    intro slash next first
    subst slash
    have same : char = '/' := by simpa [Symbol.text] using spelled.symm
    simp only [decide_eq_false_iff_not]
    intro second
    exact single ⟨same, second ▸ first⟩
  · obtain ⟨some, goesOn⟩ := Classical.not_imp.mp ends
    obtain ⟨longer, longerHere⟩ := Option.isSome_iff_exists.mp some
    obtain ⟨rest, rfl⟩ : ∃ behind, rest = '=' :: behind := by
      cases rest with
      | nil => simp at goesOn
      | cons next behind => exact ⟨behind, by simpa using goesOn⟩
    have text := Symbol.text_of_withEqual? longerHere
    rw [spelled] at text
    rw [symbol_longer longerHere]
    refine ⟨shape_token (.symbol longer) rfl text, stops_of_halts (by simp) ?_⟩
    intro next _
    cases found <;> cases longerHere <;> rfl

private theorem string_fits (rest : List Char) : (string '"' rest).1.Fits (string '"' rest).2 := by
  have unquoted : '"' ∉ rest.takeWhile (· ≠ '"') := not_mem_takeWhile_ne '"' rest
  unfold string
  split
  next => exact ⟨.unterminated unquoted, stops_nil⟩
  next closing rest' found =>
    have closed : Halts (· ≠ '"') (rest.dropWhile (· ≠ '"')) := halts_dropWhile rest
    rw [found, halts_cons] at closed
    have quote : closing = '"' := by simpa using closed
    refine ⟨shape_token (.string _ unquoted) rfl (by rw [quote]; rfl), stops_of_halts (by simp) ?_⟩
    exact fun _ _ => rfl

private theorem number_fits {digit : Char} (rest : List Char) (first : digit.isDigit) :
    (number digit rest).1.Fits (number digit rest).2 := by
  have run : ∀ char ∈ digit :: rest.takeWhile Char.isDigit, char.isDigit := by
    intro char member
    rcases List.mem_cons.mp member with rfl | later
    · exact first
    · exact holds_of_mem_takeWhile later
  have whole : Shape ⟨.token .number, digit :: rest.takeWhile Char.isDigit⟩ :=
    shape_token (.number _ [] (List.cons_ne_nil _ _) (by simpa using run)) rfl (by simp [Lexeme.text])
  unfold number
  split
  next next rest' found =>
    split
    next digitHere =>
      have fraction : ∀ char ∈ next :: rest'.takeWhile Char.isDigit, char.isDigit := by
        intro char member
        rcases List.mem_cons.mp member with rfl | later
        · exact digitHere
        · exact holds_of_mem_takeWhile later
      have digits : ∀ char ∈ (digit :: rest.takeWhile Char.isDigit) ++ (next :: rest'.takeWhile Char.isDigit),
          char.isDigit := by
        intro char member
        rcases List.mem_append.mp member with before | behind
        · exact run char before
        · exact fraction char behind
      refine ⟨shape_token (.number _ _ (List.cons_ne_nil _ _) digits) rfl (by simp [Lexeme.text]),
        halts_dropWhile rest', ?_⟩
      intro pointless
      simp [IsWhole] at pointless
    next noDigit =>
      refine ⟨whole, halts_cons.mpr rfl, ?_⟩
      intro _ behind same
      cases same
      simpa using noDigit
  next other =>
    refine ⟨whole, halts_dropWhile rest, ?_⟩
    intro _ behind same
    cases behind with
    | nil => simp
    | cons next behind => exact (other next behind same).elim

private theorem stops_word {piece : Piece} {name : String} {after : List Char}
    (category : piece.category = .token (.ofWord name)) : piece.Stops after ↔ Halts isWordChar after := by
  have notNumber : piece.category ≠ .token .number := by
    rw [category, Kind.ofWord]
    cases Keyword.ofWord? name <;> simp
  have same : piece.category.continues = isWordChar := by
    rw [category, Kind.ofWord]
    cases Keyword.ofWord? name <;> rfl
  constructor
  · intro stops
    rw [← same]
    exact stops.next
  · intro ends
    apply stops_of_halts notNumber
    rwa [same]

private theorem word_fits {char : Char} (rest : List Char) (start : isWordStart char) :
    (word char rest).1.Fits (word char rest).2 := by
  have spelled : IsWord (char :: rest.takeWhile isWordChar) := by
    refine ⟨start, ?_⟩
    intro next member
    exact holds_of_mem_takeWhile member
  obtain ⟨lexeme, sameKind, sameText⟩ := Lexeme.exists_of_isWord spelled
  refine ⟨shape_token lexeme sameKind sameText, ?_⟩
  apply (stops_word rfl).mpr
  exact halts_dropWhile rest

private theorem comment_fits (rest : List Char) :
    (comment '/' ('/' :: rest)).1.Fits (comment '/' ('/' :: rest)).2 := by
  have isComment : IsComment ('/' :: ('/' :: rest).takeWhile (· ≠ '\n')) :=
    ⟨rest.takeWhile (· ≠ '\n'), by simp, not_mem_takeWhile_ne '\n' rest⟩
  refine ⟨.comment isComment, ?_⟩
  apply stops_of_halts
  · simp [comment]
  · exact halts_dropWhile _

/-- The first piece of a text has the form of its category, and the rest does not go on with it. -/
theorem first_fits (char : Char) (rest : List Char) :
    (first char rest).1.Fits (first char rest).2 := by
  unfold first
  split
  next layout => exact blank_fits layout rest
  next plain =>
    split
    next slashes =>
      obtain ⟨rfl, second⟩ := slashes
      obtain ⟨rest, rfl⟩ := List.head?_eq_some_iff.mp second
      exact comment_fits rest
    next single =>
      split
      next found known => exact symbol_fits known single
      next unknown =>
        split
        next quote => exact quote ▸ string_fits rest
        next unquoted =>
          split
          next digit => exact number_fits rest digit
          next noDigit =>
            split
            next start => exact word_fits rest start
            next noStart =>
              refine unexpected_fits ⟨?_, ?_⟩ rest
              · rw [mem_marks]
                simp [plain, unknown, unquoted]
              · simp [isWordChar, noStart, noDigit]

private theorem first_plain {char : Char} (rest : List Char) (plain : char ∉ marks) :
    first char rest =
      if char.isDigit then number char rest
      else if isWordStart char then word char rest
      else (⟨.unexpected, [char]⟩, rest) := by
  have notSlash : char ≠ '/' := by rintro rfl; exact plain (by decide)
  have unmarked := mt mem_marks.mpr plain
  simp only [not_or, Bool.not_eq_true, Option.isSome_eq_false_iff, Option.isNone_iff_eq_none] at unmarked
  simp [first, unmarked, notSlash]

private theorem first_symbol {char : Char} {found : Symbol} {rest : List Char}
    (known : Symbol.ofChar? char = some found) (single : found = .slash → Halts (· = '/') rest) :
    first char rest = symbol found char rest := by
  have notLayout : ¬ isLayout char := by
    intro layout
    rcases isLayout_iff.mp layout with rfl | rfl | rfl | rfl <;> cases known
  have notComment : ¬ (char = '/' ∧ rest.head? = some '/') := by
    rintro ⟨rfl, second⟩
    cases known
    simpa using single rfl '/' second
  rw [first, if_neg notLayout, if_neg notComment, known]

private theorem first_word {name after : List Char} (spelled : IsWord name)
    (ends : Halts isWordChar after) :
    ∃ char rest, name ++ after = char :: rest ∧
      first char rest = (⟨.token (.ofWord (.ofList name)), name⟩, after) := by
  cases name with
  | nil => exact spelled.elim
  | cons char name =>
    obtain ⟨start, inside⟩ := spelled
    refine ⟨char, name ++ after, rfl, ?_⟩
    rw [first_plain _ (not_mem_marks_of_isWordChar (isWordChar_of_isWordStart start)),
      if_neg (by simp [isDigit_eq_false_of_isWordStart start]), if_pos start, word,
      takeWhile_run inside ends, dropWhile_run inside ends]

private theorem number_whole {digit : Char} {more after : List Char} (inside : ∀ char ∈ more, char.isDigit)
    (ends : Halts Char.isDigit after) (pointless : ∀ rest, after = '.' :: rest → Halts Char.isDigit rest) :
    number digit (more ++ after) = (⟨.token .number, digit :: more⟩, after) := by
  rw [number, takeWhile_run inside ends, dropWhile_run inside ends]
  split
  next next rest =>
    have noDigit := halts_cons.mp (pointless _ rfl)
    simp [noDigit]
  next => rfl

private theorem number_fraction {digit next : Char} {more fraction after : List Char}
    (inside : ∀ char ∈ more, char.isDigit) (behind : ∀ char ∈ next :: fraction, char.isDigit)
    (ends : Halts Char.isDigit after) :
    number digit (more ++ '.' :: next :: (fraction ++ after)) =
      (⟨.token .number, digit :: (more ++ '.' :: next :: fraction)⟩, after) := by
  have point : Halts Char.isDigit ('.' :: next :: (fraction ++ after)) := halts_cons.mpr rfl
  obtain ⟨nextDigit, later⟩ := List.forall_mem_cons.mp behind
  rw [number, takeWhile_run inside point, dropWhile_run inside point]
  simp [nextDigit, takeWhile_run later ends, dropWhile_run later ends]

private theorem first_number {whole fraction after : List Char} (nonempty : whole ≠ [])
    (digits : ∀ char ∈ whole ++ fraction, char.isDigit) (ends : Halts Char.isDigit after)
    (pointless : fraction = [] → ∀ rest, after = '.' :: rest → Halts Char.isDigit rest) :
    ∃ char rest, whole ++ (if fraction = [] then [] else '.' :: fraction) ++ after = char :: rest ∧
      first char rest =
        (⟨.token .number, whole ++ if fraction = [] then [] else '.' :: fraction⟩, after) := by
  obtain ⟨digit, more, rfl⟩ := List.exists_cons_of_ne_nil nonempty
  obtain ⟨wholeDigits, fractionDigits⟩ := List.forall_mem_append.mp digits
  obtain ⟨digitHere, inside⟩ := List.forall_mem_cons.mp wholeDigits
  have opens : ∀ rest, first digit rest = number digit rest := by
    intro rest
    rw [first_plain rest (not_mem_marks_of_isWordChar (isWordChar_of_isDigit digitHere)), if_pos digitHere]
  cases fraction with
  | nil =>
    refine ⟨digit, more ++ after, by simp, ?_⟩
    rw [opens, number_whole inside ends (pointless rfl)]
    simp
  | cons next fraction =>
    refine ⟨digit, more ++ '.' :: next :: (fraction ++ after), by simp, ?_⟩
    rw [opens, number_fraction inside fractionDigits ends]
    simp

private theorem first_string {value after : List Char} (unquoted : '"' ∉ value) :
    first '"' (value ++ '"' :: after) = (⟨.token .string, '"' :: (value ++ ['"'])⟩, after) := by
  have inside := ne_of_not_mem unquoted
  have ends : Halts (· ≠ '"') ('"' :: after) := by simp
  change string '"' _ = _
  rw [string, takeWhile_run inside ends, dropWhile_run inside ends]

private theorem first_unterminated {body : List Char} (unquoted : '"' ∉ body) :
    first '"' body = (⟨.unterminated, '"' :: body⟩, []) := by
  have inside := ne_of_not_mem unquoted
  have whole := takeWhile_run inside halts_nil
  have nothing := dropWhile_run inside halts_nil
  rw [List.append_nil] at whole nothing
  change string '"' _ = _
  rw [string, whole, nothing]

private theorem first_comment {body after : List Char} (line : '\n' ∉ body)
    (ends : Halts (· ≠ '\n') after) :
    first '/' ('/' :: (body ++ after)) = (⟨.comment, '/' :: '/' :: body⟩, after) := by
  have inside : ∀ char ∈ '/' :: body, decide (char ≠ '\n') := ne_of_not_mem (by simpa using line)
  change comment '/' (('/' :: body) ++ after) = _
  rw [comment, takeWhile_run inside ends, dropWhile_run inside ends]

private theorem first_lexeme (lexeme : Lexeme) {after : List Char}
    (stops : Stops ⟨.token lexeme.kind, lexeme.text⟩ after) :
    ∃ char rest, lexeme.text ++ after = char :: rest ∧
      first char rest = (⟨.token lexeme.kind, lexeme.text⟩, after) := by
  cases lexeme with
  | symbol sign =>
    obtain ⟨longer, slash⟩ := halts_symbol.mp stops.next
    rcases sign.text_cases with ⟨char, known⟩ | ⟨base, char, known, longerHere⟩
    · have spelled := Symbol.ofChar?_eq_some.mp known
      refine ⟨char, after, by simp [Lexeme.text, spelled], ?_⟩
      rw [first_symbol known slash, symbol_alone longer]
      simp [Lexeme.kind, Lexeme.text, spelled]
    · have spelled := Symbol.text_of_withEqual? longerHere
      rw [Symbol.ofChar?_eq_some.mp known] at spelled
      refine ⟨char, '=' :: after, by simp [Lexeme.text, spelled], ?_⟩
      rw [first_symbol known (by simp), symbol_longer longerHere]
      simp [Lexeme.kind, Lexeme.text, spelled]
  | keyword reserved =>
    have found := first_word reserved.isWord stops.next
    rwa [String.ofList_toList, Kind.ofWord_word] at found
  | identifier name word free =>
    have found := first_word word stops.next
    rwa [Kind.ofWord_of_free free] at found
  | number whole fraction nonempty digits =>
    refine first_number nonempty digits stops.next ?_
    intro pointless
    apply stops.fraction
    refine ⟨rfl, ?_⟩
    intro point
    exact absurd (digits '.' (by simpa [Lexeme.text, pointless] using point)) (by decide)
  | string value unquoted =>
    exact ⟨'"', value ++ '"' :: after, by simp [Lexeme.text], first_string unquoted⟩

/-- A piece of the right form that the text behind it does not go on with is the first of that text. -/
theorem first_of_fits {piece : Piece} {after : List Char} (fits : piece.Fits after) :
    ∃ char rest, piece.text ++ after = char :: rest ∧ first char rest = (piece, after) := by
  obtain ⟨shape, stops⟩ := fits
  cases shape with
  | lexeme lexeme => exact first_lexeme lexeme stops
  | @blank char layout => exact ⟨char, after, rfl, by rw [first, if_pos layout]⟩
  | comment comment =>
    obtain ⟨body, rfl, line⟩ := comment
    exact ⟨'/', '/' :: (body ++ after), rfl, first_comment line stops.next⟩
  | @unexpected char foreign =>
    have noDigit := mt isWordChar_of_isDigit foreign.2
    have noStart := mt isWordChar_of_isWordStart foreign.2
    exact ⟨char, after, rfl, by rw [first_plain _ foreign.1, if_neg noDigit, if_neg noStart]⟩
  | @unterminated body unquoted =>
    have nothing : after = [] := by
      cases after with
      | nil => rfl
      | cons next rest => exact absurd (halts_cons.mp stops.next) (by simp [Category.continues])
    exact ⟨'"', body, by simp [nothing], nothing ▸ first_unterminated unquoted⟩

theorem Fits.text_ne_nil {piece : Piece} {after : List Char} (fits : piece.Fits after) : piece.text ≠ [] := by
  obtain ⟨char, rest, _, found⟩ := first_of_fits fits
  have nonempty := first_text_ne_nil char rest
  rwa [found] at nonempty

theorem cut_of_fits {piece : Piece} {after : List Char} (fits : piece.Fits after) :
    cut (piece.text ++ after) = piece :: cut after := by
  obtain ⟨char, rest, same, found⟩ := first_of_fits fits
  rw [same, cut, found]

theorem divided_cut (text : List Char) : Divided (cut text) := by
  fun_induction cut text with
  | case1 => exact .nil
  | case2 char rest ih =>
    refine .cons ?_ ih
    rw [cut_text]
    exact first_fits char rest

/-- A text has one division, and it is the scanner's. -/
theorem cut_flatMap {pieces : List Piece} (divided : Divided pieces) :
    cut (pieces.flatMap text) = pieces := by
  induction divided with
  | nil => rw [List.flatMap_nil, cut]
  | cons fits _ ih => rw [List.flatMap_cons, cut_of_fits fits, ih]

/-- No text of any category begins with a piece, is longer, and begins the text at its place. -/
theorem Fits.longest {piece other : Piece} {after : List Char} (fits : piece.Fits after)
    (shape : other.Shape) (within : other.text <+: piece.text ++ after) :
    other.text.length ≤ piece.text.length := by
  apply Nat.le_of_not_lt
  intro longer
  obtain ⟨behind, whole⟩ := within
  obtain ⟨extra, sameText, sameAfter⟩ : ∃ extra, other.text = piece.text ++ extra ∧ after = extra ++ behind := by
    rcases List.append_eq_append_iff.mp whole with ⟨extra, short, _⟩ | ⟨extra, same, rest⟩
    · rw [short, List.length_append] at longer
      omega
    · exact ⟨extra, same, rest⟩
  -- Read on its own, the longer text would be both pieces at once.
  have alone := cut_of_fits ⟨shape, stops_nil⟩
  have cutShort := cut_of_fits ⟨fits.shape, (sameAfter ▸ fits.stops).of_append⟩
  rw [List.append_nil, sameText, cutShort] at alone
  rw [(List.cons.inj alone).1] at longer
  omega

end Piece

end LoxLex
