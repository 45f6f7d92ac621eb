import LoxLex.Proofs.Splice

/-! Where the end of a text lies: in a string that is open there, in a line comment, or in neither. A
reader that tells only these apart, one character at a time, agrees with the last piece of the cut. -/

namespace LoxLex

/-- What the text read so far makes of the characters to come. -/
inductive Region
  | plain
  /-- Behind a slash, which begins a comment with one more. -/
  | slash
  | string
  | comment
  deriving DecidableEq

namespace Region

def enter (char : Char) : Region :=
  if char = '"' then string else if char = '/' then slash else plain

def next : Region → Char → Region
  | plain, char => enter char
  | slash, char => if char = '/' then comment else enter char
  | string, char => if char = '"' then plain else string
  | comment, char => if char = '\n' then plain else comment

end Region

/-- The region at the end of a text. -/
def regionAt (text : List Char) : Region := text.foldl Region.next .plain

/-- The region behind a piece of a category. -/
def Piece.Category.region : Category → Region
  | .comment => .comment
  | .unterminated => .string
  | .token (.symbol .slash) => .slash
  | .token _ | .blank | .unexpected => .plain

namespace Region

private theorem enter_eq_plain {char : Char} (noQuote : char ≠ '"') (noSlash : char ≠ '/') : enter char = plain := by
  simp [enter, noQuote, noSlash]

private theorem enter_of_isWordChar {char : Char} (word : isWordChar char) : enter char = plain := by
  refine enter_eq_plain ?_ ?_
  all_goals
    rintro rfl
    exact absurd word (by decide)

private theorem foldl_next_of_stay {region : Region} {text : List Char}
    (stay : ∀ char ∈ text, next region char = region) : text.foldl next region = region := by
  induction text with
  | nil => rfl
  | cons char text ih =>
    obtain ⟨here, later⟩ := List.forall_mem_cons.mp stay
    rw [List.foldl_cons, here, ih later]

private theorem foldl_next_string {text : List Char} (unquoted : '"' ∉ text) : text.foldl next string = string := by
  apply foldl_next_of_stay
  intro char member
  exact if_neg (ne_of_mem_of_not_mem member unquoted)

private theorem foldl_next_comment {text : List Char} (sameLine : '\n' ∉ text) : text.foldl next comment = comment := by
  apply foldl_next_of_stay
  intro char member
  exact if_neg (ne_of_mem_of_not_mem member sameLine)

private theorem foldl_next_word {text : List Char} (inside : ∀ char ∈ text, isWordChar char) :
    text.foldl next plain = plain :=
  foldl_next_of_stay fun char member => enter_of_isWordChar (inside char member)

private theorem foldl_next_lexeme (lexeme : Lexeme) :
    lexeme.text.foldl next plain = Piece.Category.region (.token lexeme.kind) := by
  cases lexeme with
  | symbol sign => cases sign <;> rfl
  | keyword reserved => exact foldl_next_word reserved.isWord.isWordChar
  | identifier name word free => exact foldl_next_word word.isWordChar
  | number whole fraction nonempty digits =>
    apply foldl_next_of_stay
    intro char member
    rcases List.mem_append.mp member with inside | behind
    · exact enter_of_isWordChar (isWordChar_of_isDigit (digits char (List.mem_append_left _ inside)))
    · split at behind
      · cases behind
      · rcases List.mem_cons.mp behind with rfl | inside
        · rfl
        · exact enter_of_isWordChar (isWordChar_of_isDigit (digits char (List.mem_append_right _ inside)))
  | string value unquoted =>
    rw [Lexeme.text, List.foldl_cons, List.foldl_append]
    change ['"'].foldl next (value.foldl next string) = plain
    rw [foldl_next_string unquoted]
    rfl

/-- A piece read from its beginning leads to its region. -/
private theorem foldl_next_piece {piece : Piece} (shape : piece.Shape) :
    piece.text.foldl next plain = piece.category.region := by
  cases shape with
  | lexeme lexeme => exact foldl_next_lexeme lexeme
  | @blank char layout => rcases isLayout_iff.mp layout with rfl | rfl | rfl | rfl <;> rfl
  | comment isComment =>
    obtain ⟨body, rfl, sameLine⟩ := isComment
    exact foldl_next_comment sameLine
  | @unexpected char foreign =>
    refine enter_eq_plain ?_ ?_
    all_goals
      rintro rfl
      exact foreign.1 (by decide)
  | unterminated unquoted => exact foldl_next_string unquoted

/-- What does not go on with a piece is read behind it as if it stood alone. -/
private theorem next_of_stops {piece : Piece} {char : Char} {rest : List Char} (stops : piece.Stops (char :: rest)) :
    next piece.category.region char = enter char := by
  have ends := halts_cons.mp stops.next
  cases category : piece.category with
  | comment =>
    rw [category] at ends
    obtain rfl : char = '\n' := by simpa [Piece.Category.continues] using ends
    rfl
  | unterminated =>
    rw [category] at ends
    cases ends
  | blank | unexpected => rfl
  | token kind =>
    cases kind with
    | symbol sign =>
      rw [category] at ends
      cases sign with
      | slash =>
        have single : char ≠ '/' := by simpa [Piece.Category.continues, Symbol.withEqual?] using ends
        exact if_neg single
      | _ => rfl
    | _ => rfl

end Region

namespace Piece

private theorem Divided.regionAt_eq {pieces : List Piece} (divided : Divided pieces) :
    regionAt (pieces.flatMap text) = pieces.getLast?.elim .plain fun last => last.category.region := by
  induction divided with
  | nil => rfl
  | @cons piece pieces fits divided ih =>
    have led := Region.foldl_next_piece fits.shape
    rw [regionAt, List.flatMap_cons, List.foldl_append, led]
    cases behind : pieces.flatMap text with
    | nil =>
      obtain rfl := divided.eq_nil_of_text behind
      rfl
    | cons char rest =>
      have some : pieces ≠ [] := by
        rintro rfl
        cases behind
      rw [behind] at ih fits
      rw [List.foldl_cons, Region.next_of_stops fits.stops, List.getLast?_cons_of_ne_nil some, ← ih]
      rfl

end Piece

namespace Piece.Category

theorem region_eq_string_iff {category : Category} : category.region = .string ↔ category = .unterminated := by
  cases category with
  | token kind =>
    cases kind with
    | symbol sign => cases sign <;> simp [region]
    | _ => simp [region]
  | _ => simp [region]

theorem region_eq_comment_iff {category : Category} : category.region = .comment ↔ category = .comment := by
  cases category with
  | token kind =>
    cases kind with
    | symbol sign => cases sign <;> simp [region]
    | _ => simp [region]
  | _ => simp [region]

end Piece.Category

private theorem regionAt_eq (source : List Char) :
    regionAt source = (Piece.cut source).getLast?.elim .plain fun last => last.category.region := by
  have known := (Piece.divided_cut source).regionAt_eq
  rwa [Piece.cut_text] at known

theorem regionAt_of_last {source : List Char} {last : Piece} (final : last ∈ (Piece.cut source).getLast?) :
    regionAt source = last.category.region := by
  rw [regionAt_eq, Option.mem_def.mp final]
  rfl

theorem Piece.exists_front {source : List Char} {last : Piece} (final : last ∈ (Piece.cut source).getLast?) :
    ∃ front, Piece.cut source = front ++ [last] ∧ last.Shape ∧ source = front.flatMap text ++ last.text := by
  obtain ⟨front, same⟩ := List.getLast?_eq_some_iff.mp final
  have divided := Piece.divided_cut source
  have whole := Piece.cut_text source
  rw [same] at divided whole
  refine ⟨front, same, divided.middle.1.shape, ?_⟩
  rw [← whole, List.flatMap_append, List.flatMap_singleton]

/-- Every region but the plain one is that of a last piece. -/
theorem exists_last {source : List Char} (inside : regionAt source ≠ .plain) :
    ∃ front last, Piece.cut source = front ++ [last] ∧ last.Shape ∧ last.category.region = regionAt source := by
  cases final : (Piece.cut source).getLast? with
  | none =>
    rw [regionAt_eq, final] at inside
    exact (inside rfl).elim
  | some last =>
    obtain ⟨front, same, shape, _⟩ := Piece.exists_front final
    exact ⟨front, last, same, shape, (regionAt_of_last final).symm⟩

/-- Outside strings and comments the last piece, if there is one, is neither. -/
theorem category_of_last {source : List Char} {last : Piece} (final : last ∈ (Piece.cut source).getLast?)
    (noString : regionAt source ≠ .string) (noComment : regionAt source ≠ .comment) :
    last.category ≠ .unterminated ∧ last.category ≠ .comment := by
  rw [regionAt_of_last final] at noString noComment
  exact ⟨mt Piece.Category.region_eq_string_iff.mpr noString, mt Piece.Category.region_eq_comment_iff.mpr noComment⟩

end LoxLex
