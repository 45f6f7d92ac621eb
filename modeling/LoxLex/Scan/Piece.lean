import LoxLex.Token.Kind

/-! Source text cut into pieces. A piece is a token, a blank, a comment or a mistake; each is the
longest of its category at its place, and the pieces in order are the whole source. -/

namespace LoxLex

namespace Piece

inductive Category
  | token (kind : Kind)
  | blank
  | comment
  /-- One character that begins nothing. -/
  | unexpected
  /-- A quote and everything after it. -/
  | unterminated
  deriving DecidableEq

end Piece

structure Piece where
  category : Piece.Category
  text : List Char
  deriving DecidableEq

namespace Piece

/-- A symbol, longer by an equals sign where there is one to take. -/
def symbol (symbol : Symbol) (char : Char) (rest : List Char) : Piece × List Char :=
  match symbol.withEqual?, rest with
  | some longer, '=' :: rest => (⟨.token (.symbol longer), [char, '=']⟩, rest)
  | _, rest => (⟨.token (.symbol symbol), [char]⟩, rest)

/-- A string runs to the next quote, over line ends too; nothing in it is escaped. -/
def string (quote : Char) (rest : List Char) : Piece × List Char :=
  let value := rest.takeWhile (· ≠ '"')
  match rest.dropWhile (· ≠ '"') with
  | [] => (⟨.unterminated, quote :: value⟩, [])
  | closing :: rest => (⟨.token .string, quote :: (value ++ [closing])⟩, rest)

/-- A number has a fraction only when a digit follows the point. -/
def number (digit : Char) (rest : List Char) : Piece × List Char :=
  let whole := digit :: rest.takeWhile Char.isDigit
  match rest.dropWhile Char.isDigit with
  | '.' :: next :: rest =>
    if next.isDigit then
      (⟨.token .number, whole ++ '.' :: next :: rest.takeWhile Char.isDigit⟩,
        rest.dropWhile Char.isDigit)
    else (⟨.token .number, whole⟩, '.' :: next :: rest)
  | rest => (⟨.token .number, whole⟩, rest)

def word (char : Char) (rest : List Char) : Piece × List Char :=
  let text := char :: rest.takeWhile isWordChar
  (⟨.token (.ofWord (.ofList text)), text⟩, rest.dropWhile isWordChar)

/-- A comment runs up to the line end, which is not part of it. -/
def comment (slash : Char) (rest : List Char) : Piece × List Char :=
  (⟨.comment, slash :: rest.takeWhile (· ≠ '\n')⟩, rest.dropWhile (· ≠ '\n'))

def first (char : Char) (rest : List Char) : Piece × List Char :=
  if isLayout char then (⟨.blank, [char]⟩, rest)
  else if char = '/' ∧ rest.head? = some '/' then comment char rest
  else match Symbol.ofChar? char with
  | some found => symbol found char rest
  | none =>
    if char = '"' then string char rest
    else if char.isDigit then number char rest
    else if isWordStart char then word char rest
    else (⟨.unexpected, [char]⟩, rest)

private theorem symbol_text (found : Symbol) (char : Char) (rest : List Char) :
    (symbol found char rest).1.text ++ (symbol found char rest).2 = char :: rest := by
  unfold symbol
  split <;> rfl

private theorem string_text (quote : Char) (rest : List Char) :
    (string quote rest).1.text ++ (string quote rest).2 = quote :: rest := by
  have whole : rest.takeWhile (· ≠ '"') ++ rest.dropWhile (· ≠ '"') = rest :=
    List.takeWhile_append_dropWhile
  unfold string
  split
  next none =>
    rw [none, List.append_nil] at whole
    simp only [whole, List.append_nil]
  next closing rest' found =>
    rw [found] at whole
    simp only [List.cons_append, List.append_assoc, List.nil_append, whole]

private theorem number_text (digit : Char) (rest : List Char) :
    (number digit rest).1.text ++ (number digit rest).2 = digit :: rest := by
  have whole : rest.takeWhile Char.isDigit ++ rest.dropWhile Char.isDigit = rest :=
    List.takeWhile_append_dropWhile
  unfold number
  split
  next next rest' found =>
    rw [found] at whole
    split
    · simpa [List.takeWhile_append_dropWhile] using whole
    · simpa using whole
  next => simp

/-- Nothing is lost and nothing added: the piece and what is left make up the text. -/
theorem first_text (char : Char) (rest : List Char) :
    (first char rest).1.text ++ (first char rest).2 = char :: rest := by
  unfold first
  split
  · rfl
  split
  · simp [comment, List.takeWhile_append_dropWhile]
  split
  · exact symbol_text ..
  split
  · exact string_text ..
  split
  · exact number_text ..
  split
  · simp [word, List.takeWhile_append_dropWhile]
  · rfl

theorem first_text_ne_nil (char : Char) (rest : List Char) : (first char rest).1.text ≠ [] := by
  unfold first symbol string number word comment
  repeat' split
  all_goals simp

theorem first_rest_lt (char : Char) (rest : List Char) :
    (first char rest).2.length < (char :: rest).length := by
  have whole := congrArg List.length (first_text char rest)
  have some := List.length_pos_iff.mpr (first_text_ne_nil char rest)
  rw [List.length_append] at whole
  omega

def cut : List Char → List Piece
  | [] => []
  | char :: rest => (first char rest).1 :: cut (first char rest).2
termination_by text => text.length
decreasing_by exact first_rest_lt char rest

theorem cut_text (text : List Char) : (cut text).flatMap Piece.text = text := by
  fun_induction cut text with
  | case1 => rfl
  | case2 char rest ih => rw [List.flatMap_cons, ih, first_text]

end Piece

end LoxLex
