import LoxLex.Scan.Basic

/-! The grammar of the language without its scanner: what is written for each kind of token, what a
comment is, and which characters belong to no lexeme. -/

namespace LoxLex

namespace Symbol

def text : Symbol → List Char
  | leftParen => ['(']
  | rightParen => [')']
  | leftBrace => ['{']
  | rightBrace => ['}']
  | comma => [',']
  | dot => ['.']
  | minus => ['-']
  | plus => ['+']
  | semicolon => [';']
  | slash => ['/']
  | star => ['*']
  | bang => ['!']
  | bangEqual => ['!', '=']
  | equal => ['=']
  | equalEqual => ['=', '=']
  | greater => ['>']
  | greaterEqual => ['>', '=']
  | less => ['<']
  | lessEqual => ['<', '=']

theorem ofChar?_eq_some {char : Char} {symbol : Symbol} :
    ofChar? char = some symbol ↔ symbol.text = [char] := by
  constructor
  · intro found
    unfold ofChar? at found
    split at found <;> cases found <;> rfl
  · intro spelled
    cases symbol <;> simp only [text, List.cons.injEq, reduceCtorEq, and_false, and_true] at spelled
    all_goals subst spelled; rfl

theorem text_of_withEqual? {symbol longer : Symbol} (found : symbol.withEqual? = some longer) :
    longer.text = symbol.text ++ ['='] := by
  cases symbol <;> cases found <;> rfl

/-- A symbol is one character, or such a symbol with an equals sign. -/
theorem text_cases (symbol : Symbol) :
    (∃ char, ofChar? char = some symbol) ∨
      ∃ base char, ofChar? char = some base ∧ base.withEqual? = some symbol := by
  cases symbol with
  | bangEqual => exact .inr ⟨bang, '!', rfl, rfl⟩
  | equalEqual => exact .inr ⟨equal, '=', rfl, rfl⟩
  | greaterEqual => exact .inr ⟨greater, '>', rfl, rfl⟩
  | lessEqual => exact .inr ⟨less, '<', rfl, rfl⟩
  | _ => exact .inl ⟨_, ofChar?_eq_some.mpr rfl⟩

end Symbol

/-- Words are made of letters, digits and underscores, and do not begin with a digit. -/
def IsWord : List Char → Prop
  | [] => False
  | first :: rest => isWordStart first ∧ ∀ char ∈ rest, isWordChar char

instance : (text : List Char) → Decidable (IsWord text)
  | [] => inferInstanceAs (Decidable False)
  | first :: rest =>
    decidable_of_iff (isWordStart first ∧ rest.all isWordChar) (and_congr_right' List.all_eq_true)

theorem Keyword.isWord (keyword : Keyword) : IsWord keyword.word.toList := by
  cases keyword <;> decide

namespace Kind

theorem ofWord_word (keyword : Keyword) : ofWord keyword.word = .keyword keyword := by
  rw [ofWord, Keyword.ofWord?_eq_some.mpr rfl]
  rfl

theorem ofWord_of_free {name : List Char} (free : ∀ keyword : Keyword, keyword.word.toList ≠ name) :
    ofWord (.ofList name) = .identifier := by
  cases reserved : Keyword.ofWord? (.ofList name) with
  | none => rw [ofWord, reserved]; rfl
  | some keyword =>
    have same := Keyword.ofWord?_eq_some.mp reserved
    exact (free keyword (by rw [← same, String.toList_ofList])).elim

end Kind

/-- What is written for a token. A number without digits after the point has no point either. -/
inductive Lexeme
  | symbol (sign : Symbol)
  | keyword (reserved : Keyword)
  | identifier (name : List Char) (word : IsWord name)
      (free : ∀ keyword : Keyword, keyword.word.toList ≠ name)
  | number (whole fraction : List Char) (nonempty : whole ≠ [])
      (digits : ∀ char ∈ whole ++ fraction, char.isDigit)
  | string (value : List Char) (unquoted : '"' ∉ value)

namespace Lexeme

def kind : Lexeme → Kind
  | symbol sign => .symbol sign
  | keyword reserved => .keyword reserved
  | identifier .. => .identifier
  | number .. => .number
  | string .. => .string

def text : Lexeme → List Char
  | symbol sign => sign.text
  | keyword reserved => reserved.word.toList
  | identifier name .. => name
  | number whole fraction .. => whole ++ if fraction = [] then [] else '.' :: fraction
  | string value _ => '"' :: (value ++ ['"'])

def literal : Lexeme → Literal
  | number whole fraction .. =>
    .number (Decimal.toBinary64 ⟨Nat.ofDigitChars 10 (whole ++ fraction) 0, -fraction.length⟩)
  | string value _ => .text (.ofList value)
  | _ => .none

theorem kind_ne_eof (lexeme : Lexeme) : lexeme.kind ≠ .eof := by
  cases lexeme <;> simp [kind]

theorem exists_of_isWord {name : List Char} (word : IsWord name) :
    ∃ lexeme : Lexeme, lexeme.kind = .ofWord (.ofList name) ∧ lexeme.text = name := by
  by_cases reserved : ∃ keyword : Keyword, keyword.word.toList = name
  · obtain ⟨keyword, rfl⟩ := reserved
    exact ⟨.keyword keyword, by rw [String.ofList_toList, Kind.ofWord_word]; rfl, rfl⟩
  · have free := not_exists.mp reserved
    exact ⟨.identifier name word free, by rw [Kind.ofWord_of_free free]; rfl, rfl⟩

end Lexeme

/-- Two slashes and the text behind them on their line. -/
def IsComment (text : List Char) : Prop := ∃ body, text = '/' :: '/' :: body ∧ '\n' ∉ body

/-- The characters outside words that mean something to the language. -/
def marks : List Char :=
  [' ', '\t', '\r', '\n', '(', ')', '{', '}', ',', '.', '-', '+', ';', '*', '!', '=', '<', '>', '/', '"']

/-- Characters that no lexeme, blank or comment begins with. -/
def IsForeign (char : Char) : Prop := char ∉ marks ∧ ¬ isWordChar char

instance (char : Char) : Decidable (IsForeign char) := inferInstanceAs (Decidable (_ ∧ _))

theorem isLayout_iff {char : Char} :
    isLayout char ↔ char = ' ' ∨ char = '\t' ∨ char = '\r' ∨ char = '\n' := by
  simp [isLayout, or_assoc]

theorem mem_marks {char : Char} :
    char ∈ marks ↔ isLayout char ∨ (Symbol.ofChar? char).isSome ∨ char = '"' := by
  constructor
  · have listed : marks.all fun mark => isLayout mark || (Symbol.ofChar? mark).isSome || mark == '"' := by
      decide
    intro member
    simpa [or_assoc] using List.all_eq_true.mp listed char member
  · rintro (layout | symbol | rfl)
    · rcases isLayout_iff.mp layout with rfl | rfl | rfl | rfl <;> decide
    · obtain ⟨symbol, found⟩ := Option.isSome_iff_exists.mp symbol
      have spelled := Symbol.ofChar?_eq_some.mp found
      cases symbol <;> simp only [Symbol.text, List.cons.injEq, reduceCtorEq, and_false, and_true] at spelled
      all_goals subst spelled; decide
    · decide

theorem not_mem_marks_of_isWordChar {char : Char} (word : isWordChar char) : char ∉ marks := by
  have apart : marks.all fun mark => !isWordChar mark := by decide
  intro member
  have outside := List.all_eq_true.mp apart char member
  simp [word] at outside

theorem isWordChar_of_isDigit {char : Char} (digit : char.isDigit) : isWordChar char := by
  simp [isWordChar, digit]

theorem isWordChar_of_isWordStart {char : Char} (start : isWordStart char) : isWordChar char := by
  simp [isWordChar, start]

theorem isDigit_eq_false_of_isWordStart {char : Char} (start : isWordStart char) :
    char.isDigit = false := by
  rw [Bool.eq_false_iff]
  intro digit
  have small := (Char.isDigit_iff_toNat.mp digit).2
  have large : 'A'.toNat ≤ char.toNat := by
    rcases (Bool.or_eq_true _ _).mp start with letter | underscore
    · rcases (Bool.or_eq_true _ _).mp letter with upper | lower
      · exact UInt32.le_iff_toNat_le.mp (of_decide_eq_true upper).1
      · have bound := ((Bool.and_eq_true _ _).mp lower).1
        exact Nat.le_trans (by decide) (UInt32.le_iff_toNat_le.mp (of_decide_eq_true bound))
    · rw [of_decide_eq_true underscore]
      decide
  exact absurd (Nat.le_trans large small) (by decide)

theorem lineFeed_not_mem_of_isWordChar {text : List Char} (inside : ∀ char ∈ text, isWordChar char) :
    '\n' ∉ text :=
  fun feed => not_mem_marks_of_isWordChar (inside _ feed) (by decide)

theorem IsWord.isWordChar {name : List Char} (word : IsWord name) : ∀ char ∈ name, isWordChar char := by
  cases name with
  | nil => exact word.elim
  | cons first rest => exact List.forall_mem_cons.mpr ⟨isWordChar_of_isWordStart word.1, word.2⟩

/-- Only strings go over line ends. -/
theorem Lexeme.sameLine_text {lexeme : Lexeme} (notString : lexeme.kind ≠ .string) : '\n' ∉ lexeme.text := by
  cases lexeme with
  | symbol sign => cases sign <;> decide
  | keyword reserved => exact lineFeed_not_mem_of_isWordChar reserved.isWord.isWordChar
  | identifier name word free => exact lineFeed_not_mem_of_isWordChar word.isWordChar
  | number whole fraction nonempty digits =>
    have inside : '\n' ∉ whole ++ fraction :=
      lineFeed_not_mem_of_isWordChar fun char member => isWordChar_of_isDigit (digits char member)
    by_cases none : fraction = [] <;> simp_all [text]
  | string value unquoted => exact (notString rfl).elim

end LoxLex
