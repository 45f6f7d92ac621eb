import LoxLex.Prompt.Bytewise
import LoxLex.Proofs.Regions
import LoxLex.Proofs.Walking
import Mathlib.Data.List.Basic

/-! Completion and the scanner agree on where a word begins: what is offered for the end of a line is, put
in the place of that end, scanned as the keyword that it is, with all before it as it was. -/

namespace LoxLex
open Text

namespace Prompt

/-- The longest word that a text ends in; it may be empty. -/
structure EndsInWord (text front word : List Char) : Prop where
  whole : text = front ++ word
  inside : ∀ char ∈ word, isWordChar char
  longest : ∀ other, other <:+ text → (∀ char ∈ other, isWordChar char) → other.length ≤ word.length

/-- Those of some words that begin with a text, in their order. -/
structure AreOffered (items words : List String) (start : List Char) : Prop where
  ordered : items.Sublist words
  beginning : ∀ word, word ∈ items ↔ word ∈ words ∧ start <+: word.toList

def keywords : List String := Keyword.all.map Keyword.word

theorem mem_keywords {word : String} : word ∈ keywords ↔ ∃ keyword : Keyword, keyword.word = word := by
  simp [keywords, Keyword.mem_all]

section Words

variable {text front word : List Char}

private theorem splitWord_inside (text : List Char) : ∀ char ∈ (splitWord text).2, isWordChar char := by
  intro char member
  exact holds_of_mem_takeWhile (List.mem_reverse.mp member)

/-- The character before the word, if there is one, belongs to no word. -/
theorem splitWord_halts (text : List Char) : Halts isWordChar (splitWord text).1.reverse := by
  rw [splitWord, List.reverse_reverse]
  exact halts_dropWhile _

theorem splitWord_of_halts (inside : ∀ char ∈ word, isWordChar char) (ends : Halts isWordChar front.reverse) :
    splitWord (front ++ word) = (front, word) := by
  have within : ∀ char ∈ word.reverse, isWordChar char :=
    fun char member => inside char (List.mem_reverse.mp member)
  rw [splitWord, List.reverse_append, takeWhile_run within ends, dropWhile_run within ends, List.reverse_reverse,
    List.reverse_reverse]

private theorem endsInWord_splitWord (text : List Char) : EndsInWord text (splitWord text).1 (splitWord text).2 := by
  refine ⟨(splitWord_append text).symm, splitWord_inside text, ?_⟩
  rintro other ⟨more, rfl⟩ inside
  have within : ∀ char ∈ other.reverse, isWordChar char :=
    fun char member => inside char (List.mem_reverse.mp member)
  rw [splitWord, List.reverse_append, List.takeWhile_append_of_pos within]
  simp

end Words

theorem areOffered_beginningWith (words : List String) (start : List Char) :
    AreOffered (beginningWith start words) words start := by
  refine ⟨List.filter_sublist, ?_⟩
  intro word
  rw [beginningWith, List.mem_filter, List.isPrefixOf_iff_prefix]

namespace Bytewise

private theorem endsWord_eq (char : Char) : endsWord char = !isWordChar char := by
  by_cases small : char.toNat < 0x80
  · have same : LoxLex.Bytewise.toChar (.ofNat char.toNat) = char := LoxLex.Bytewise.toChar_of_spells ⟨small, rfl⟩
    simp [endsWord, same, Nat.not_le_of_lt small]
  · have noWord : isWordChar char = false := by
      rw [Bool.eq_false_iff]
      exact fun word => small (lt_of_isWordChar word)
    simp [endsWord, noWord, Nat.le_of_not_lt small]

private theorem offsets_append (start : Nat) (first second : List Char) :
    offsets start (first ++ second) = offsets start first ++ offsets (start + byteLength first) second := by
  induction first generalizing start with
  | nil => rfl
  | cons char first ih => simp [offsets, ih, byteLength, Nat.add_assoc]

private theorem mem_of_mem_offsets {start : Nat} {text : List Char} {item : Nat × Char}
    (member : item ∈ offsets start text) : item.2 ∈ text := by
  induction text generalizing start with
  | nil => cases member
  | cons char text ih =>
    rcases List.mem_cons.mp member with rfl | later
    · exact List.mem_cons_self
    · exact List.mem_cons_of_mem _ (ih later)

/-- Going back from the end finds where the longest word at the end begins. -/
theorem wordStart_eq (text : List Char) : wordStart text = Prompt.wordStart text := by
  have inside := splitWord_inside text
  have ends := splitWord_halts text
  have whole := splitWord_append text
  rw [Prompt.wordStart]
  generalize (splitWord text).1 = front at *
  generalize (splitWord text).2 = word at *
  subst whole
  have none : ((offsets (0 + byteLength front) word).reverse.find? fun item => endsWord item.2) = none := by
    rw [List.find?_eq_none]
    intro item member
    simp [endsWord_eq, inside _ (mem_of_mem_offsets (List.mem_reverse.mp member))]
  rw [wordStart, offsets_append, List.reverse_append, List.find?_append, none, Option.none_or]
  rcases List.eq_nil_or_concat' front with rfl | ⟨before, last, rfl⟩
  · rfl
  · have stops : endsWord last = true := by
      rw [List.reverse_append] at ends
      simp [endsWord_eq, halts_cons.mp ends]
    rw [offsets_append, List.reverse_append]
    simp [offsets, stops, byteLength]

private theorem slice?_zero (stop : Nat) (text : List Char) :
    slice? 0 stop text = (splitAt? stop text).map Prod.fst := by
  rw [slice?]
  cases splitAt? stop text <;> simp [splitAt?]

/-- The word at the end is there to be cut off. -/
theorem slice?_word (text : List Char) :
    slice? (Prompt.wordStart text) (byteLength text) text = some (splitWord text).2 := by
  have cut := slice?_append (splitWord text).1 (splitWord text).2 []
  rwa [List.append_nil, ← byteLength_append, splitWord_append] at cut

private theorem complete?_eq (line : String) (pos : Nat) : complete? line pos = completeAt? line pos := by
  rw [complete?, completeAt?, slice?_zero, byteLength_toList]
  cases splitAt? (min pos line.utf8ByteSize) line.toList with
  | none => rfl
  | some parts =>
    simp only [Option.map_some, Option.bind_eq_bind, Option.bind_some, complete, wordStart_eq, slice?_word]
    split <;> rfl

end Bytewise

end Prompt

section Appended

variable {front : List Char}

theorem IsWord.exists_cons {text : List Char} (word : IsWord text) :
    ∃ char rest, text = char :: rest ∧ isWordStart char := by
  cases text with
  | nil => exact word.elim
  | cons char rest => exact ⟨char, rest, rfl, word.1⟩

private theorem not_halts_of_isWord {text : List Char} (word : IsWord text) : ¬ Halts isWordChar text.reverse := by
  intro ends
  have nonempty : text.reverse ≠ [] := by
    obtain ⟨first, rest, rfl, _⟩ := word.exists_cons
    simp
  obtain ⟨char, rest, spelled⟩ := List.exists_cons_of_ne_nil nonempty
  have member : char ∈ text := List.mem_reverse.mp (spelled ▸ List.mem_cons_self)
  rw [spelled, halts_cons] at ends
  simp [word.isWordChar char member] at ends

/-- Behind a piece that does not end like a word a letter begins another one, unless a string or a comment
is open. -/
private theorem Piece.stops_wordStart {piece : Piece} {char : Char} {rest : List Char} (shape : piece.Shape)
    (ends : Halts isWordChar piece.text.reverse) (noString : piece.category ≠ .unterminated)
    (noComment : piece.category ≠ .comment) (start : isWordStart char) : piece.Stops (char :: rest) := by
  have other : ∀ mark ∈ marks, char ≠ mark := by
    rintro mark member rfl
    exact not_mem_marks_of_isWordChar (isWordChar_of_isWordStart start) member
  refine stops_cons ?_ (other '.' (by decide))
  cases shape with
  | lexeme lexeme =>
    cases lexeme with
    | symbol sign => simp [Lexeme.kind, Category.continues, other '=' (by decide), other '/' (by decide)]
    | keyword reserved => exact (not_halts_of_isWord reserved.isWord ends).elim
    | identifier name word free => exact (not_halts_of_isWord word ends).elim
    | number whole fraction nonempty digits => exact isDigit_eq_false_of_isWordStart start
    | string value unquoted => rfl
  | blank layout => rfl
  | unexpected foreign => rfl
  | comment isComment => exact (noComment rfl).elim
  | unterminated unquoted => exact (noString rfl).elim

private theorem Piece.stops_of_last {last : Piece} {char : Char} {rest : List Char}
    (final : last ∈ (Piece.cut front).getLast?) (ends : Halts isWordChar front.reverse)
    (noString : regionAt front ≠ .string) (noComment : regionAt front ≠ .comment) (start : isWordStart char) :
    last.Stops (char :: rest) := by
  obtain ⟨before, _, shape, whole⟩ := exists_front final
  rw [whole, List.reverse_append] at ends
  obtain ⟨notString, notComment⟩ := category_of_last final noString noComment
  exact stops_wordStart shape ends.of_append notString notComment start

/-- A scan with a keyword put before its end. -/
def Scan.withKeyword (scan : Scan) (keyword : Keyword) (line start : Nat) : Scan :=
  let stop := start + keyword.word.utf8ByteSize
  ⟨scan.tokens.filter (·.kind ≠ .eof) ++
      [⟨.keyword keyword, keyword.word, .none, line, ⟨start, stop⟩⟩, .eof line stop],
    scan.errors⟩

private theorem scan_append_keyword {source : String} (firstLine : Nat) (keyword : Keyword)
    (ends : Halts isWordChar source.toList.reverse) (noString : regionAt source.toList ≠ .string)
    (noComment : regionAt source.toList ≠ .comment) :
    scan firstLine (source ++ keyword.word) =
      (scan firstLine source).withKeyword keyword (firstLine + lineFeeds source.toList) source.utf8ByteSize := by
  obtain ⟨char, rest, spelled, start⟩ := keyword.isWord.exists_cons
  have edge : ∀ last ∈ (Piece.cut source.toList).getLast?, last.Stops keyword.word.toList := by
    intro last final
    rw [spelled]
    exact Piece.stops_of_last final ends noString noComment start
  have digits : Halts Char.isDigit keyword.word.toList := by
    rw [spelled]
    exact halts_cons.mpr (isDigit_eq_false_of_isWordStart start)
  have sameLine : lineFeeds keyword.word.toList = 0 :=
    List.count_eq_zero.mpr (lineFeed_not_mem_of_isWordChar keyword.isWord.isWordChar)
  have proper : (scan firstLine source).tokens.filter (·.kind ≠ .eof) = (scan firstLine source).tokens.dropLast := by
    rw [filter_tokens_scan, scan_eq, List.dropLast_concat]
  have appended := scan_append_piece firstLine ⟨.lexeme (.keyword keyword), Piece.stops_nil⟩ rfl edge digits _
    (Piece.finding?_lexeme (.keyword keyword) _)
  rw [appended, Scan.withKeyword, proper]
  simp [Lexeme.token, Lexeme.kind, Lexeme.text, Lexeme.literal, Place.after, sameLine, byteLength_toList]

end Appended

namespace Prompt

/-- Keywords for the word that a text ends in. In the place of that word each of them would be scanned as
itself, and what stands before as it is without them. -/
structure CompletesWord (completion : Completion) (before front word : List Char) : Prop where
  ends : EndsInWord before front word
  start : completion.start = byteLength front
  wordless : word = [] → completion.items = []
  offered : word ≠ [] → AreOffered completion.items keywords word
  scanned : regionAt front ≠ .string → regionAt front ≠ .comment → ∀ item ∈ completion.items, ∀ firstLine,
    ∃ keyword : Keyword, keyword.word = item ∧
      scan firstLine (.ofList front ++ item) =
        (scan firstLine (.ofList front)).withKeyword keyword (firstLine + lineFeeds front) completion.start

private theorem complete_of_command {before : List Char} (command : before.head? = some '.' ∧ ' ' ∉ before) :
    complete before = ⟨0, beginningWith before commands⟩ := if_pos command

theorem complete_of_word {before : List Char} (noCommand : ¬ (before.head? = some '.' ∧ ' ' ∉ before)) :
    complete before = ⟨byteLength (splitWord before).1,
      if (splitWord before).2.isEmpty then [] else beginningWith (splitWord before).2 keywords⟩ := if_neg noCommand

private theorem completesWord {before : List Char} (noCommand : ¬ (before.head? = some '.' ∧ ' ' ∉ before)) :
    CompletesWord (complete before) before (splitWord before).1 (splitWord before).2 := by
  have whole := endsInWord_splitWord before
  have halts := splitWord_halts before
  rw [complete_of_word noCommand]
  refine ⟨whole, rfl, ?_, ?_, ?_⟩
  · intro empty
    exact if_pos (List.isEmpty_iff.mpr empty)
  · intro nonempty
    have some : ¬ (splitWord before).2.isEmpty := mt List.isEmpty_iff.mp nonempty
    rw [if_neg some]
    exact areOffered_beginningWith keywords _
  · intro noString noComment item member firstLine
    have listed : item ∈ keywords := by
      split at member
      · cases member
      · exact ((areOffered_beginningWith keywords _).beginning item).mp member |>.1
    obtain ⟨keyword, rfl⟩ := mem_keywords.mp listed
    refine ⟨keyword, rfl, ?_⟩
    rw [← String.toList_ofList (l := (splitWord before).1)] at halts noString noComment
    have appended := scan_append_keyword firstLine keyword halts noString noComment
    rwa [← byteLength_toList, String.toList_ofList] at appended

theorem completeAt?_eq_some_iff {line : String} {pos : Nat} {completion : Completion} :
    completeAt? line pos = some completion ↔
      ∃ before after, line.toList = before ++ after ∧ byteLength before = min pos line.utf8ByteSize ∧
        complete before = completion := by
  rw [completeAt?, byteLength_toList]
  constructor
  · intro found
    obtain ⟨⟨before, after⟩, cut, same⟩ := Option.bind_eq_some_iff.mp found
    obtain ⟨whole, size⟩ := splitAt?_eq_some cut
    exact ⟨before, after, whole, size, Option.some.inj same⟩
  · rintro ⟨before, after, whole, size, rfl⟩
    rw [whole, ← size, splitAt?_append]
    rfl

private theorem completeAt?_eq_none_iff {line : String} {pos : Nat} :
    completeAt? line pos = none ↔ ¬ IsBoundary line.toList (min pos line.utf8ByteSize) := by
  rw [Option.eq_none_iff_forall_ne_some, ← not_exists, not_iff_not]
  constructor
  · rintro ⟨completion, found⟩
    obtain ⟨before, after, whole, size, _⟩ := completeAt?_eq_some_iff.mp found
    exact ⟨before, after, whole, size⟩
  · rintro ⟨before, after, whole, size⟩
    exact ⟨_, completeAt?_eq_some_iff.mpr ⟨before, after, whole, size, rfl⟩⟩

/-- There are completions wherever the line can be cut. Unless a command is begun, they are for the longest
word before the cut, and scanned as keywords in its place. -/
theorem completions_scan_as_keywords (line : String) (pos : Nat) :
    Bytewise.complete? line pos = completeAt? line pos ∧
    (completeAt? line pos = none ↔ ¬ IsBoundary line.toList (min pos line.utf8ByteSize)) ∧
    ∀ completion, completeAt? line pos = some completion →
      ∃ before after, line.toList = before ++ after ∧ byteLength before = min pos line.utf8ByteSize ∧
        if before.head? = some '.' ∧ ' ' ∉ before then
          completion.start = 0 ∧ AreOffered completion.items commands before
        else ∃ front word, CompletesWord completion before front word := by
  refine ⟨Bytewise.complete?_eq line pos, completeAt?_eq_none_iff, ?_⟩
  intro completion found
  obtain ⟨before, after, whole, size, rfl⟩ := completeAt?_eq_some_iff.mp found
  refine ⟨before, after, whole, size, ?_⟩
  split
  next command =>
    rw [complete_of_command command]
    exact ⟨rfl, areOffered_beginningWith commands before⟩
  next noCommand => exact ⟨_, _, completesWord noCommand⟩

/-- The low byte of the letter in front of the word is that of an `a`, and no word goes on over it. -/
theorem complete_behind_wide_letter :
    completeAt? "1.šfu;" 6 = some ⟨4, ["fun"]⟩ ∧ Bytewise.complete? "1.šfu;" 6 = some ⟨4, ["fun"]⟩ ∧
      EndsInWord "1.šfu".toList "1.š".toList "fu".toList ∧
      scan 1 "1.šfun" = (scan 1 "1.š").withKeyword .kwFun 1 4 ∧
      ¬ IsBoundary "1.šfu;".toList (min 3 6) := by
  have found : completeAt? "1.šfu;" 6 = some ⟨4, ["fun"]⟩ := by decide
  obtain ⟨bytewise, _, offers⟩ := completions_scan_as_keywords "1.šfu;" 6
  obtain ⟨before, after, whole, size, rest⟩ := offers _ found
  obtain rfl : before = "1.šfu".toList := by
    have parted : before ++ after = "1.šfu".toList ++ [';'] := whole.symm
    exact (append_inj_of_byteLength parted size).1
  obtain ⟨front, word, completes⟩ := rest
  obtain ⟨_, refused, _⟩ := completions_scan_as_keywords "1.šfu;" 3
  obtain ⟨rfl, rfl⟩ : "1.š".toList = front ∧ "fu".toList = word := by
    have parted : "1.š".toList ++ "fu".toList = front ++ word := completes.ends.whole
    exact append_inj_of_byteLength parted completes.start
  obtain ⟨keyword, same, scanned⟩ := completes.scanned (by decide) (by decide) "fun" (by decide) 1
  obtain rfl : .kwFun = keyword := Option.some.inj (Keyword.ofWord?_eq_some.mpr same.symm)
  exact ⟨found, bytewise.trans found, completes.ends, scanned, refused.mp (by decide)⟩

end Prompt

end LoxLex
