import LoxLex.Proofs.Completing

/-! A hint is the rest of the only completion that is longer than the word at the end of a line. A line that
has taken its hint is complete: its word is the keyword, and nothing more is offered or hinted. -/

namespace LoxLex.Prompt
open Text

/-- One item alone is longer than the word that it completes. -/
structure Completion.Decides (completion : Completion) (line : String) (word : List Char) (item : String) :
    Prop where
  replaced : slice? completion.start line.utf8ByteSize line.toList = some word
  only : completion.items.filter (fun other => byteLength word < other.utf8ByteSize) = [item]

private theorem beginningWith_word (keyword : Keyword) :
    beginningWith keyword.word.toList keywords = [keyword.word] := by
  cases keyword <;> decide

/-- The keywords that go on with a word. -/
def longer (word : List Char) : List String :=
  (beginningWith word keywords).filter fun keyword => byteLength word < keyword.utf8ByteSize

private theorem longer_word (keyword : Keyword) : longer keyword.word.toList = [] := by
  rw [longer, beginningWith_word]
  simp [byteLength_toList]

section Line

variable {line item rest : String} {pos : Nat} {word : List Char}

private theorem longer_iff (begins : word <+: item.toList) :
    byteLength word < item.utf8ByteSize ↔ word.length < item.toList.length := by
  obtain ⟨more, whole⟩ := begins
  rw [← byteLength_toList, ← whole, byteLength_append, List.length_append]
  cases more with
  | nil => simp [byteLength]
  | cons char more =>
    have positive := byteLength_pos char more
    simp only [List.length_cons]
    omega

private theorem filter_length_eq_longer (word : List Char) :
    (beginningWith word keywords).filter (fun keyword => word.length < keyword.toList.length) = longer word := by
  apply List.filter_congr
  intro item member
  have begins := ((areOffered_beginningWith keywords word).beginning item).mp member |>.2
  simp [longer_iff begins]

private theorem exists_of_longer (single : longer word = [item]) :
    ∃ (keyword : Keyword) (more : List Char), keyword.word = item ∧ item.toList = word ++ more ∧ more ≠ [] := by
  obtain ⟨offered, large⟩ := List.mem_filter.mp (single ▸ List.mem_singleton_self item : item ∈ longer word)
  obtain ⟨listed, more, whole⟩ := ((areOffered_beginningWith keywords word).beginning item).mp offered
  obtain ⟨keyword, same⟩ := mem_keywords.mp listed
  refine ⟨keyword, more, same, whole.symm, ?_⟩
  rintro rfl
  rw [List.append_nil] at whole
  simp [whole, byteLength_toList] at large

private theorem slice?_rest {more : List Char} (whole : item.toList = word ++ more) :
    slice? (byteLength word) item.utf8ByteSize item.toList = some more := by
  have cut := slice?_append word more []
  rwa [List.append_nil, ← byteLength_append, ← whole, byteLength_toList] at cut

/-- The cursor is behind a word that only one keyword goes on with. -/
structure Lacks (line : String) (pos : Nat) (item : String) : Prop where
  atEnd : line.utf8ByteSize ≤ pos
  nonempty : (splitWord line.toList).2 ≠ []
  single : longer (splitWord line.toList).2 = [item]

private theorem hintAt?_eq_some_iff :
    hintAt? line pos = some rest ↔
      ∃ item, Lacks line pos item ∧ item.toList = (splitWord line.toList).2 ++ rest.toList := by
  unfold hintAt?
  dsimp only
  rw [byteLength_toList]
  split
  next early =>
    refine iff_of_false nofun ?_
    rintro ⟨item, lacks, _⟩
    exact Nat.not_le_of_lt early lacks.atEnd
  next atEnd =>
    split
    next empty =>
      refine iff_of_false nofun ?_
      rintro ⟨item, lacks, _⟩
      exact lacks.nonempty (List.isEmpty_iff.mp empty)
    next nonempty =>
      rw [List.isEmpty_iff] at nonempty
      split
      next only found =>
        have single := (filter_length_eq_longer _).symm.trans found
        constructor
        · rintro ⟨⟩
          obtain ⟨_, more, _, whole, _⟩ := exists_of_longer single
          exact ⟨only, ⟨Nat.le_of_not_lt atEnd, nonempty, single⟩, by simp [whole]⟩
        · rintro ⟨item, lacks, whole⟩
          obtain rfl : only = item := List.singleton_inj.mp (single.symm.trans lacks.single)
          simp [whole]
      next several =>
        refine iff_of_false nofun ?_
        rintro ⟨item, lacks, _⟩
        exact several item ((filter_length_eq_longer _).trans lacks.single)

private theorem Lacks.hintAt? {more : List Char} (lacks : Lacks line pos item)
    (whole : item.toList = (splitWord line.toList).2 ++ more) : hintAt? line pos = some (.ofList more) :=
  hintAt?_eq_some_iff.mpr ⟨item, lacks, by rw [whole, String.toList_ofList]⟩

private theorem hintAt?_isSome_iff : (hintAt? line pos).isSome ↔ ∃ item, Lacks line pos item := by
  rw [Option.isSome_iff_exists]
  constructor
  · rintro ⟨rest, found⟩
    obtain ⟨item, lacks, _⟩ := hintAt?_eq_some_iff.mp found
    exact ⟨item, lacks⟩
  · rintro ⟨item, lacks⟩
    obtain ⟨_, more, _, whole, _⟩ := exists_of_longer lacks.single
    exact ⟨_, lacks.hintAt? whole⟩

private theorem hintAt?_eq_none (nothing : ∀ item, ¬ Lacks line pos item) : hintAt? line pos = none := by
  rwa [← Option.not_isSome_iff_eq_none, hintAt?_isSome_iff, not_exists]

/-- All cuts that a hint needs can be made. -/
private theorem Bytewise.hint?_eq (line : String) (pos : Nat) : hint? line pos = some (Editor.hint? line pos) := by
  have cut := slice?_word line.toList
  rw [byteLength_toList, ← wordStart_eq] at cut
  unfold hint? Editor.hint?
  simp only [cut, Option.bind_eq_bind, Option.bind_some]
  split
  next command => rfl
  next noCommand =>
    split
    next early =>
      rw [hintAt?_eq_none fun item lacks => Nat.not_le_of_lt early lacks.atEnd]
      rfl
    next atEnd =>
      split
      next empty =>
        rw [hintAt?_eq_none fun item lacks => lacks.nonempty (List.isEmpty_iff.mp empty)]
        rfl
      next nonempty =>
        rw [List.isEmpty_iff] at nonempty
        split
        next only single =>
          have lacks : Lacks line pos only := ⟨Nat.le_of_not_lt atEnd, nonempty, single⟩
          obtain ⟨_, more, _, whole, _⟩ := exists_of_longer lacks.single
          rw [slice?_rest whole, lacks.hintAt? whole]
          rfl
        next several =>
          rw [hintAt?_eq_none fun item lacks => several item lacks.single]
          rfl

private theorem isCommand_iff :
    Editor.isCommand line ↔
      ∃ blanks after, (∀ char ∈ blanks, isBlank char) ∧ line.toList = blanks ++ '.' :: after := by
  rw [Editor.isCommand, trimStart, decide_eq_true_eq]
  constructor
  · intro point
    obtain ⟨after, same⟩ := List.head?_eq_some_iff.mp point
    refine ⟨line.toList.takeWhile isBlank, after, fun char member => holds_of_mem_takeWhile member, ?_⟩
    rw [← same, List.takeWhile_append_dropWhile]
  · rintro ⟨blanks, after, inside, whole⟩
    have ends : Halts isBlank ('.' :: after) := halts_cons.mpr rfl
    rw [whole, dropWhile_run inside ends]
    rfl

private theorem head?_ne_of_not_isCommand (noCommand : ¬ Editor.isCommand line) : line.toList.head? ≠ some '.' := by
  intro point
  obtain ⟨after, whole⟩ := List.head?_eq_some_iff.mp point
  exact noCommand (isCommand_iff.mpr ⟨[], after, nofun, whole⟩)

private theorem completeAt?_end (atEnd : line.utf8ByteSize ≤ pos) :
    completeAt? line pos = some (complete line.toList) := by
  refine completeAt?_eq_some_iff.mpr ⟨line.toList, [], (List.append_nil _).symm, ?_, rfl⟩
  rw [byteLength_toList, Nat.min_eq_right atEnd]

private theorem decides_iff (noPoint : line.toList.head? ≠ some '.') :
    (complete line.toList).Decides line word item ↔
      word = (splitWord line.toList).2 ∧ word ≠ [] ∧ longer word = [item] := by
  have cut := Bytewise.slice?_word line.toList
  rw [byteLength_toList] at cut
  rw [complete_of_word fun command => noPoint command.1]
  constructor
  · rintro ⟨replaced, only⟩
    obtain rfl : word = (splitWord line.toList).2 := Option.some.inj (replaced.symm.trans cut)
    by_cases empty : (splitWord line.toList).2.isEmpty
    · rw [if_pos empty] at only
      cases only
    · rw [if_neg empty] at only
      exact ⟨rfl, mt List.isEmpty_iff.mpr empty, only⟩
  · rintro ⟨rfl, nonempty, single⟩
    refine ⟨cut, ?_⟩
    rw [if_neg (mt List.isEmpty_iff.mp nonempty)]
    exact single

private theorem hint?_eq_some_iff :
    Editor.hint? line pos = some rest ↔ ¬ Editor.isCommand line ∧ hintAt? line pos = some rest := by
  rw [Editor.hint?]
  split <;> simp_all

private theorem hint?_isSome_iff :
    (Editor.hint? line pos).isSome ↔
      ¬ Editor.isCommand line ∧ line.utf8ByteSize ≤ pos ∧
        ∃ word item, (complete line.toList).Decides line word item := by
  simp only [Option.isSome_iff_exists, hint?_eq_some_iff, exists_and_left]
  rw [← Option.isSome_iff_exists, hintAt?_isSome_iff]
  refine and_congr_right fun noCommand => ?_
  simp only [decides_iff (head?_ne_of_not_isCommand noCommand)]
  constructor
  · rintro ⟨item, lacks⟩
    exact ⟨lacks.atEnd, _, item, rfl, lacks.nonempty, lacks.single⟩
  · rintro ⟨atEnd, _, item, rfl, nonempty, single⟩
    exact ⟨item, atEnd, nonempty, single⟩

/-- A line that has taken its hint ends in the one keyword that is offered for it. -/
private theorem accept_hint (noPoint : line.toList.head? ≠ some '.')
    (decides : (complete line.toList).Decides line word item) (spelled : item.toList = word ++ rest.toList) :
    complete (line ++ rest).toList = ⟨(complete line.toList).start, [item]⟩ ∧
      ∀ later, hintAt? (line ++ rest) later = none := by
  obtain ⟨rfl, nonempty, single⟩ := (decides_iff noPoint).mp decides
  obtain ⟨keyword, more, rfl, _, _⟩ := exists_of_longer single
  have split : splitWord (line ++ rest).toList = ((splitWord line.toList).1, keyword.word.toList) := by
    have whole : (line ++ rest).toList = (splitWord line.toList).1 ++ keyword.word.toList := by
      rw [spelled, ← List.append_assoc, splitWord_append, String.toList_append]
    rw [whole, splitWord_of_halts keyword.isWord.isWordChar (splitWord_halts _)]
  have point : (line ++ rest).toList.head? ≠ some '.' := by
    have filled : line.toList ≠ [] := by
      intro empty
      rw [empty] at nonempty
      exact nonempty rfl
    rwa [String.toList_append, List.head?_append_of_ne_nil _ filled]
  have some : ¬ keyword.word.toList.isEmpty := by
    obtain ⟨char, more, same, _⟩ := keyword.isWord.exists_cons
    simp [same]
  constructor
  · rw [complete_of_word fun command => point command.1, complete_of_word fun command => noPoint command.1, split,
      if_neg some, beginningWith_word]
  · intro later
    refine hintAt?_eq_none fun item lacks => ?_
    have nothing := lacks.single
    rw [split, longer_word] at nothing
    cases nothing

end Line

/-- There is a hint exactly where one completion alone is longer than its word, and the two together are that
completion. With the hint taken, the line offers it alone and has no other hint. -/
theorem hint_completes (line : String) (pos : Nat) :
    Bytewise.hint? line pos = some (Editor.hint? line pos) ∧
    ((Editor.hint? line pos).isSome ↔
      line.utf8ByteSize ≤ pos ∧
      (¬ ∃ blanks after, (∀ char ∈ blanks, isBlank char) ∧ line.toList = blanks ++ '.' :: after) ∧
      ∃ completion word item, completeAt? line pos = some completion ∧ completion.Decides line word item) ∧
    ∀ rest, Editor.hint? line pos = some rest →
      ∃ completion word item, completeAt? line pos = some completion ∧ completion.Decides line word item ∧
        item.toList = word ++ rest.toList ∧ rest ≠ "" ∧
        completeAt? (line ++ rest) (line ++ rest).utf8ByteSize = some ⟨completion.start, [item]⟩ ∧
        ∀ later, Editor.hint? (line ++ rest) later = none := by
  refine ⟨Bytewise.hint?_eq line pos, ?_, ?_⟩
  · rw [hint?_isSome_iff, ← isCommand_iff]
    constructor
    · rintro ⟨noCommand, atEnd, word, item, decides⟩
      exact ⟨atEnd, noCommand, _, word, item, completeAt?_end atEnd, decides⟩
    · rintro ⟨atEnd, noCommand, completion, word, item, found, decides⟩
      obtain rfl : complete line.toList = completion := Option.some.inj ((completeAt?_end atEnd).symm.trans found)
      exact ⟨noCommand, atEnd, word, item, decides⟩
  · intro rest found
    obtain ⟨noCommand, hinted⟩ := hint?_eq_some_iff.mp found
    obtain ⟨item, lacks, spelled⟩ := hintAt?_eq_some_iff.mp hinted
    have noPoint := head?_ne_of_not_isCommand noCommand
    have decides := (decides_iff noPoint).mpr ⟨rfl, lacks.nonempty, lacks.single⟩
    obtain ⟨_, more, _, whole, longer⟩ := exists_of_longer lacks.single
    have nonblank : rest ≠ "" := by
      rintro rfl
      exact longer (List.append_cancel_left (whole.symm.trans spelled))
    obtain ⟨offered, nothing⟩ := accept_hint noPoint decides spelled
    refine ⟨_, _, item, completeAt?_end lacks.atEnd, decides, spelled, nonblank, ?_, ?_⟩
    · rw [completeAt?_end (Nat.le_refl _), offered]
    · intro later
      rw [Editor.hint?, nothing, ite_self]

/-- White space before a word does not matter, and before a point it makes no word of a command. -/
theorem hint_behind_blanks :
    Bytewise.hint? " print re" 9 = some (some "turn") ∧
      completeAt? " print re" 9 = some ⟨7, ["return"]⟩ ∧
      completeAt? " print return" 13 = some ⟨7, ["return"]⟩ ∧
      (∀ later, Editor.hint? " print return" later = none) ∧
      ¬ (Editor.hint? "\u3000.re" 6).isSome := by
  have found : Editor.hint? " print re" 9 = some "turn" := by decide
  have offered : completeAt? " print re" 9 = some ⟨7, ["return"]⟩ := by decide
  obtain ⟨bytewise, _, accepts⟩ := hint_completes " print re" 9
  obtain ⟨completion, word, item, same, decides, spelled, _, accepted, nothing⟩ := accepts "turn" found
  obtain rfl : ⟨7, ["return"]⟩ = completion := Option.some.inj (offered.symm.trans same)
  obtain rfl : "re".toList = word := Option.some.inj decides.replaced
  obtain rfl : item = "return" := String.toList_inj.mp spelled
  obtain ⟨_, hints, _⟩ := hint_completes "\u3000.re" 6
  refine ⟨bytewise.trans (congrArg some found), offered, accepted, nothing, ?_⟩
  intro hinted
  exact (hints.mp hinted).2.1 ⟨['\u3000'], ['r', 'e'], List.forall_mem_singleton.mpr (by decide), rfl⟩

end LoxLex.Prompt
