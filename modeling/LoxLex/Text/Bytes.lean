/-! Text measured in the bytes of its UTF-8 form. Offsets everywhere in the library are byte
offsets; one that falls inside a character cuts nothing, so a slice may fail to exist. -/

namespace LoxLex.Text

def byteLength : List Char → Nat
  | [] => 0
  | char :: rest => char.utf8Size + byteLength rest

/-- The characters before a byte offset and those from it on. There are none when the offset lies
inside a character or past the end. -/
def splitAt? : Nat → List Char → Option (List Char × List Char)
  | 0, text => some ([], text)
  | _ + 1, [] => none
  | offset + 1, char :: rest =>
    if char.utf8Size ≤ offset + 1 then
      (splitAt? (offset + 1 - char.utf8Size) rest).map fun (before, after) => (char :: before, after)
    else none

def slice? (start stop : Nat) (text : List Char) : Option (List Char) := do
  let (before, _) ← splitAt? stop text
  let (_, middle) ← splitAt? start before
  return middle

/-- Line feeds are the only line ends. -/
def lineFeeds (text : List Char) : Nat := text.count '\n'

@[simp] theorem byteLength_append (first second : List Char) :
    byteLength (first ++ second) = byteLength first + byteLength second := by
  induction first with
  | nil => simp [byteLength]
  | cons char rest ih => simp [byteLength, ih, Nat.add_assoc]

theorem byteLength_pos (char : Char) (rest : List Char) : 0 < byteLength (char :: rest) := by
  have positive := char.utf8Size_pos
  simp only [byteLength]
  omega

theorem splitAt?_append (before after : List Char) :
    splitAt? (byteLength before) (before ++ after) = some (before, after) := by
  induction before with
  | nil => simp [byteLength, splitAt?]
  | cons char rest ih =>
    have positive := char.utf8Size_pos
    obtain ⟨offset, same⟩ : ∃ offset, byteLength (char :: rest) = offset + 1 :=
      ⟨byteLength (char :: rest) - 1, by have := byteLength_pos char rest; omega⟩
    have remaining : offset + 1 - char.utf8Size = byteLength rest := by
      simp only [byteLength] at same
      omega
    have fits : char.utf8Size ≤ offset + 1 := by
      simp only [byteLength] at same
      omega
    rw [same, List.cons_append, splitAt?, if_pos fits, remaining, ih]
    rfl

theorem splitAt?_eq_some {offset : Nat} {text before after : List Char}
    (found : splitAt? offset text = some (before, after)) :
    text = before ++ after ∧ byteLength before = offset := by
  fun_induction splitAt? offset text generalizing before after with
  | case1 text => simp_all [byteLength]
  | case2 => simp at found
  | case3 offset char rest fits ih =>
    obtain ⟨⟨first, last⟩, inner, same⟩ := Option.map_eq_some_iff.mp found
    simp only [Prod.mk.injEq] at same
    obtain ⟨rfl, rfl⟩ := same
    obtain ⟨whole, length⟩ := ih inner
    simp only [byteLength, whole, List.cons_append, true_and]
    omega
  | case4 => simp at found

theorem slice?_append (before middle after : List Char) :
    slice? (byteLength before) (byteLength before + byteLength middle) (before ++ (middle ++ after)) =
      some middle := by
  have outer := splitAt?_append (before ++ middle) after
  rw [byteLength_append, List.append_assoc] at outer
  simp [slice?, outer, splitAt?_append]

end LoxLex.Text
