import LoxLex.Text.Bytes
import LoxLex.Text.Grapheme

/-! Text with backspaces in it. Each one takes back the cluster before it. Main statement: text without
backspaces is as it was typed. -/

namespace LoxLex.Text

def backspace : Char := '\x08'

/-- What stands after some typing, last character first, and how many bytes each cluster of it takes,
last cluster first. The number is kept in one byte. -/
structure Typed where
  text : List Char := []
  sizes : List UInt8 := []
  deriving DecidableEq

namespace Typed

/-- Types one cluster. A backspace takes back as many bytes as the last cluster is said to have; there
is no result when that would cut a character. -/
def add? (typed : Typed) (cluster : List Char) : Option Typed :=
  if cluster = [backspace] then
    match typed.sizes with
    | [] => some typed
    | size :: sizes => (splitAt? size.toNat typed.text).map fun (_, text) => ⟨text, sizes⟩
  else some ⟨cluster.reverse ++ typed.text, .ofNat (byteLength cluster) :: typed.sizes⟩

end Typed

def applyBackspaces? (text : List Char) : Option (List Char) :=
  ((clusters text).foldlM Typed.add? {}).map fun typed => typed.text.reverse

private theorem foldlM_add?_text (found : List (List Char)) (typed : Typed)
    (absent : ∀ cluster ∈ found, cluster ≠ [backspace]) :
    (found.foldlM Typed.add? typed).map Typed.text = some (found.flatten.reverse ++ typed.text) := by
  induction found generalizing typed with
  | nil => simp
  | cons cluster rest ih =>
    have here := absent cluster (by simp)
    have there := fun other member => absent other (List.mem_cons_of_mem cluster member)
    simp [Typed.add?, here, ih _ there]

theorem applyBackspaces?_of_not_mem {text : List Char} (absent : backspace ∉ text) :
    applyBackspaces? text = some text := by
  have apart : ∀ cluster ∈ clusters text, cluster ≠ [backspace] := by
    rintro _ member rfl
    exact absent (clusters_flatten text ▸ List.mem_flatten.mpr ⟨_, member, by simp⟩)
  have whole := congrArg (Option.map List.reverse) (foldlM_add?_text (clusters text) {} apart)
  simpa [applyBackspaces?, clusters_flatten, Function.comp_def] using whole

end LoxLex.Text
