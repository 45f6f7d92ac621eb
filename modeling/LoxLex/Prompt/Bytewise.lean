import LoxLex.Prompt.Editor
import LoxLex.Scan.Bytewise

/-! Completions and hints as cuts at byte offsets. A cut that would fall inside a character, or behind the
end of a text, ends the search without an answer. -/

namespace LoxLex.Prompt.Bytewise
open Text

/-- The characters of a text, each with the offset it begins at. -/
def offsets (start : Nat) : List Char → List (Nat × Char)
  | [] => []
  | char :: rest => (start, char) :: offsets (start + char.utf8Size) rest

/-- Whether a character belongs to no word. Only an ASCII character may be looked up by its lowest byte:
beyond ASCII that byte can be a letter. -/
def endsWord (char : Char) : Bool :=
  0x80 ≤ char.toNat || !isWordChar (LoxLex.Bytewise.toChar (.ofNat char.toNat))

/-- The offset behind the last character that belongs to no word. -/
def wordStart (text : List Char) : Nat :=
  match (offsets 0 text).reverse.find? fun item => endsWord item.2 with
  | some (offset, char) => offset + char.utf8Size
  | none => 0

def complete? (line : String) (pos : Nat) : Option Completion := do
  let before ← slice? 0 (min pos line.utf8ByteSize) line.toList
  if before.head? = some '.' ∧ ' ' ∉ before then return ⟨0, beginningWith before commands⟩
  let start := wordStart before
  let word ← slice? start (byteLength before) before
  return ⟨start, if word.isEmpty then [] else beginningWith word (Keyword.all.map Keyword.word)⟩

/-- The hint at a byte offset, if there is one. -/
def hint? (line : String) (pos : Nat) : Option (Option String) := do
  if Editor.isCommand line then return none
  if pos < line.utf8ByteSize then return none
  let word ← slice? (wordStart line.toList) line.utf8ByteSize line.toList
  if word.isEmpty then return none
  let longer (keyword : String) := byteLength word < keyword.utf8ByteSize
  match (beginningWith word (Keyword.all.map Keyword.word)).filter (longer ·) with
  | [only] =>
    let rest ← slice? (byteLength word) only.utf8ByteSize only.toList
    return some (.ofList rest)
  | _ => return none

end LoxLex.Prompt.Bytewise
