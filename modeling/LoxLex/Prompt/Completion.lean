import LoxLex.Text.Bytes
import LoxLex.Token.Kind

/-! Completions at the prompt: commands at the start of a line, keywords elsewhere. -/

namespace LoxLex.Prompt

/-- The commands, as they are typed. One that takes an argument ends in a blank. -/
def commands : List String := [".help", ".load ", ".exit"]

/-- The longest word that ends a text, and what stands before it. -/
def splitWord (text : List Char) : List Char × List Char :=
  ((text.reverse.dropWhile isWordChar).reverse, (text.reverse.takeWhile isWordChar).reverse)

def wordStart (text : List Char) : Nat := Text.byteLength (splitWord text).1

def beginningWith (start : List Char) (words : List String) : List String :=
  words.filter fun word => start.isPrefixOf word.toList

/-- What may stand in the place of the text from `start` up to the cursor. -/
structure Completion where
  start : Nat
  items : List String
  deriving DecidableEq

def complete (before : List Char) : Completion :=
  if before.head? = some '.' ∧ ' ' ∉ before then ⟨0, beginningWith before commands⟩
  else
    let word := (splitWord before).2
    ⟨wordStart before,
      if word.isEmpty then [] else beginningWith word (Keyword.all.map Keyword.word)⟩

/-- Completes a line at a byte offset; one past the end means the end. There is no answer inside a
character. -/
def completeAt? (line : String) (pos : Nat) : Option Completion := do
  let text := line.toList
  let (before, _) ← Text.splitAt? (min pos (Text.byteLength text)) text
  return complete before

theorem splitWord_append (text : List Char) : (splitWord text).1 ++ (splitWord text).2 = text := by
  rw [splitWord, ← List.reverse_append, List.takeWhile_append_dropWhile, List.reverse_reverse]

end LoxLex.Prompt
