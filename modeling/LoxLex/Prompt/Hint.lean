import LoxLex.Prompt.Completion

/-! Hints at the prompt: the rest of a keyword, where only one can be meant. -/

namespace LoxLex.Prompt

/-- What the word at the end of a line lacks to be the only keyword longer than it that begins so.
With the cursor before the end there is no hint. -/
def hintAt? (line : String) (pos : Nat) : Option String :=
  let text := line.toList
  if pos < Text.byteLength text then none
  else
    let word := (splitWord text).2
    if word.isEmpty then none
    else
      let longer (keyword : String) := word.length < keyword.toList.length
      match (beginningWith word (Keyword.all.map Keyword.word)).filter (longer ·) with
      | [only] => some (.ofList (only.toList.drop word.length))
      | _ => none

end LoxLex.Prompt
