import LoxLex.Number.Notation

/-! JSON values and their texts, one without blanks and one indented. -/

namespace LoxLex

/-- A JSON value. Whole numbers are kept apart from binary64 ones, which are finite. -/
inductive Json
  | null
  | natural (value : Nat)
  | number (value : Binary64)
  | string (value : String)
  | array (items : List Json)
  | object (fields : List (String × Json))

namespace Json

def hexDigit (value : Nat) : Char := Nat.digitChar value

/-- A character inside a string. Quotes, backslashes and controls are escaped, and nothing else. -/
def escape (char : Char) : List Char :=
  match char with
  | '"' => ['\\', '"']
  | '\\' => ['\\', '\\']
  | '\x08' => ['\\', 'b']
  | '\t' => ['\\', 't']
  | '\n' => ['\\', 'n']
  | '\x0C' => ['\\', 'f']
  | '\r' => ['\\', 'r']
  | char =>
    if char.toNat < 0x20 then
      ['\\', 'u', '0', '0', hexDigit (char.toNat / 16), hexDigit (char.toNat % 16)]
    else [char]

def quote (text : String) : List Char := '"' :: (text.toList.flatMap escape ++ ['"'])

/-- A number that is not finite has no text of its own and is written as null. -/
def writeNumber (value : Binary64) : List Char :=
  if value.isFinite then NumberStyle.json.write value else "null".toList

mutual

def compact : Json → List Char
  | null => "null".toList
  | natural value => Nat.toDigits 10 value
  | number value => writeNumber value
  | string value => quote value
  | array [] => ['[', ']']
  | array (item :: items) => '[' :: (compact item ++ compactItems items)
  | object [] => ['\x7b', '\x7d']
  | object ((name, value) :: fields) =>
    '\x7b' :: (quote name ++ ':' :: (compact value ++ compactFields fields))

def compactItems : List Json → List Char
  | [] => [']']
  | item :: items => ',' :: (compact item ++ compactItems items)

def compactFields : List (String × Json) → List Char
  | [] => ['\x7d']
  | (name, value) :: fields =>
    ',' :: (quote name ++ ':' :: (compact value ++ compactFields fields))

end

def newLine (level : Nat) : List Char := '\n' :: List.replicate (2 * level) ' '

mutual

def pretty (level : Nat) : Json → List Char
  | null => "null".toList
  | natural value => Nat.toDigits 10 value
  | number value => writeNumber value
  | string value => quote value
  | array [] => ['[', ']']
  | array (item :: items) =>
    '[' :: (newLine (level + 1) ++ pretty (level + 1) item ++ prettyItems level items)
  | object [] => ['\x7b', '\x7d']
  | object ((name, value) :: fields) =>
    '\x7b' :: (newLine (level + 1) ++ quote name ++ ':' :: ' ' ::
      (pretty (level + 1) value ++ prettyFields level fields))

def prettyItems (level : Nat) : List Json → List Char
  | [] => newLine level ++ [']']
  | item :: items =>
    ',' :: (newLine (level + 1) ++ pretty (level + 1) item ++ prettyItems level items)

def prettyFields (level : Nat) : List (String × Json) → List Char
  | [] => newLine level ++ ['\x7d']
  | (name, value) :: fields =>
    ',' :: (newLine (level + 1) ++ quote name ++ ':' :: ' ' ::
      (pretty (level + 1) value ++ prettyFields level fields))

end

def toCompact (json : Json) : String := .ofList json.compact

def toPretty (json : Json) : String := .ofList (json.pretty 0)

end Json

end LoxLex
