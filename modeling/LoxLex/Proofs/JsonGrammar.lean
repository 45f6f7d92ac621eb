import LoxLex.Json.Value
import LoxLex.Proofs.Numerals

/-! The grammar of JSON, apart from any writer of it: its signs, the texts they are read from, and the
signs that values are made of. A text has at most one value. -/

namespace LoxLex.Json

inductive Value
  | null
  | boolean (value : Bool)
  | number (value : Numeral)
  | string (value : String)
  | array (items : List Value)
  | object (fields : List (String × Value))

inductive Sign
  | openArray | closeArray | openObject | closeObject | comma | colon
  | null
  | boolean (value : Bool)
  | number (value : Numeral)
  | string (value : String)

def isBlank (char : Char) : Bool := char = ' ' || char = '\t' || char = '\r' || char = '\n'

def hexValue? (char : Char) : Option Nat :=
  if char.isDigit then some (char.toNat - '0'.toNat)
  else if 'a'.toNat ≤ char.toNat ∧ char.toNat ≤ 'f'.toNat then some (char.toNat - 'a'.toNat + 10)
  else if 'A'.toNat ≤ char.toNat ∧ char.toNat ≤ 'F'.toNat then some (char.toNat - 'A'.toNat + 10)
  else none

/-- The number that four hexadecimal digits at the beginning of a text name. -/
def codeUnit? (text : List Char) : Option Nat :=
  match (text.take 4).mapM hexValue? with
  | some [first, second, third, fourth] => some (((first * 16 + second) * 16 + third) * 16 + fourth)
  | _ => none

/-- The character that a code unit stands for and how many characters name it. A unit of a pair needs
the other one, escaped as well, behind it. -/
def escapedUnit? (text : List Char) : Option (Char × Nat) :=
  (codeUnit? text).bind fun unit =>
    if unit < 0xD800 ∨ 0xE000 ≤ unit then some (.ofNat unit, 4)
    else if unit < 0xDC00 ∧ (text.drop 4).take 2 = ['\\', 'u'] then
      (codeUnit? (text.drop 6)).bind fun low =>
        if 0xDC00 ≤ low ∧ low < 0xE000 then
          some (.ofNat (0x10000 + (unit - 0xD800) * 0x400 + (low - 0xDC00)), 10)
        else none
    else none

/-- The character that is meant behind a backslash and how many characters name it. -/
def escaped? : List Char → Option (Char × Nat)
  | [] => none
  | '"' :: _ => some ('"', 1)
  | '\\' :: _ => some ('\\', 1)
  | '/' :: _ => some ('/', 1)
  | 'b' :: _ => some ('\x08', 1)
  | 'f' :: _ => some ('\x0C', 1)
  | 'n' :: _ => some ('\n', 1)
  | 'r' :: _ => some ('\r', 1)
  | 't' :: _ => some ('\t', 1)
  | 'u' :: text => (escapedUnit? text).map fun (char, used) => (char, used + 1)
  | _ => none

/-- The text up to the closing quote and how many characters it takes with the quote. -/
def string? : List Char → Option (List Char × Nat)
  | [] => none
  | first :: rest =>
    if first = '"' then some ([], 1)
    else if first = '\\' then
      (escaped? rest).bind fun (char, used) =>
        (string? (rest.drop used)).map fun (text, more) => (char :: text, more + used + 1)
    else if first.toNat < 0x20 then none
    else (string? rest).map fun (text, more) => (first :: text, more + 1)
termination_by text => text.length

/-- A sign that is not a number. -/
def mark? (first : Char) (rest : List Char) : Option (Sign × Nat) :=
  match first with
  | '[' => some (.openArray, 0)
  | ']' => some (.closeArray, 0)
  | '\x7b' => some (.openObject, 0)
  | '\x7d' => some (.closeObject, 0)
  | ',' => some (.comma, 0)
  | ':' => some (.colon, 0)
  | '"' => (string? rest).map fun (text, used) => (.string (.ofList text), used)
  | 'n' => if rest.take 3 = "ull".toList then some (.null, 3) else none
  | 't' => if rest.take 3 = "rue".toList then some (.boolean true, 3) else none
  | 'f' => if rest.take 4 = "alse".toList then some (.boolean false, 4) else none
  | _ => none

/-- The sign that a character begins and how many more characters it takes. -/
def sign? (first : Char) (rest : List Char) : Option (Sign × Nat) :=
  if first = '-' ∨ first.isDigit then
    let more := rest.takeWhile Numeral.mayHold
    (Numeral.read? (first :: more)).map fun value => (.number value, more.length)
  else mark? first rest

/-- The signs of a text. Blanks may stand between them. -/
def signs? : List Char → Option (List Sign)
  | [] => some []
  | first :: rest =>
    if isBlank first then signs? rest
    else (sign? first rest).bind fun (sign, used) => (signs? (rest.drop used)).map fun signs => sign :: signs
termination_by text => text.length

namespace Value

mutual

def signs : Value → List Sign
  | null => [.null]
  | boolean value => [.boolean value]
  | number value => [.number value]
  | string value => [.string value]
  | array [] => [.openArray, .closeArray]
  | array (item :: items) => .openArray :: (signs item ++ itemSigns items)
  | object [] => [.openObject, .closeObject]
  | object ((name, value) :: fields) =>
    .openObject :: .string name :: .colon :: (signs value ++ fieldSigns fields)

def itemSigns : List Value → List Sign
  | [] => [.closeArray]
  | item :: items => .comma :: (signs item ++ itemSigns items)

def fieldSigns : List (String × Value) → List Sign
  | [] => [.closeObject]
  | (name, value) :: fields => .comma :: .string name :: .colon :: (signs value ++ fieldSigns fields)

end

end Value

/-- A text is JSON for a value. -/
def Denotes (text : String) (value : Value) : Prop := signs? text.toList = some value.signs

namespace Value

private theorem closeArray_ne_signs (value : Value) (rest more : List Sign) :
    value.signs ++ rest ≠ .closeArray :: more := by
  cases value with
  | array items => cases items <;> simp [signs]
  | object fields => cases fields <;> simp [signs]
  | _ => simp [signs]

mutual

/-- No value's signs begin those of another one. -/
private theorem signs_append_inj (value other : Value) (rest more : List Sign)
    (same : value.signs ++ rest = other.signs ++ more) : value = other ∧ rest = more := by
  cases value with
  | array items =>
    cases items with
    | nil =>
      cases other with
      | array others =>
        cases others with
        | nil => simpa [signs] using same
        | cons second others =>
          simp only [signs, List.cons_append, List.cons.injEq, true_and, List.append_assoc] at same
          exact (closeArray_ne_signs _ _ _ same.symm).elim
      | object fields => cases fields <;> simp [signs] at same
      | _ => simp [signs] at same
    | cons item items =>
      cases other with
      | array others =>
        cases others with
        | nil =>
          simp only [signs, List.cons_append, List.cons.injEq, true_and, List.append_assoc] at same
          exact (closeArray_ne_signs _ _ _ same).elim
        | cons second others =>
          simp only [signs, List.cons_append, List.cons.injEq, true_and, List.append_assoc] at same
          obtain ⟨rfl, later⟩ := signs_append_inj item second _ _ same
          obtain ⟨rfl, rfl⟩ := itemSigns_append_inj items others _ _ later
          exact ⟨rfl, rfl⟩
      | object fields => cases fields <;> simp [signs] at same
      | _ => simp [signs] at same
  | object fields =>
    cases fields with
    | nil =>
      cases other with
      | array others => cases others <;> simp [signs] at same
      | object others =>
        cases others with
        | nil => simpa [signs] using same
        | cons second others => simp [signs] at same
      | _ => simp [signs] at same
    | cons field fields =>
      cases other with
      | array others => cases others <;> simp [signs] at same
      | object others =>
        cases others with
        | nil => simp [signs] at same
        | cons second others =>
          simp only [signs, List.cons_append, List.cons.injEq, Sign.string.injEq, true_and,
            List.append_assoc] at same
          obtain ⟨valueSame, later⟩ := signs_append_inj field.2 second.2 _ _ same.2
          obtain ⟨rfl, rfl⟩ := fieldSigns_append_inj fields others _ _ later
          exact ⟨by rw [Prod.ext same.1 valueSame], rfl⟩
      | _ => simp [signs] at same
  | _ =>
    cases other with
    | array others => cases others <;> simp [signs] at same
    | object others => cases others <;> simp [signs] at same
    | _ => simp_all [signs]

private theorem itemSigns_append_inj (items others : List Value) (rest more : List Sign)
    (same : itemSigns items ++ rest = itemSigns others ++ more) : items = others ∧ rest = more := by
  cases items with
  | nil =>
    cases others with
    | nil => simpa [itemSigns] using same
    | cons second others => simp [itemSigns] at same
  | cons item items =>
    cases others with
    | nil => simp [itemSigns] at same
    | cons second others =>
      simp only [itemSigns, List.cons_append, List.cons.injEq, true_and, List.append_assoc] at same
      obtain ⟨rfl, later⟩ := signs_append_inj item second _ _ same
      obtain ⟨rfl, rfl⟩ := itemSigns_append_inj items others _ _ later
      exact ⟨rfl, rfl⟩

private theorem fieldSigns_append_inj (fields others : List (String × Value)) (rest more : List Sign)
    (same : fieldSigns fields ++ rest = fieldSigns others ++ more) : fields = others ∧ rest = more := by
  cases fields with
  | nil =>
    cases others with
    | nil => simpa [fieldSigns] using same
    | cons second others => simp [fieldSigns] at same
  | cons field fields =>
    cases others with
    | nil => simp [fieldSigns] at same
    | cons second others =>
      simp only [fieldSigns, List.cons_append, List.cons.injEq, Sign.string.injEq, true_and,
        List.append_assoc] at same
      obtain ⟨valueSame, later⟩ := signs_append_inj field.2 second.2 _ _ same.2
      obtain ⟨rfl, rfl⟩ := fieldSigns_append_inj fields others _ _ later
      exact ⟨by rw [Prod.ext same.1 valueSame], rfl⟩

end

end Value

theorem Denotes.unique {text : String} {value other : Value} (first : Denotes text value)
    (second : Denotes text other) : value = other := by
  have same : value.signs ++ [] = other.signs ++ [] := by
    rw [List.append_nil, List.append_nil]
    exact Option.some.inj (first.symm.trans second)
  exact (Value.signs_append_inj value other [] [] same).1

end LoxLex.Json
