import LoxLex.Proofs.JsonGrammar

/-! Reading JSON as it is written. Both layouts of a value are texts for the same value, since they have
the same signs and only blanks between them. -/

namespace LoxLex.Json

private theorem signs?_of_sign? {first : Char} {rest : List Char} {sign : Sign} {used : Nat}
    (unblank : isBlank first = false) (read : sign? first rest = some (sign, used)) :
    signs? (first :: rest) = (signs? (rest.drop used)).map fun signs => sign :: signs := by
  rw [signs?, if_neg (by simp [unblank]), read]
  rfl

/-- The one character of a sign that has no other text. -/
def Sign.char? : Sign → Option Char
  | openArray => some '['
  | closeArray => some ']'
  | openObject => some '\x7b'
  | closeObject => some '\x7d'
  | comma => some ','
  | colon => some ':'
  | _ => none

private theorem signs?_char (sign : Sign) {char : Char} (spelled : sign.char? = some char) (rest : List Char) :
    signs? (char :: rest) = (signs? rest).map fun signs => sign :: signs := by
  have read : isBlank char = false ∧ sign? char rest = some (sign, 0) := by
    cases sign <;> cases spelled <;> exact ⟨rfl, rfl⟩
  exact signs?_of_sign? read.1 read.2

private theorem signs?_blanks {blanks : List Char} (blank : ∀ char ∈ blanks, isBlank char) (rest : List Char) :
    signs? (blanks ++ rest) = signs? rest := by
  induction blanks with
  | nil => rfl
  | cons first blanks ih =>
    obtain ⟨here, later⟩ := List.forall_mem_cons.mp blank
    rw [List.cons_append, signs?, if_pos here, ih later]

private theorem hexValue?_digitChar {value : Nat} (digit : value < 16) :
    hexValue? (Nat.digitChar value) = some value := by
  have all : ∀ value < 16, hexValue? (Nat.digitChar value) = some value := by decide
  exact all value digit

private theorem escaped?_control {char : Char} (control : char.toNat < 0x20) (rest : List Char) :
    escaped? ('u' :: '0' :: '0' :: hexDigit (char.toNat / 16) :: hexDigit (char.toNat % 16) :: rest) =
      some (char, 5) := by
  have zero : hexValue? '0' = some 0 := rfl
  have high := hexValue?_digitChar (show char.toNat / 16 < 16 by omega)
  have low := hexValue?_digitChar (show char.toNat % 16 < 16 by omega)
  have unit : codeUnit? ('0' :: '0' :: hexDigit (char.toNat / 16) :: hexDigit (char.toNat % 16) :: rest) =
      some char.toNat := by
    simp only [codeUnit?, hexDigit, List.take_succ_cons, List.take_zero, List.mapM_cons, List.mapM_nil, zero,
      high, low, Option.bind_eq_bind, Option.bind_some, Option.pure_def]
    congr 1
    omega
  rw [escaped?, escapedUnit?, unit, Option.bind_some, if_pos (.inl (by omega)), Char.ofNat_toNat]
  rfl

private theorem string?_of_escaped? {char : Char} (name : List Char) {rest : List Char}
    (read : escaped? (name ++ rest) = some (char, name.length)) :
    string? ('\\' :: (name ++ rest)) =
      (string? rest).map fun (text, used) => (char :: text, used + (name.length + 1)) := by
  rw [string?, if_neg (by decide), if_pos rfl, read, Option.bind_some]
  dsimp only
  rw [List.drop_left]
  rfl

/-- A character is read back from what stands for it in a string. -/
private theorem string?_escape (char : Char) (rest : List Char) :
    string? (escape char ++ rest) =
      (string? rest).map fun (text, used) => (char :: text, used + (escape char).length) := by
  unfold escape
  split
  · exact string?_of_escaped? ['"'] rfl
  · exact string?_of_escaped? ['\\'] rfl
  · exact string?_of_escaped? ['b'] rfl
  · exact string?_of_escaped? ['t'] rfl
  · exact string?_of_escaped? ['n'] rfl
  · exact string?_of_escaped? ['f'] rfl
  · exact string?_of_escaped? ['r'] rfl
  next noQuote noBackslash _ _ _ _ _ =>
    split
    next control => exact string?_of_escaped? ['u', '0', '0', _, _] (escaped?_control control rest)
    next plain =>
      rw [List.singleton_append, string?, if_neg noQuote, if_neg noBackslash, if_neg plain]
      rfl

private theorem string?_escaped (text rest : List Char) :
    string? (text.flatMap escape ++ '"' :: rest) = some (text, (text.flatMap escape).length + 1) := by
  induction text with
  | nil =>
    rw [List.flatMap_nil, List.nil_append, string?, if_pos rfl]
    rfl
  | cons char text ih =>
    have length : (text.flatMap escape).length + 1 + (escape char).length =
        (escape char ++ text.flatMap escape).length + 1 := by
      rw [List.length_append]
      omega
    rw [List.flatMap_cons, List.append_assoc, string?_escape, ih, ← length]
    rfl

private theorem signs?_quote (text : String) (rest : List Char) :
    signs? (quote text ++ rest) = (signs? rest).map fun signs => .string text :: signs := by
  have spelled : quote text ++ rest = '"' :: (text.toList.flatMap escape ++ '"' :: rest) := by simp [quote]
  have sign : sign? '"' (text.toList.flatMap escape ++ '"' :: rest) =
      some (.string text, (text.toList.flatMap escape).length + 1) := by
    rw [sign?, if_neg (by decide), mark?, string?_escaped]
    simp
  have behind : (text.toList.flatMap escape ++ '"' :: rest).drop ((text.toList.flatMap escape).length + 1) =
      rest := by
    rw [← List.drop_drop, List.drop_left]
    rfl
  rw [spelled, signs?_of_sign? rfl sign, behind]

private theorem signs?_numeral {text : List Char} {numeral : Numeral} (read : Numeral.read? text = some numeral)
    {rest : List Char} (ends : Halts Numeral.mayHold rest) :
    signs? (text ++ rest) = (signs? rest).map fun signs => .number numeral :: signs := by
  obtain ⟨first, more, rfl, begins, inside⟩ := Numeral.exists_of_read? read
  have run : (more ++ rest).takeWhile Numeral.mayHold = more :=
    takeWhile_run (List.forall_mem_cons.mp inside).2 ends
  have sign : sign? first (more ++ rest) = some (.number numeral, more.length) := by
    rw [sign?, if_pos begins, run]
    dsimp only
    rw [read]
    rfl
  have unblank : isBlank first = false := by
    rw [Bool.eq_false_iff]
    intro blank
    rcases isLayout_iff.mp blank with rfl | rfl | rfl | rfl <;> exact absurd begins (by decide)
  rw [List.cons_append, signs?_of_sign? unblank sign, List.drop_left]

private theorem signs?_null (rest : List Char) :
    signs? ("null".toList ++ rest) = (signs? rest).map fun signs => .null :: signs := by
  have sign : sign? 'n' ('u' :: 'l' :: 'l' :: rest) = some (.null, 3) := rfl
  exact signs?_of_sign? rfl sign

/-- What a layout puts in front of the items on a level and behind a colon. -/
structure Layout where
  gap : Nat → List Char
  behindColon : List Char

mutual

/-- The text of a value in any layout. -/
def written (layout : Layout) (level : Nat) : Json → List Char
  | null => "null".toList
  | natural value => Nat.toDigits 10 value
  | number value => writeNumber value
  | string value => quote value
  | array [] => ['[', ']']
  | array (item :: items) =>
    '[' :: (layout.gap (level + 1) ++ written layout (level + 1) item ++ writtenItems layout level items)
  | object [] => ['\x7b', '\x7d']
  | object ((name, value) :: fields) =>
    '\x7b' :: (layout.gap (level + 1) ++ quote name ++ ':' ::
      (layout.behindColon ++ written layout (level + 1) value ++ writtenFields layout level fields))

def writtenItems (layout : Layout) (level : Nat) : List Json → List Char
  | [] => layout.gap level ++ [']']
  | item :: items =>
    ',' :: (layout.gap (level + 1) ++ written layout (level + 1) item ++ writtenItems layout level items)

def writtenFields (layout : Layout) (level : Nat) : List (String × Json) → List Char
  | [] => layout.gap level ++ ['\x7d']
  | (name, value) :: fields =>
    ',' :: (layout.gap (level + 1) ++ quote name ++ ':' ::
      (layout.behindColon ++ written layout (level + 1) value ++ writtenFields layout level fields))

end

namespace Layout

def compact : Layout := ⟨fun _ => [], []⟩

def pretty : Layout := ⟨newLine, [' ']⟩

end Layout

mutual

private theorem compact_eq_written (level : Nat) (json : Json) : json.compact = written .compact level json := by
  match json with
  | null | natural _ | number _ | string _ | array [] | object [] => simp [Json.compact, written]
  | array (item :: items) =>
    simp [Json.compact, written, compact_eq_written (level + 1) item, compactItems_eq_written level items,
      Layout.compact]
  | object ((name, value) :: fields) =>
    simp [Json.compact, written, compact_eq_written (level + 1) value, compactFields_eq_written level fields,
      Layout.compact]

private theorem compactItems_eq_written (level : Nat) (items : List Json) :
    compactItems items = writtenItems .compact level items := by
  match items with
  | [] => rfl
  | item :: items =>
    simp [compactItems, writtenItems, compact_eq_written (level + 1) item, compactItems_eq_written level items,
      Layout.compact]

private theorem compactFields_eq_written (level : Nat) (fields : List (String × Json)) :
    compactFields fields = writtenFields .compact level fields := by
  match fields with
  | [] => rfl
  | (name, value) :: fields =>
    simp [compactFields, writtenFields, compact_eq_written (level + 1) value,
      compactFields_eq_written level fields, Layout.compact]

end

mutual

private theorem pretty_eq_written (level : Nat) (json : Json) : json.pretty level = written .pretty level json := by
  match json with
  | null | natural _ | number _ | string _ | array [] | object [] => simp [Json.pretty, written]
  | array (item :: items) =>
    simp [Json.pretty, written, pretty_eq_written (level + 1) item, prettyItems_eq_written level items,
      Layout.pretty]
  | object ((name, value) :: fields) =>
    simp [Json.pretty, written, pretty_eq_written (level + 1) value, prettyFields_eq_written level fields,
      Layout.pretty]

private theorem prettyItems_eq_written (level : Nat) (items : List Json) :
    prettyItems level items = writtenItems .pretty level items := by
  match items with
  | [] => rfl
  | item :: items =>
    simp [prettyItems, writtenItems, pretty_eq_written (level + 1) item, prettyItems_eq_written level items,
      Layout.pretty]

private theorem prettyFields_eq_written (level : Nat) (fields : List (String × Json)) :
    prettyFields level fields = writtenFields .pretty level fields := by
  match fields with
  | [] => rfl
  | (name, value) :: fields =>
    simp [prettyFields, writtenFields, pretty_eq_written (level + 1) value, prettyFields_eq_written level fields,
      Layout.pretty]

end

/-- The value of a number. One that is not finite has none, and stands as null. -/
def numberValue (number : Binary64) : Value :=
  if number.isFinite then (Numeral.read? (NumberStyle.json.write number)).elim .null .number else .null

mutual

/-- The value that a document is meant to have. -/
def value : Json → Value
  | null => .null
  | natural value => .number ⟨false, ⟨value, 0⟩⟩
  | number value => numberValue value
  | string value => .string value
  | array items => .array (values items)
  | object fields => .object (fieldValues fields)

def values : List Json → List Value
  | [] => []
  | item :: items => item.value :: values items

def fieldValues : List (String × Json) → List (String × Value)
  | [] => []
  | (name, field) :: fields => (name, field.value) :: fieldValues fields

end

/-- A text has certain signs in front of everything that does not go on with a numeral. -/
def Reads (text : List Char) (signs : List Sign) : Prop :=
  ∀ rest, Halts Numeral.mayHold rest → signs? (text ++ rest) = (signs? rest).map fun later => signs ++ later

private theorem reads_number (number : Binary64) : Reads (writeNumber number) (numberValue number).signs := by
  intro rest ends
  unfold writeNumber numberValue
  split
  next finite =>
    obtain ⟨numeral, read, _⟩ := Numeral.exists_read?_write .json rfl finite
    rw [read]
    exact signs?_numeral read ends
  next => exact signs?_null rest

/-- A layout that puts blanks between signs and nothing else. -/
structure Layout.IsBlank (layout : Layout) : Prop where
  gap : ∀ level, ∀ char ∈ layout.gap level, Json.isBlank char
  behindColon : ∀ char ∈ layout.behindColon, Json.isBlank char

private theorem Layout.compact_isBlank : Layout.compact.IsBlank := ⟨nofun, nofun⟩

private theorem Layout.pretty_isBlank : Layout.pretty.IsBlank := by
  refine ⟨?_, fun char member => List.mem_singleton.mp member ▸ rfl⟩
  intro level char member
  rcases List.mem_cons.mp member with rfl | space
  · rfl
  · rw [List.eq_of_mem_replicate space]
    rfl

private theorem not_mayHold_of_isBlank {char : Char} (blank : isBlank char) : Numeral.mayHold char = false := by
  rcases isLayout_iff.mp blank with rfl | rfl | rfl | rfl <;> rfl

section Layouts

variable {layout : Layout} (blank : layout.IsBlank)

include blank

private theorem halts_gap (level : Nat) {rest : List Char} (ends : Halts Numeral.mayHold rest) :
    Halts Numeral.mayHold (layout.gap level ++ rest) := by
  refine Halts.append ?_ ends
  intro char first
  exact not_mayHold_of_isBlank (blank.gap level char (List.mem_of_head? first))

private theorem halts_writtenItems (level : Nat) (items : List Json) (rest : List Char) :
    Halts Numeral.mayHold (writtenItems layout level items ++ rest) := by
  cases items with
  | nil =>
    rw [writtenItems, List.append_assoc]
    exact halts_gap blank level (halts_cons.mpr rfl)
  | cons item items =>
    rw [writtenItems]
    exact halts_cons.mpr rfl

private theorem halts_writtenFields (level : Nat) (fields : List (String × Json)) (rest : List Char) :
    Halts Numeral.mayHold (writtenFields layout level fields ++ rest) := by
  cases fields with
  | nil =>
    rw [writtenFields, List.append_assoc]
    exact halts_gap blank level (halts_cons.mpr rfl)
  | cons field fields =>
    rw [writtenFields]
    exact halts_cons.mpr rfl

mutual

private theorem reads_written (level : Nat) (json : Json) : Reads (written layout level json) json.value.signs := by
  intro rest ends
  match json with
  | null => exact signs?_null rest
  | natural value => exact signs?_numeral (Numeral.read?_toDigits value) ends
  | number value => exact reads_number value rest ends
  | string value => exact signs?_quote value rest
  | array [] =>
    simp only [written, List.cons_append, List.nil_append]
    rw [signs?_char .openArray rfl, signs?_char .closeArray rfl]
    simp [value, values, Value.signs, Function.comp_def]
  | array (item :: items) =>
    simp only [written, List.cons_append, List.append_assoc]
    rw [signs?_char .openArray rfl, signs?_blanks (blank.gap (level + 1)),
      reads_written (level + 1) item _ (halts_writtenItems blank level items rest),
      reads_writtenItems level items rest]
    simp [value, values, Value.signs, Function.comp_def]
  | object [] =>
    simp only [written, List.cons_append, List.nil_append]
    rw [signs?_char .openObject rfl, signs?_char .closeObject rfl]
    simp [value, fieldValues, Value.signs, Function.comp_def]
  | object ((name, field) :: fields) =>
    simp only [written, List.cons_append, List.append_assoc]
    rw [signs?_char .openObject rfl, signs?_blanks (blank.gap (level + 1)), signs?_quote,
      signs?_char .colon rfl, signs?_blanks blank.behindColon,
      reads_written (level + 1) field _ (halts_writtenFields blank level fields rest),
      reads_writtenFields level fields rest]
    simp [value, fieldValues, Value.signs, Function.comp_def]

private theorem reads_writtenItems (level : Nat) (items : List Json) (rest : List Char) :
    signs? (writtenItems layout level items ++ rest) =
      (signs? rest).map fun later => Value.itemSigns (values items) ++ later := by
  match items with
  | [] =>
    simp only [writtenItems, List.append_assoc, List.singleton_append]
    rw [signs?_blanks (blank.gap level), signs?_char .closeArray rfl]
    simp [values, Value.itemSigns]
  | item :: items =>
    simp only [writtenItems, List.cons_append, List.append_assoc]
    rw [signs?_char .comma rfl, signs?_blanks (blank.gap (level + 1)),
      reads_written (level + 1) item _ (halts_writtenItems blank level items rest),
      reads_writtenItems level items rest]
    simp [values, Value.itemSigns, Function.comp_def]

private theorem reads_writtenFields (level : Nat) (fields : List (String × Json)) (rest : List Char) :
    signs? (writtenFields layout level fields ++ rest) =
      (signs? rest).map fun later => Value.fieldSigns (fieldValues fields) ++ later := by
  match fields with
  | [] =>
    simp only [writtenFields, List.append_assoc, List.singleton_append]
    rw [signs?_blanks (blank.gap level), signs?_char .closeObject rfl]
    simp [fieldValues, Value.fieldSigns]
  | (name, field) :: fields =>
    simp only [writtenFields, List.cons_append, List.append_assoc]
    rw [signs?_char .comma rfl, signs?_blanks (blank.gap (level + 1)), signs?_quote,
      signs?_char .colon rfl, signs?_blanks blank.behindColon,
      reads_written (level + 1) field _ (halts_writtenFields blank level fields rest),
      reads_writtenFields level fields rest]
    simp [fieldValues, Value.fieldSigns, Function.comp_def]

end

end Layouts

/-- Both texts of a document are JSON for its value. -/
theorem denotes_compact (json : Json) : Denotes json.toCompact json.value := by
  have read := reads_written Layout.compact_isBlank 0 json [] halts_nil
  rw [← compact_eq_written, List.append_nil] at read
  rw [Denotes, toCompact, String.toList_ofList, read]
  simp [signs?]

theorem denotes_pretty (json : Json) : Denotes json.toPretty json.value := by
  have read := reads_written Layout.pretty_isBlank 0 json [] halts_nil
  rw [← pretty_eq_written, List.append_nil] at read
  rw [Denotes, toPretty, String.toList_ofList, read]
  simp [signs?]

end LoxLex.Json
