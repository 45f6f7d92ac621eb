import LoxLex.Json.Token
import LoxLex.Proofs.JsonReading
import LoxLex.Proofs.Splice

/-! Tokens read back from their JSON. Nothing is lost but numbers that are not finite, and those are known
from their lexemes. -/

namespace LoxLex

theorem Kind.ofName?_name (kind : Kind) : ofName? kind.name = some kind := by
  cases kind with
  | symbol sign => cases sign <;> decide
  | keyword reserved => cases reserved <;> decide
  | identifier | string | number | eof => decide

namespace Json.Value

def field? (name : String) : Value → Option Value
  | object fields => fields.lookup name
  | _ => none

def text? : Value → Option String
  | string text => some text
  | _ => none

def natural? : Value → Option Nat
  | number numeral => numeral.toNat?
  | _ => none

/-- A finite number, or nothing for one that was not finite. -/
def number? : Value → Option (Option Binary64)
  | number numeral => some (some numeral.toBinary64)
  | null => some none
  | _ => none

end Json.Value

open Json (Value)

/-- What JSON tells of a token. -/
structure TokenRecord where
  kind : Kind
  lexeme : String
  /-- None where the literal is a number that is not finite. -/
  literal? : Option Literal
  line : Nat
  span : Span
  deriving DecidableEq

def Literal.told? : Literal → Option Literal
  | number value => if value.isFinite then some (number value) else Option.none
  | other => some other

def Token.record (token : Token) : TokenRecord :=
  ⟨token.kind, token.lexeme, token.literal.told?, token.line, token.span⟩

def Literal.ofValue? (value : Value) : Option (Option Literal) :=
  ((value.field? "type").bind Value.text?).bind fun type =>
    if type = "None" then some (some none)
    else if type = "Str" then ((value.field? "value").bind Value.text?).map fun content => some (text content)
    else if type = "Number" then
      ((value.field? "value").bind Value.number?).map fun content => content.map number
    else Option.none

def Span.ofValue? (value : Value) : Option Span := do
  let start ← (value.field? "start").bind Value.natural?
  let stop ← (value.field? "end").bind Value.natural?
  return ⟨start, stop⟩

def TokenRecord.ofValue? (value : Value) : Option TokenRecord := do
  let kind ← ((value.field? "kind").bind Value.text?).bind Kind.ofName?
  let lexeme ← (value.field? "lexeme").bind Value.text?
  let literal ← (value.field? "literal").bind Literal.ofValue?
  let line ← (value.field? "line").bind Value.natural?
  let span ← (value.field? "span").bind Span.ofValue?
  return ⟨kind, lexeme, literal, line, span⟩

private theorem number?_numberValue {number : Binary64} (finite : number.isFinite) :
    (Json.numberValue number).number? = some (some number) := by
  obtain ⟨numeral, read, same⟩ := Numeral.exists_read?_write .json rfl finite
  rw [Json.numberValue, if_pos finite, read]
  exact congrArg (some ∘ some) same

private theorem Literal.ofValue?_toJson (literal : Literal) : ofValue? literal.toJson.value = some literal.told? := by
  cases literal with
  | none | text content => rfl
  | number value =>
    by_cases finite : value.isFinite
    · rw [toJson, told?, if_pos finite, if_pos finite]
      exact congrArg (Option.map fun content : Option Binary64 => content.map number)
        (number?_numberValue finite)
    · rw [toJson, told?, if_neg finite, if_neg finite]
      rfl

private theorem TokenRecord.ofValue?_toJson (token : Token) : ofValue? token.toJson.value = some token.record := by
  have kind : Kind.ofName? token.kind.name = some token.kind := Kind.ofName?_name token.kind
  have literal := Literal.ofValue?_toJson token.literal
  calc
    ofValue? token.toJson.value
        = (Kind.ofName? token.kind.name).bind fun kind =>
            (Literal.ofValue? token.literal.toJson.value).bind fun literal =>
              some ⟨kind, token.lexeme, literal, token.line, token.span⟩ := rfl
    _ = some token.record := by
      rw [kind, literal]
      rfl

private theorem mapM_ofValue? (tokens : List Token) :
    (Json.values (tokens.map Token.toJson)).mapM TokenRecord.ofValue? = some (tokens.map Token.record) := by
  induction tokens with
  | nil => rfl
  | cons token tokens ih =>
    rw [List.map_cons, Json.values, List.mapM_cons, TokenRecord.ofValue?_toJson, ih]
    rfl

/-- Either text of a list of tokens as JSON. -/
def IsJsonOf (tokens : List Token) (text : String) : Prop :=
  text = (Json.ofTokens tokens).toCompact ∨ text = (Json.ofTokens tokens).toPretty

private theorem IsJsonOf.denotes_iff {tokens : List Token} {text : String} (written : IsJsonOf tokens text)
    (value : Value) : Json.Denotes text value ↔ value = .array (Json.values (tokens.map Token.toJson)) := by
  have denotes : Json.Denotes text (.array (Json.values (tokens.map Token.toJson))) := by
    rcases written with rfl | rfl
    · exact Json.denotes_compact (Json.ofTokens tokens)
    · exact Json.denotes_pretty (Json.ofTokens tokens)
  constructor
  · intro other
    exact other.unique denotes
  · rintro rfl
    exact denotes

/-- Equal texts tell the same of each token, whichever layout they are in. -/
private theorem IsJsonOf.records_eq {tokens others : List Token} {text : String} (first : IsJsonOf tokens text)
    (second : IsJsonOf others text) : tokens.map Token.record = others.map Token.record := by
  have same := (second.denotes_iff _).mp ((first.denotes_iff _).mpr rfl)
  have items := Value.array.inj same
  have read := mapM_ofValue? others
  rw [← items, mapM_ofValue? tokens] at read
  exact Option.some.inj read

private theorem literal_of_mem_scan {firstLine : Nat} {source : String} {token : Token}
    (member : token ∈ (scan firstLine source).tokens) :
    token.literal = Piece.literal token.kind token.lexeme.toList := by
  rw [scan_eq] at member
  rcases List.mem_append.mp member with found | last
  · obtain ⟨before, piece, _, _, _, read⟩ := exists_piece_of_finding (Finding.mem_tokens.mp found)
    cases Piece.eq_piece_of_finding? read
    exact congrArg Token.literal (Finding.token.inj (Option.some.inj read)).symm
  · cases List.mem_singleton.mp last
    rfl

/-- The token of a scan that a record tells of. -/
def TokenRecord.token (record : TokenRecord) : Token :=
  ⟨record.kind, record.lexeme, Piece.literal record.kind record.lexeme.toList, record.line, record.span⟩

private theorem map_token_record_scan (firstLine : Nat) (source : String) :
    ((scan firstLine source).tokens.map Token.record).map TokenRecord.token = (scan firstLine source).tokens := by
  rw [List.map_map]
  refine (List.map_congr_left ?_).trans (List.map_id _)
  intro token member
  exact congrArg (fun literal => { token with literal }) (literal_of_mem_scan member).symm

/-- The JSON of a scan, compact or indented, denotes one value, a list with an item for each token, and
each item tells all of its token but the value of an infinite number. No two scans with other tokens
have a text in common. -/
theorem scan_json_faithful :
    (∀ (firstLine : Nat) (source : String), ∃ items : List Value,
      (∀ text, IsJsonOf (scan firstLine source).tokens text →
        ∀ value, Json.Denotes text value ↔ value = .array items) ∧
      items.mapM TokenRecord.ofValue? = some ((scan firstLine source).tokens.map Token.record)) ∧
    ∀ (firstLine otherLine : Nat) (source other text : String),
      IsJsonOf (scan firstLine source).tokens text → IsJsonOf (scan otherLine other).tokens text →
      (scan firstLine source).tokens = (scan otherLine other).tokens := by
  refine ⟨?_, ?_⟩
  · intro firstLine source
    exact ⟨_, fun text written => written.denotes_iff, mapM_ofValue? _⟩
  · intro firstLine otherLine source other text first second
    have records := first.records_eq second
    rw [← map_token_record_scan firstLine source, records, map_token_record_scan]

/-- Two sources with the same tokens, one with an error as well, have their compact text in common. -/
theorem scan_json_faithful_fraction :
    let text :=
      "[\x7b\"kind\":\"NUMBER\",\"lexeme\":\"0.50\",\"literal\":\x7b\"type\":\"Number\",\"value\":0.5\x7d," ++
        "\"line\":7,\"span\":\x7b\"start\":1,\"end\":5\x7d\x7d," ++
        "\x7b\"kind\":\"EOF\",\"lexeme\":\"\",\"literal\":\x7b\"type\":\"None\"\x7d," ++
        "\"line\":7,\"span\":\x7b\"start\":5,\"end\":5\x7d\x7d]"
    (IsJsonOf (scan 7 "@0.50").tokens text ∧ IsJsonOf (scan 7 " 0.50").tokens text) ∧
      (scan 7 "@0.50").tokens = (scan 7 " 0.50").tokens := by
  intro text
  have first : IsJsonOf (scan 7 "@0.50").tokens text := .inl (by decide +kernel)
  have second : IsJsonOf (scan 7 " 0.50").tokens text := .inl (by decide +kernel)
  exact ⟨⟨first, second⟩, scan_json_faithful.2 7 7 "@0.50" " 0.50" text first second⟩

end LoxLex
