import LoxLex.Json.Value
import LoxLex.Token.Basic

/-! Tokens as JSON objects. -/

namespace LoxLex

def Kind.toJson (kind : Kind) : Json := .string kind.name

/-- The name of the variant, and its value where it has one. -/
def Literal.toJson : Literal → Json
  | .none => .object [("type", .string "None")]
  | .text value => .object [("type", .string "Str"), ("value", .string value)]
  | .number value =>
    .object [("type", .string "Number"), ("value", if value.isFinite then .number value else .null)]

def Span.toJson (span : Span) : Json :=
  .object [("start", .natural span.start), ("end", .natural span.stop)]

def Token.toJson (token : Token) : Json :=
  .object [("kind", token.kind.toJson), ("lexeme", .string token.lexeme),
    ("literal", token.literal.toJson), ("line", .natural token.line), ("span", token.span.toJson)]

def Json.ofTokens (tokens : List Token) : Json := .array (tokens.map Token.toJson)

end LoxLex
