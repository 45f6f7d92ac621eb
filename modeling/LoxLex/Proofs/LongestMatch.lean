import LoxLex.Proofs.Findings

/-! Every token is the longest lexeme at its place, whatever text follows it. -/

namespace LoxLex
open Text

/-- A token is written as a lexeme of its kind and has its value, and nothing that is a lexeme of any
kind or a comment begins at the same place and ends later. -/
def Token.IsLongest (token : Token) (source : List Char) : Prop :=
  ∃ (lexeme : Lexeme) (before rest : List Char),
    splitAt? token.span.start source = some (before, rest) ∧
    slice? token.span.start token.span.stop source = some lexeme.text ∧
    token.kind = lexeme.kind ∧ token.lexeme = .ofList lexeme.text ∧ token.literal = lexeme.literal ∧
    ∀ longer, longer <+: rest → lexeme.text.length < longer.length →
      (∀ other : Lexeme, other.text ≠ longer) ∧ ¬ IsComment longer

private theorem Lexeme.token_isLongest (lexeme : Lexeme) {place : Place} {before after : List Char}
    (placed : place.offset = byteLength before)
    (fits : Piece.Fits ⟨.token lexeme.kind, lexeme.text⟩ after) :
    (lexeme.token place).IsLongest (before ++ (lexeme.text ++ after)) := by
  refine ⟨lexeme, before, lexeme.text ++ after, ?_, ?_, rfl, rfl, rfl, ?_⟩
  · simp only [token, placed, splitAt?_append]
  · simp only [token, Place.after, placed, slice?_append]
  · intro longer within more
    refine ⟨?_, ?_⟩
    · intro other same
      subst same
      have bounded := fits.longest (.lexeme other) within
      exact absurd bounded (by simpa using more)
    · intro comment
      have bounded := fits.longest (.comment comment) within
      exact absurd bounded (by simpa using more)

theorem scan_longest_match (firstLine : Nat) (source : String) (token : Token)
    (member : token ∈ (scan firstLine source).tokens) (proper : token.kind ≠ .eof) :
    token.IsLongest source.toList := by
  obtain ⟨before, piece, after, same, fits, found⟩ :=
    exists_piece_of_finding (mem_findings_of_mem_tokens member proper)
  obtain ⟨lexeme, rfl, rfl⟩ := Piece.exists_lexeme_of_token fits.shape found
  rw [same]
  exact lexeme.token_isLongest (by simp [Place.after]) fits

/-- Behind a character of two bytes, the point of a call does not belong to the number before it. -/
theorem scan_longest_match_number :
    let number : Token := ⟨.number, "12.5", .number ⟨0x4029000000000000⟩, 4, ⟨3, 7⟩⟩
    number ∈ (scan 3 "é\n12.5.x").tokens ∧ number.kind ≠ .eof ∧
      number.IsLongest "é\n12.5.x".toList := by
  intro number
  have member : number ∈ (scan 3 "é\n12.5.x").tokens := by decide +kernel
  have proper : number.kind ≠ .eof := by decide
  exact ⟨member, proper, scan_longest_match 3 "é\n12.5.x" number member proper⟩

end LoxLex
