import LoxLex.Proofs.CorrectRounding

/-! The numbers of a source. Whatever its digits, a number is read as what its lexeme rounds to, so it is
a number without a sign, and a scan is equal to itself. -/

namespace LoxLex

/-- The rational number that digits before and behind a point stand for. -/
def digitsValue (whole fraction : List Char) : ℚ :=
  Nat.ofDigitChars 10 whole 0 + Nat.ofDigitChars 10 fraction 0 / 10 ^ fraction.length

private theorem Decimal.value_digits (whole fraction : List Char) :
    value ⟨Nat.ofDigitChars 10 (whole ++ fraction) 0, -fraction.length⟩ = digitsValue whole fraction := by
  have joined : Nat.ofDigitChars 10 (whole ++ fraction) 0 =
      10 ^ fraction.length * Nat.ofDigitChars 10 whole 0 + Nat.ofDigitChars 10 fraction 0 := by
    rw [Nat.ofDigitChars_append, Nat.ofDigitChars_eq_ofDigitChars_zero]
  have power : (10 : ℚ) ^ fraction.length ≠ 0 := pow_ne_zero _ (by norm_num)
  rw [value, digitsValue, joined, zpow_neg, zpow_natCast]
  push_cast
  field_simp

private theorem Lexeme.literal_same (lexeme : Lexeme) : lexeme.literal.same lexeme.literal := by
  cases lexeme with
  | symbol | keyword | identifier => rfl
  | string value => exact decide_eq_true rfl
  | number whole fraction =>
    have rounds := Decimal.rounds_toBinary64 ⟨Nat.ofDigitChars 10 (whole ++ fraction) 0, -fraction.length⟩
    simp [literal, Literal.same, Binary64.same, rounds.isNumber]

private theorem Scan.same_self {scan : Scan} (equal : ∀ token ∈ scan.tokens, token.literal.same token.literal) :
    scan.same scan := by
  have pairs : scan.tokens.zip scan.tokens = scan.tokens.map fun token => (token, token) := by
    rw [List.zip_eq_zipWith, List.zipWith_self]
  have tokens : ∀ token ∈ scan.tokens, token.same token := by
    intro token member
    simp [Token.same, equal token member]
  simp only [same, pairs, List.all_map, decide_true, Bool.true_and, Bool.and_true]
  exact List.all_eq_true.mpr tokens

/-- A number is read, by the reader of numerals and not by its default, as what its lexeme rounds to;
and a scan is equal to itself. -/
theorem scan_numbers_exact (firstLine : Nat) (source : String) :
    (∀ token ∈ (scan firstLine source).tokens, token.kind = .number →
      ∃ whole fraction number, token.lexeme.toList = Numeral.mantissa whole fraction ∧ whole ≠ [] ∧
        (∀ char ∈ whole ++ fraction, char.isDigit) ∧
        Binary64.ofNumeral? token.lexeme.toList = some number ∧ token.literal = .number number ∧
        number.Rounds false (digitsValue whole fraction)) ∧
      (scan firstLine source).same (scan firstLine source) := by
  constructor
  · intro token member kind
    rcases exists_lexeme_of_mem_tokens member with ⟨lexeme, place, rfl⟩ | ⟨line, offset, rfl⟩
    · cases lexeme with
      | number whole fraction nonempty digits =>
        have text : (Lexeme.token (.number whole fraction nonempty digits) place).lexeme.toList =
            Numeral.mantissa whole fraction := String.toList_ofList
        refine ⟨whole, fraction, _, text, nonempty, digits, ?_, rfl, ?_⟩
        · rw [text, Binary64.ofNumeral?, Numeral.mantissa, Decimal.ofNumeral?_written nonempty digits]
          rfl
        · rw [← Decimal.value_digits]
          exact Decimal.rounds_toBinary64 _
      | _ => cases kind
    · cases kind
  · apply Scan.same_self
    intro token member
    rcases exists_lexeme_of_mem_tokens member with ⟨lexeme, place, rfl⟩ | ⟨line, offset, rfl⟩
    · exact lexeme.literal_same
    · rfl

/-- The last of many digits takes a number off the middle between two others. -/
theorem scan_numbers_exact_distant :
    let source := "9007199254740993.0000000000000000000001"
    let token : Token := ⟨.number, source, .number ⟨0x4340000000000001⟩, 1, ⟨0, 39⟩⟩
    token ∈ (scan 1 source).tokens ∧
      ∃ whole fraction number, token.lexeme.toList = Numeral.mantissa whole fraction ∧ whole ≠ [] ∧
        (∀ char ∈ whole ++ fraction, char.isDigit) ∧
        Binary64.ofNumeral? token.lexeme.toList = some number ∧ token.literal = .number number ∧
        number.Rounds false (digitsValue whole fraction) := by
  intro source token
  have member : token ∈ (scan 1 source).tokens := by decide +kernel
  exact ⟨member, (scan_numbers_exact 1 source).1 token member rfl⟩

end LoxLex
