import LoxLex.Proofs.Findings

/-! Two texts joined by a line feed are scanned as if each stood alone, unless a string is open at the
end of the first. -/

namespace LoxLex
open Text

private theorem closed_of_errors {firstLine : Nat} {source : String} {piece : Piece}
    (closed : ∀ error ∈ (scan firstLine source).errors, error.fault ≠ .unterminatedString)
    (member : piece ∈ Piece.cut source.toList) : piece.category ≠ .unterminated := by
  intro unterminated
  obtain ⟨here, found⟩ := Piece.finding_mem_findings member ⟨0, firstLine⟩
  have mistake := found _ (by rw [Piece.finding?, unterminated])
  rw [scan_eq] at closed
  exact closed _ (Finding.mem_errors.mpr mistake) rfl

private theorem cut_join {first : List Char} (second : List Char)
    (closed : ∀ piece ∈ Piece.cut first, piece.category ≠ .unterminated) :
    Piece.cut (first ++ '\n' :: second) = Piece.cut first ++ ⟨.blank, ['\n']⟩ :: Piece.cut second := by
  have feed : Piece.Divided (⟨.blank, ['\n']⟩ :: Piece.cut second) :=
    .cons (Piece.blank_fits rfl _) (Piece.divided_cut second)
  have joined := (Piece.divided_cut first).append feed fun piece member =>
    Piece.stops_line_feed (closed piece member)
  have same := Piece.cut_flatMap joined
  simpa [List.flatMap_append, Piece.cut_text] using same

private theorem findings_join {first : List Char} (second : List Char) (place : Place)
    (closed : ∀ piece ∈ Piece.cut first, piece.category ≠ .unterminated) :
    findings place (first ++ '\n' :: second) =
      findings place first ++ findings ((place.after first).after ['\n']) second := by
  rw [findings, cut_join second closed, Piece.findings_append, Piece.cut_text]
  rfl

private theorem scan_join (firstLine : Nat) (first second : String)
    (closed : ∀ error ∈ (scan firstLine first).errors, error.fault ≠ .unterminatedString) :
    let front := scan firstLine first
    let behind := scan (firstLine + lineFeeds first.toList + 1) second
    let distance := first.utf8ByteSize + 1
    scan firstLine (first ++ "\n" ++ second) =
      ⟨front.tokens.dropLast ++ behind.tokens.map (fun token => token.moved distance 0),
        front.errors ++ behind.errors.map (fun error => error.moved distance 0)⟩ := by
  intro front behind distance
  have place : (Place.after ⟨0, firstLine⟩ first.toList).after ['\n'] =
      Place.moved ⟨0, firstLine + lineFeeds first.toList + 1⟩ distance 0 := by
    rw [Place.after_source]
    simp [Place.after, Place.moved, lineFeeds, distance]
    decide
  have spelled : (first ++ "\n" ++ second).toList = first.toList ++ ['\n'] ++ second.toList := by simp
  have found := findings_join second.toList ⟨0, firstLine⟩ fun _ => closed_of_errors closed
  rw [place, findings_moved, ← List.singleton_append, ← List.append_assoc, ← spelled] at found
  have stop : Place.after ⟨0, firstLine⟩ (first ++ "\n" ++ second).toList =
      (Place.after ⟨0, firstLine + lineFeeds first.toList + 1⟩ second.toList).moved distance 0 := by
    rw [spelled, Place.after_append, Place.after_append, place, Place.after_moved]
  simp only [front, behind, scan_eq, found, stop, List.filterMap_append, Finding.tokens_moved,
    Finding.errors_moved, List.dropLast_concat, List.map_append, List.append_assoc]
  rfl

/-- Each line can be scanned alone: its lexer counts on from the line before, and what it finds is
moved behind it. -/
theorem lex_lines_joined (lexer : Lexer) (first second : String)
    (closed : ∀ error ∈ (lexer.lex first).errors, error.fault ≠ .unterminatedString) :
    let front := lexer.lex first
    let behind := (lexer.withFirstLine (lexer.firstLine + lineFeeds first.toList + 1)).lex second
    let distance := first.utf8ByteSize + 1
    lexer.lex (first ++ "\n" ++ second) =
      ⟨front.tokens.dropLast ++ behind.tokens.map (fun token => token.moved distance 0),
        front.errors ++ behind.errors.map (fun error => error.moved distance 0)⟩ := by
  have counted : (lexer.withFirstLine (lexer.firstLine + lineFeeds first.toList + 1)).firstLine =
      lexer.firstLine + lineFeeds first.toList + 1 := by
    apply Nat.max_eq_left
    omega
  simp only [Lexer.lex, counted]
  exact scan_join lexer.firstLine first second closed

/-- A comment of two bytes a character ends with its line, and a string may stay open in the second. -/
theorem lex_lines_joined_comment :
    let lexer : Lexer := { firstLine := 4 }
    let first := "x@\n/ // é\""
    let second := "\ny = \"é"
    (∀ error ∈ (lexer.lex first).errors, error.fault ≠ .unterminatedString) ∧
      lexer.lex (first ++ "\n" ++ second) =
        ⟨(lexer.lex first).tokens.dropLast ++
            ((lexer.withFirstLine 6).lex second).tokens.map (fun token => token.moved 12 0),
          (lexer.lex first).errors ++
            ((lexer.withFirstLine 6).lex second).errors.map (fun error => error.moved 12 0)⟩ ∧
      lexer.lex (first ++ "\n" ++ second) =
        ⟨[⟨.identifier, "x", .none, 4, ⟨0, 1⟩⟩, ⟨.symbol .slash, "/", .none, 5, ⟨3, 4⟩⟩,
            ⟨.identifier, "y", .none, 7, ⟨13, 14⟩⟩, ⟨.symbol .equal, "=", .none, 7, ⟨15, 16⟩⟩, .eof 7 20],
          [⟨.unexpectedCharacter, 4, 1, 1⟩, ⟨.unterminatedString, 7, 17, 3⟩]⟩ := by
  intro lexer first second
  have closed : ∀ error ∈ (lexer.lex first).errors, error.fault ≠ .unterminatedString := by decide +kernel
  have line : lexer.firstLine + lineFeeds first.toList + 1 = 6 := by decide +kernel
  have distance : first.utf8ByteSize + 1 = 12 := by decide +kernel
  have joined := lex_lines_joined lexer first second closed
  rw [line, distance] at joined
  refine ⟨closed, joined, ?_⟩
  rw [joined]
  decide +kernel

end LoxLex
