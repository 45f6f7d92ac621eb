import LoxLex.Proofs.Findings

/-! The findings of a source together with the token at its end, as one list. A change of the source
that changes this list item by item changes the lists of the scan in the same way. -/

namespace LoxLex
open Text

namespace Piece

/-- What pieces are, with the token at their end. -/
def findingsToEnd (place : Place) (pieces : List Piece) : List Finding :=
  let stop := place.after (pieces.flatMap text)
  findings place pieces ++ [.token (.eof stop.line stop.offset)]

theorem findingsToEnd_append (place : Place) (front back : List Piece) :
    findingsToEnd place (front ++ back) =
      findings place front ++ findingsToEnd (place.after (front.flatMap text)) back := by
  simp [findingsToEnd, findings_append, Place.after_append]

theorem findingsToEnd_cons (place : Place) (piece : Piece) (pieces : List Piece) :
    findingsToEnd place (piece :: pieces) =
      (piece.finding? place).toList ++ findingsToEnd (place.after piece.text) pieces := by
  simp [findingsToEnd, findings, Place.after_append]

theorem findingsToEnd_concat (place : Place) (front : List Piece) (last : Piece) :
    let here := place.after (front.flatMap text)
    let stop := here.after last.text
    findingsToEnd place (front ++ [last]) =
      findings place front ++ ((last.finding? here).toList ++ [.token (.eof stop.line stop.offset)]) := by
  intro here stop
  rw [findingsToEnd_append, findingsToEnd_cons]
  rfl

theorem findingsToEnd_moved (place : Place) (bytes lines : Nat) (pieces : List Piece) :
    findingsToEnd (place.moved bytes lines) pieces =
      (findingsToEnd place pieces).map (Finding.moved bytes lines) := by
  rw [findingsToEnd, findingsToEnd, findings_moved, Place.after_moved, List.map_append]
  rfl

end Piece

theorem scan_eq_findingsToEnd (firstLine : Nat) (source : String) :
    scan firstLine source =
      let found := Piece.findingsToEnd ⟨0, firstLine⟩ (Piece.cut source.toList)
      ⟨found.filterMap Finding.token?, found.filterMap Finding.error?⟩ := by
  rw [scan_eq]
  simp [Piece.findingsToEnd, findings, Piece.cut_text]

/-- A change of all findings is a change of both lists. -/
theorem scan_map {firstLine : Nat} {source other : String} {onToken : Token → Token}
    {onError : LexError → LexError}
    (changed : Piece.findingsToEnd ⟨0, firstLine⟩ (Piece.cut other.toList) =
      (Piece.findingsToEnd ⟨0, firstLine⟩ (Piece.cut source.toList)).map (Finding.map onToken onError)) :
    scan firstLine other =
      ⟨(scan firstLine source).tokens.map onToken, (scan firstLine source).errors.map onError⟩ := by
  rw [scan_eq_findingsToEnd, scan_eq_findingsToEnd]
  simp only [changed, Finding.tokens_map, Finding.errors_map]

end LoxLex
