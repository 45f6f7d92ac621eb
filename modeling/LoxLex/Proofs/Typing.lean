import LoxLex.Command.Session
import Mathlib.Data.List.TakeWhile

/-! Lines of input, and what the reader of lines makes of them. All that is asked of the reader is that it
keeps a line without backspaces, less its end. One that applies backspaces does so. -/

namespace LoxLex.Command
open Text

/-- The lines of some bytes: a line feed ends each but the last, which may be left open. -/
inductive AreLines : List UInt8 → List (List UInt8) → Prop
  | nil : AreLines [] []
  | unended {line : List UInt8} (filled : line ≠ []) (inside : 0x0A ∉ line) : AreLines line [line]
  | cons {line rest : List UInt8} {lines : List (List UInt8)} (inside : 0x0A ∉ line)
      (later : AreLines rest lines) : AreLines (line ++ 0x0A :: rest) ((line ++ [0x0A]) :: lines)

namespace Line

theorem areLines_split (input : List UInt8) : AreLines input (split input) := by
  fun_induction split input with
  | case1 input found blank =>
    rw [List.isEmpty_iff.mp blank]
    exact .nil
  | case2 input found filled =>
    refine .unended (fun nothing => filled (List.isEmpty_iff.mpr nothing)) fun member => ?_
    simpa using List.dropWhile_eq_nil_iff.mp found 0x0A member
  | case3 input feed rest found shorter ih =>
    obtain rfl : feed = 0x0A := by
      have first := List.head?_dropWhile_not (· ≠ 0x0A) input
      rw [found] at first
      simpa using first
    have inside : 0x0A ∉ input.takeWhile (· ≠ 0x0A) := fun member => by
      simpa using List.mem_takeWhile_imp member
    have whole := List.takeWhile_append_dropWhile (l := input) (p := (· ≠ 0x0A))
    rw [found] at whole
    have lines := AreLines.cons inside ih
    rwa [whole] at lines

end Line

/-- A reader of lines that changes nothing of a line without backspaces but takes its end. -/
def KeepsPlain (edit : List Char → Except String (List Char)) : Prop :=
  ∀ text, backspace ∉ text → edit text = .ok (dropEnd text)

private theorem dropEnd_begins (text : List Char) : dropEnd text <+: text := by
  have front (last : List Char) {rest : List Char} (found : text.reverse = last ++ rest) : rest.reverse <+: text := by
    have ends : rest <:+ text.reverse := ⟨last, found.symm⟩
    simpa using List.reverse_prefix.mpr ends
  unfold dropEnd
  split
  case h_1 rest found => exact front ['\n', '\r'] found
  case h_2 rest found => exact front ['\n'] found
  case h_3 => exact List.prefix_rfl

theorem editLine_keepsPlain : KeepsPlain editLine := by
  intro text absent
  have apart : backspace ∉ dropEnd text := fun member => absent ((dropEnd_begins text).subset member)
  rw [editLine, applyBackspaces?_of_not_mem apart]

/-- The 257 bytes of a letter with many accents are counted as one, which cuts the last of them. -/
example : editLine ('a' :: List.replicate 128 '\u0301' ++ [backspace, '\n']) = .error "" := by
  decide +kernel

/-- What is handed over for a line: it is unreadable if it is no text, and its text without its end if there is
no backspace in it. -/
structure HandedOver (bytes : List UInt8) (line : Line) : Prop where
  unreadable : line = .unreadable ↔ String.fromUTF8? ⟨bytes.toArray⟩ = none
  plain : ∀ text, String.fromUTF8? ⟨bytes.toArray⟩ = some text → backspace ∉ text.toList →
    line = .text (.ofList (dropEnd text.toList))

theorem Line.handedOver_ofBytes {edit : List Char → Except String (List Char)} (keeps : KeepsPlain edit)
    (bytes : List UInt8) : HandedOver bytes (ofBytes edit bytes) := by
  unfold ofBytes decode
  cases found : String.fromUTF8? ⟨bytes.toArray⟩ with
  | none => exact ⟨by simp [found], fun text same => by simp [found] at same⟩
  | some content =>
    refine ⟨?_, ?_⟩
    · cases edited : edit content.toList <;> simp [found, edited]
    · rintro text same absent
      obtain rfl : content = text := by simpa [found] using same
      simp [keeps _ absent]

end LoxLex.Command
