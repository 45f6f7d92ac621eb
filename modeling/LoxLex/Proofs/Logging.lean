import LoxLex.Proofs.Reporting
import LoxLex.Proofs.Walking

/-! A pass over a source tells of its errors in four ways: to the sink it was given, to its log, in the count
that closes the log and in the result. All four are the errors of the scan, in their order. -/

namespace LoxLex
open Text

/-- An event as it is logged. -/
def Event.record (event : Event) : Event.Level × List (String × String) := (event.level, event.fields)

def LexError.record (error : LexError) : Event.Level × List (String × String) :=
  (.trace, [("err", error.message), ("line", toString error.line), ("message", "lexical error")])

/-- The record that closes the log. -/
def Scan.record (scan : Scan) (lines : Nat) : Event.Level × List (String × String) :=
  (.debug, [("errors", toString scan.errors.length), ("lines", toString lines), ("message", "scan finished"),
    ("tokens", toString scan.tokens.length)])

private theorem getLast?_tokens (firstLine : Nat) (source : String) :
    (scan firstLine source).tokens.getLast? =
      some (.eof (firstLine + lineFeeds source.toList) source.utf8ByteSize) := by
  rw [tokens_eq_dropLast, List.getLast?_concat]

namespace Scan

variable {scan : Scan}

private theorem result_eq_ok_iff {tokens : List Token} :
    scan.result = .ok tokens ↔ scan.errors = [] ∧ tokens = scan.tokens := by
  cases none : scan.errors <;> simp [result, hasErrors, none, eq_comm]

private theorem result_eq_error_iff {errors : List LexError} :
    scan.result = .error errors ↔ scan.errors ≠ [] ∧ errors = scan.errors := by
  cases none : scan.errors <;> simp [result, hasErrors, none, eq_comm]

end Scan

/-- Any reporter is told of the errors of the scan, one by one in their order. The log records the same ones and
closes with their number, and the tokens are the result only where there are none. -/
theorem scan_views_agree {σ : Type u} (lexer : Lexer) (report : σ → LexError → σ) (sink : σ) (source : String) :
    let scan := lexer.lex source
    let done := lexer.lexWith report sink source
    let line := lexer.firstLine + lineFeeds source.toList
    Bytewise.scanWith? report sink lexer.firstLine source = some done ∧
    done.events.toList.map Event.record = scan.errors.map LexError.record ++ [scan.record line] ∧
    scan.tokens.getLast? = some (.eof line source.utf8ByteSize) ∧
    done.tokens.toList = scan.tokens ∧
    done.sink = scan.errors.foldl report sink ∧
    (∀ log : Array LexError, (lexer.lexWith Array.push log source).sink.toList = log.toList ++ scan.errors) ∧
    (∀ tokens, scan.result = .ok tokens ↔ scan.errors = [] ∧ tokens = scan.tokens) ∧
    (∀ errors, scan.result = .error errors ↔ scan.errors ≠ [] ∧ errors = scan.errors) := by
  intro scan done line
  have known : done = _ := scanWith_eq report sink lexer.firstLine source
  have logged : done.events.toList.map Event.record = scan.errors.map LexError.record ++ [scan.record line] := by
    rw [known]
    simp only [Scan.events, List.map_append, List.map_map]
    rfl
  have kept : done.tokens.toList = scan.tokens := by
    rw [known]
    rfl
  have told : done.sink = scan.errors.foldl report sink := by
    rw [known]
    rfl
  have collected (log : Array LexError) :
      (lexer.lexWith Array.push log source).sink.toList = log.toList ++ scan.errors := by
    rw [Lexer.lexWith, scanWith_eq]
    simp [scan, Lexer.lex]
  exact ⟨Bytewise.scanWith?_eq sink lexer.firstLine source, logged, getLast?_tokens lexer.firstLine source, kept, told,
    collected, fun _ => Scan.result_eq_ok_iff, fun _ => Scan.result_eq_error_iff⟩

end LoxLex
