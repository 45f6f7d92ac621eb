import LoxLex.Command.Report
import LoxLex.Proofs.Findings

/-! What the command writes for a source is the scan of the source written out: its tokens on one
channel, its errors on the other, and a mark that there were any. The notes of a log stand between the
errors, each before its own. -/

namespace LoxLex
open Text

/-- What a scan tells a log. The line is the last one. -/
def Scan.events (scan : Scan) (line : Nat) : List Event :=
  scan.errors.map (fun error => .lexicalError error.line error.message) ++
    [.finished scan.tokens.length scan.errors.length line]

/-- The scan of a source decides what a pass over it leaves behind: its tokens, its errors in the count, in
the log and at the sink, and the place and the log's last line at its end. -/
theorem scanWith_eq (report : σ → LexError → σ) (sink : σ) (firstLine : Nat) (source : String) :
    scanWith report sink firstLine source =
      let known := scan firstLine source
      let line := firstLine + lineFeeds source.toList
      { place := ⟨source.utf8ByteSize, line⟩
        tokens := known.tokens.toArray
        errors := known.errors.length
        sink := known.errors.foldl report sink
        events := (known.events line).toArray } := by
  simp only [Scan.events, scan_eq, scanWith, Progress.foldl_step, Progress.finish, Progress.start, Piece.cut_text,
    findings, Place.after_source]
  simp

namespace Command

/-- An error as it stands on its channel, in red and on a line of its own. -/
def errorLine (error : LexError) : String :=
  "\x1b[31m" ++ s!"[line {error.line}] Error: {error.message}" ++ "\x1b[39m" ++ "\n"

private theorem add_eq (format : Format) (plain : format.fancy = false) (source : String) (log : ErrorLog)
    (error : LexError) : log.add format source error = ⟨log.entries ++ [errorLine error], true⟩ := by
  have red : Text.select Text.Colour.red.code = "\x1b[31m" := by decide
  have reset : Text.select 39 = "\x1b[39m" := by decide
  have painted : Text.Colour.red.paint error.report ++ "\n" = errorLine error := by
    rw [Text.Colour.paint, red, reset]
    rfl
  rw [ErrorLog.add, plain, if_neg (by decide), ← painted]

private theorem foldl_add (format : Format) (plain : format.fancy = false) (source : String) (log : ErrorLog)
    (errors : List LexError) :
    errors.foldl (ErrorLog.add format source) log =
      ⟨log.entries ++ errors.map errorLine, log.failed || !errors.isEmpty⟩ := by
  induction errors generalizing log with
  | nil => simp
  | cons error errors ih =>
    rw [List.foldl_cons, add_eq format plain, ih]
    simp

variable {m : Type → Type u} [Monad m] {format : Format}

theorem scanReply_eq (log : Log m) (plain : format.fancy = false) (source : String) :
    scanReply log format source = do
      let found := lex source
      let notes ← (found.events (1 + lineFeeds source.toList)).mapM log.note
      return (⟨if format.quiet then "" else listTokens format.json found.tokens,
        interleave notes (found.errors.map errorLine)⟩, !found.errors.isEmpty) := by
  simp only [scanReply, Lexer.lexWith, lex, Lexer.lex, scanWith_eq, foldl_add format plain, Bool.false_or,
    List.nil_append]
  rfl

private theorem interleave_blank {notes : List String} (blank : ∀ note ∈ notes, note = "") (entries : List String) :
    interleave notes entries = String.join entries := by
  fun_induction interleave notes entries with
  | case1 note notes entry entries ih =>
    obtain ⟨here, later⟩ := List.forall_mem_cons.mp blank
    simp [here, ih later]
  | case2 notes =>
    induction notes with
    | nil => rfl
    | cons note notes ih =>
      obtain ⟨here, later⟩ := List.forall_mem_cons.mp blank
      simp [here, ih later]
  | case3 entries => rfl

/-- What is written for a source when no log is kept. -/
def toldAlone (format : Format) (source : String) : Reply where
  output := if format.quiet then "" else listTokens format.json (lex source).tokens
  errors := .join ((lex source).errors.map errorLine)

theorem scanReply_silent [LawfulMonad m] (plain : format.fancy = false) (source : String) :
    scanReply (.silent : Log m) format source =
      pure (toldAlone format source, !(lex source).errors.isEmpty) := by
  have blank (events : List Event) : ∀ note ∈ events.map fun _ => "", note = "" := by simp
  rw [scanReply_eq _ plain]
  simp only [Log.silent, List.mapM_pure, pure_bind, interleave_blank (blank _), toldAlone]

end Command

end LoxLex
