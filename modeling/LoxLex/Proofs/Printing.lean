import LoxLex.Proofs.Findings

/-! Lexemes written one after another, with blanks and comments between them, are read back as they
were written. -/

namespace LoxLex
open Text

/-- Blanks, and comments with the line feed that ends them. -/
inductive Filler
  | blank (char : Char) (layout : isLayout char)
  | comment (body : List Char) (line : '\n' ∉ body)

def Filler.text : Filler → List Char
  | blank char _ => [char]
  | comment body _ => '/' :: '/' :: (body ++ ['\n'])

/-- A separator begins with a blank: a comment alone would join a slash before it. -/
structure Separator where
  first : Char
  layout : isLayout first
  more : List Filler

def Separator.text (separator : Separator) : List Char :=
  separator.first :: separator.more.flatMap Filler.text

structure Document where
  leading : List Filler
  lexemes : List Lexeme
  /-- By how many lexemes there are behind it. -/
  separator : Nat → Separator
  trailing : Option Separator

namespace Document

def writtenFrom (document : Document) : List Lexeme → List Char
  | [] => document.trailing.elim [] Separator.text
  | [last] => last.text ++ document.trailing.elim [] Separator.text
  | lexeme :: next :: rest =>
    lexeme.text ++ ((document.separator (rest.length + 1)).text ++ document.writtenFrom (next :: rest))

def written (document : Document) : List Char :=
  document.leading.flatMap Filler.text ++ document.writtenFrom document.lexemes

/-- The tokens of lexemes of which the first is written at a place. -/
def tokensFrom (document : Document) (place : Place) : List Lexeme → List Token
  | [] => []
  | [last] => [last.token place]
  | lexeme :: next :: rest =>
    let behind := place.after (lexeme.text ++ (document.separator (rest.length + 1)).text)
    lexeme.token place :: document.tokensFrom behind (next :: rest)

def tokens (document : Document) (firstLine : Nat) : List Token :=
  document.tokensFrom (Place.after ⟨0, firstLine⟩ (document.leading.flatMap Filler.text)) document.lexemes

end Document

private theorem findings_filler (place : Place) (filler : Filler) (after : List Char) :
    findings place (filler.text ++ after) = findings (place.after filler.text) after := by
  cases filler with
  | blank char layout => exact findings_of_fits place (Piece.blank_fits layout after)
  | comment body line =>
    have isComment : IsComment ('/' :: '/' :: body) := ⟨body, rfl, line⟩
    have fits : Piece.Fits ⟨.comment, '/' :: '/' :: body⟩ ('\n' :: after) :=
      ⟨.comment isComment, Piece.stops_line_feed (by simp)⟩
    have spelled : Filler.text (.comment body line) = ('/' :: '/' :: body) ++ ['\n'] := by simp [Filler.text]
    rw [spelled, List.append_assoc, Place.after_append]
    refine (findings_of_fits place fits).trans ?_
    exact findings_of_fits _ (Piece.blank_fits rfl after)

private theorem findings_fillers (place : Place) (fillers : List Filler) (after : List Char) :
    findings place (fillers.flatMap Filler.text ++ after) =
      findings (place.after (fillers.flatMap Filler.text)) after := by
  induction fillers generalizing place with
  | nil => rfl
  | cons filler fillers ih =>
    rw [List.flatMap_cons, List.append_assoc, findings_filler, ih, Place.after_append]

private theorem findings_separator (place : Place) (separator : Separator) (after : List Char) :
    findings place (separator.text ++ after) = findings (place.after separator.text) after :=
  findings_fillers place (.blank separator.first separator.layout :: separator.more) after

private theorem lexeme_stops (lexeme : Lexeme) (separator : Separator) (after : List Char) :
    Piece.Stops ⟨.token lexeme.kind, lexeme.text⟩ (separator.text ++ after) :=
  Piece.token_stops rfl separator.layout

namespace Document

private theorem findings_writtenFrom (document : Document) (place : Place) (lexemes : List Lexeme) :
    findings place (document.writtenFrom lexemes) = (document.tokensFrom place lexemes).map .token := by
  have nothing : ∀ place, findings place (document.trailing.elim [] Separator.text) = [] := by
    intro place
    cases document.trailing with
    | none => rw [Option.elim_none, findings, Piece.cut]; rfl
    | some separator =>
      have skipped := findings_separator place separator []
      rw [List.append_nil, findings, findings, Piece.cut] at skipped
      exact skipped
  have ends : ∀ lexeme : Lexeme, Piece.Stops ⟨.token lexeme.kind, lexeme.text⟩
      (document.trailing.elim [] Separator.text) := by
    intro lexeme
    cases document.trailing with
    | none => exact Piece.stops_nil
    | some separator => simpa using lexeme_stops lexeme separator []
  induction lexemes generalizing place with
  | nil => exact nothing place
  | cons lexeme rest ih =>
    cases rest with
    | nil =>
      rw [writtenFrom, findings_lexeme place (ends lexeme), nothing]
      rfl
    | cons next rest =>
      rw [writtenFrom, findings_lexeme place (lexeme_stops ..), findings_separator, ih, tokensFrom,
        Place.after_append]
      rfl

end Document

/-- A document is read back as its lexemes, each at its place, without an error. -/
theorem scan_written (firstLine : Nat) (document : Document) :
    scan firstLine (.ofList document.written) =
      ⟨document.tokens firstLine ++
        [.eof (firstLine + lineFeeds document.written) (byteLength document.written)], []⟩ := by
  have found : findings ⟨0, firstLine⟩ document.written = (document.tokens firstLine).map .token := by
    rw [Document.written, findings_fillers, Document.findings_writtenFrom]
    rfl
  rw [scan_eq, Place.after_source, ← byteLength_toList, String.toList_ofList, found]
  simp only [Finding.tokens_of_tokens, Finding.errors_of_tokens]

-- The tab keeps the comment apart from the slash before it.
example :
    let gap : Separator := ⟨'\t', rfl, [.comment ['"', 'é'] (by decide)]⟩
    let document : Document := ⟨[.comment [] (by decide)], [.symbol .slash, .string ['é'] (by decide)],
      fun _ => gap, some ⟨'\n', rfl, []⟩⟩
    document.written = "//\n/\t//\"é\n\"é\"\n".toList := by
  rfl

end LoxLex
