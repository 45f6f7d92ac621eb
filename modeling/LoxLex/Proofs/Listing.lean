import LoxLex.Command.Report
import LoxLex.Proofs.JsonTokens

/-! The plain listing of tokens, read back. What is listed of a token ends where it must for its kind,
even where a string looks like more tokens, so no two lists of tokens have one listing. -/

namespace LoxLex

/-- What is listed of a token: all but where it stands. -/
structure Token.Content where
  kind : Kind
  lexeme : String
  literal : Literal
  deriving DecidableEq

def Token.content (token : Token) : Token.Content := ⟨token.kind, token.lexeme, token.literal⟩

namespace Token.Content

/-- What a scan can find: what is written as a lexeme and has its value, or the end. -/
inductive Occurs : Content → Prop
  | lexeme (lexeme : Lexeme) : Occurs ⟨lexeme.kind, .ofList lexeme.text, lexeme.literal⟩
  | atEnd : Occurs ⟨.eof, "", .none⟩

def entry (content : Content) : List Char :=
  content.kind.name.toList ++ ' ' ::
    (content.lexeme.toList ++ ' ' :: (content.literal.listing.toList ++ ['\n']))

private theorem entry_ne_nil (content : Content) : content.entry ≠ [] := by
  simp [entry]

end Token.Content

private theorem Kind.blank_not_mem_name (kind : Kind) : ' ' ∉ kind.name.toList := by
  cases kind with
  | symbol sign => cases sign <;> decide
  | keyword reserved => cases reserved <;> decide
  | identifier | string | number | eof => decide

private theorem Kind.name_inj {kind other : Kind} (same : kind.name = other.name) : kind = other := by
  have read := ofName?_name kind
  rw [same, ofName?_name] at read
  exact (Option.some.inj read).symm

/-- In front of a blank a lexeme is the first piece of any text that begins with it. -/
private theorem Lexeme.append_blank_inj {lexeme other : Lexeme} {rest behind : List Char}
    (same : lexeme.text ++ ' ' :: rest = other.text ++ ' ' :: behind) :
    lexeme.text = other.text ∧ rest = behind := by
  have fits (found : Lexeme) (after : List Char) : Piece.Fits ⟨.token found.kind, found.text⟩ (' ' :: after) :=
    ⟨.lexeme found, Piece.token_stops rfl rfl⟩
  have first := Piece.cut_of_fits (fits lexeme rest)
  have second := Piece.cut_of_fits (fits other behind)
  rw [same, second] at first
  have text : other.text = lexeme.text := congrArg Piece.text (List.cons.inj first).1
  rw [text] at same
  exact ⟨text.symm, (List.cons.inj (List.append_cancel_left same)).2⟩

namespace Token.Content

private theorem kind_eq_of_names {kind other : Kind} {rest behind : List Char}
    (same : kind.name.toList ++ ' ' :: rest = other.name.toList ++ ' ' :: behind) :
    kind = other ∧ rest = behind := by
  have inside := ne_of_not_mem kind.blank_not_mem_name
  have otherInside := ne_of_not_mem other.blank_not_mem_name
  have ends (after : List Char) : Halts (· ≠ ' ') (' ' :: after) := by simp
  have names := congrArg (List.takeWhile (· ≠ ' ')) same
  rw [takeWhile_run inside (ends rest), takeWhile_run otherInside (ends behind)] at names
  obtain rfl := Kind.name_inj (String.toList_inj.mp names)
  exact ⟨rfl, (List.cons.inj (List.append_cancel_left same)).2⟩

/-- No entry begins another. -/
private theorem Occurs.entry_append_inj {content other : Content} (occurs : content.Occurs)
    (otherOccurs : other.Occurs) {rest behind : List Char}
    (same : content.entry ++ rest = other.entry ++ behind) : content = other ∧ rest = behind := by
  simp only [entry, List.append_assoc, List.cons_append] at same
  obtain ⟨kind, same⟩ := kind_eq_of_names same
  cases occurs with
  | lexeme lexeme =>
    cases otherOccurs with
    | lexeme other =>
      simp only [String.toList_ofList] at same
      obtain ⟨text, same⟩ := Lexeme.append_blank_inj same
      have literal : lexeme.literal = other.literal := by
        rw [← Piece.literal_lexeme, ← Piece.literal_lexeme, text]
        exact congrArg (Piece.literal · _) kind
      rw [literal] at same
      refine ⟨?_, ?_⟩
      · rw [mk.injEq]
        exact ⟨kind, congrArg String.ofList text, literal⟩
      · simpa using same
    | atEnd => exact (lexeme.kind_ne_eof kind).elim
  | atEnd =>
    cases otherOccurs with
    | lexeme other => exact (other.kind_ne_eof kind.symm).elim
    | atEnd => exact ⟨rfl, by simpa using same⟩

private theorem flatMap_entry_inj {contents others : List Content} (occur : ∀ content ∈ contents, content.Occurs)
    (otherOccur : ∀ content ∈ others, content.Occurs)
    (same : contents.flatMap entry = others.flatMap entry) : contents = others := by
  induction contents generalizing others with
  | nil =>
    cases others with
    | nil => rfl
    | cons other others =>
      have nothing := (List.append_eq_nil_iff.mp same.symm).1
      exact (other.entry_ne_nil nothing).elim
  | cons content contents ih =>
    cases others with
    | nil =>
      have nothing := (List.append_eq_nil_iff.mp same).1
      exact (content.entry_ne_nil nothing).elim
    | cons other others =>
      obtain ⟨here, later⟩ := List.forall_mem_cons.mp occur
      obtain ⟨otherHere, otherLater⟩ := List.forall_mem_cons.mp otherOccur
      obtain ⟨rfl, rest⟩ := here.entry_append_inj otherHere same
      rw [ih later otherLater rest]

end Token.Content

private theorem Token.toList_listing (token : Token) : (token.listing ++ "\n").toList = token.content.entry := by
  simp [listing, content, Content.entry]

private theorem toList_listTokens (tokens : List Token) :
    (Command.listTokens false tokens).toList = (tokens.map Token.content).flatMap Token.Content.entry := by
  have lines : Command.listTokens false tokens = String.join (tokens.map fun token => token.listing ++ "\n") := rfl
  rw [lines, String.toList_join, List.flatMap_map, List.flatMap_map]
  exact congrArg (List.flatMap · tokens) (funext Token.toList_listing)

private theorem occurs_of_mem_scan {firstLine : Nat} {source : String} {token : Token}
    (member : token ∈ (scan firstLine source).tokens) : token.content.Occurs := by
  rcases exists_lexeme_of_mem_tokens member with ⟨lexeme, place, rfl⟩ | ⟨line, offset, rfl⟩
  · exact .lexeme lexeme
  · exact .atEnd

/-- Scans with one listing have the same tokens, their places apart. -/
theorem scan_listing_unambiguous (firstLine otherLine : Nat) (source other : String)
    (same : Command.listTokens false (scan firstLine source).tokens =
      Command.listTokens false (scan otherLine other).tokens) :
    (scan firstLine source).tokens.map Token.content = (scan otherLine other).tokens.map Token.content := by
  have occur (line : Nat) (text : String) :
      ∀ content ∈ (scan line text).tokens.map Token.content, content.Occurs := by
    intro content member
    obtain ⟨token, found, rfl⟩ := List.mem_map.mp member
    exact occurs_of_mem_scan found
  have entries := congrArg String.toList same
  rw [toList_listTokens, toList_listTokens] at entries
  exact Token.Content.flatMap_entry_inj (occur firstLine source) (occur otherLine other) entries

/-- The string looks like a number, the end and a string once more. -/
theorem scan_listing_unambiguous_string :
    let source := "\"é 1 1.0\nEOF  nil\nSTRING \" .50 // \""
    let other := "@\n\"é 1 1.0\nEOF  nil\nSTRING \"\t.50"
    Command.listTokens false (scan 1 source).tokens = Command.listTokens false (scan 8 other).tokens ∧
      (scan 1 source).tokens.map Token.content = (scan 8 other).tokens.map Token.content ∧
      (scan 8 other).tokens.map Token.lexeme = ["\"é 1 1.0\nEOF  nil\nSTRING \"", ".", "50", ""] := by
  intro source other
  have lexemes : (scan 8 other).tokens.map Token.lexeme = ["\"é 1 1.0\nEOF  nil\nSTRING \"", ".", "50", ""] := by
    decide +kernel
  have same : Command.listTokens false (scan 1 source).tokens =
      Command.listTokens false (scan 8 other).tokens := by decide +kernel
  exact ⟨same, scan_listing_unambiguous 1 8 source other same, lexemes⟩

end LoxLex
