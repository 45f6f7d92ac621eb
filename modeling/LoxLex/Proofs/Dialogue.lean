import LoxLex.Proofs.CommandLine
import LoxLex.Proofs.Typing

/-! Sessions. Each line adds what the command answers that is asked for it alone, so nothing is carried
from one line to the next. -/

namespace LoxLex.Command
open Text

def Line.content? : Line → Option String
  | .text content => some content
  | _ => none

namespace Session

section Lines

variable {m : Type → Type u} [Monad m] (world : World m) (flags : List String)

def scanned (text : String) : m Reply := do
  let answer ← world.run (flags ++ ["--eval=" ++ text]) .empty
  return answer.reply

/-- What the command writes that is asked for a script with the same flags. One that it cannot read, which it
tells by its exit code, is named. -/
def loaded (path : String) : m Reply := do
  let answer ← world.run (flags ++ ["--", path]) .empty
  return if answer.exitCode = 66 then .failure "load error:" ("could not read '" ++ path ++ "'") else answer.reply

def contribution (content : String) : m Reply :=
  let text := trim content.toList
  if text = [] then return {}
  else if text = ".help".toList then return commandHelp
  else if ".load ".toList <+: text then loaded world flags (.ofList (trim (text.drop ".load ".length)))
  else scanned world flags (.ofList text)

def goesOn (line : Line) : Bool := line.content?.any fun content => trim content.toList ≠ ".exit".toList

/-- What is added by the line that ends the session, or by the end of the input. -/
def closing : Option Line → Reply
  | none => farewell
  | some (.text _) => {}
  | some .unreadable => .failure "repl error:" "stream did not contain valid UTF-8"
  | some (.broken message) => { errors := message }

def endingAt : Option Line → Ending
  | some (.broken _) => .broken
  | _ => .orderly

def transcript (lines : List Line) : m Answer := do
  let last := (lines.dropWhile goesOn).head?
  let replies ← ((lines.takeWhile goesOn).filterMap Line.content?).mapM (contribution world flags)
  return ⟨(endingAt last).exitCode, banner ++ (.join replies ++ closing last)⟩

end Lines

variable {m : Type → Type u} [Monad m] [LawfulMonad m] {world : World m} {flags : List String}

private theorem scanned_eq (areFlags : AreFlags flags) (unlogged : world.log = .silent) (text : String) :
    scanned world flags text = pure (toldAlone (.ofFlags flags) text) := by
  have request : Request.ofWords (flags ++ ["--eval=" ++ text]) = .eval (.ofFlags flags) text := by
    rw [← List.append_nil flags] at areFlags
    have request := Request.ofWords_of_add (Arguments.add_names areFlags (.eval text)) (.inl rfl)
    simpa using request
  simp [scanned, World.run, request, World.logged_silent unlogged,
    World.scanSource_silent unlogged (Format.ofFlags_plain flags)]

private theorem loaded_eq (areFlags : AreFlags flags) (unlogged : world.log = .silent) (path : String) :
    loaded world flags path = do
      match ← world.read path with
      | .ok source => return toldAlone (.ofFlags flags) source
      | .error _ => return .failure "load error:" ("could not read '" ++ path ++ "'") := by
  simp only [loaded, World.run, Request.ofWords_behind areFlags, World.logged_silent unlogged,
    World.scanScript, bind_assoc]
  apply bind_congr
  rintro (error | source)
  · simp [Answer.unreadable]
  · -- A script with errors has another exit code than one that cannot be read.
    have other : (if (lex source).errors = [] then 0 else 65) ≠ 66 := by split <;> decide
    simp [World.scanSource_silent unlogged (Format.ofFlags_plain flags), other]

private theorem answer_source (areFlags : AreFlags flags) (unlogged : world.log = .silent) (text : String) :
    answer world (.ofFlags flags) (.source text) = do
      let reply ← scanned world flags text
      return (reply, none) := by
  rw [scanned_eq areFlags unlogged]
  simp [answer, unlogged, scanReply_silent (Format.ofFlags_plain flags)]

private theorem answer_load (areFlags : AreFlags flags) (unlogged : world.log = .silent) (path : String) :
    answer world (.ofFlags flags) (.load path) = do
      let reply ← loaded world flags path
      return (reply, none) := by
  rw [loaded_eq areFlags unlogged, answer, bind_assoc]
  apply bind_congr
  rintro (error | source)
  · simp
    rfl
  · simp [unlogged, scanReply_silent (Format.ofFlags_plain flags)]

private theorem respond_of_goesOn (areFlags : AreFlags flags) (unlogged : world.log = .silent) {content : String}
    (on : goesOn (.text content)) :
    respond world (.ofFlags flags) (.text content) = do
      let reply ← contribution world flags content
      return (reply, none) := by
  have ongoing : trim content.toList ≠ ".exit".toList := by simpa [goesOn, Line.content?] using on
  rw [respond, Entry.ofText, contribution]
  simp only [List.isEmpty_iff, if_neg ongoing, List.isPrefixOf_iff_prefix]
  split
  · simp [answer]
  split
  · simp [answer]
  split
  · exact answer_load areFlags unlogged _
  · exact answer_source areFlags unlogged _

omit [LawfulMonad m] in
private theorem respond_of_ends {format : Format} {line : Line} (ends : goesOn line = false) :
    respond world format line = pure (closing (some line), some (endingAt (some line))) := by
  cases line with
  | text content =>
    have exit : trim content.toList = ".exit".toList := by simpa [goesOn, Line.content?] using ends
    simp [respond, Entry.ofText, exit]
    rfl
  | unreadable => rfl
  | broken message => rfl

private theorem replies_eq (areFlags : AreFlags flags) (unlogged : world.log = .silent) (lines : List Line) :
    replies world (.ofFlags flags) lines = do
      let last := (lines.dropWhile goesOn).head?
      let replies ← ((lines.takeWhile goesOn).filterMap Line.content?).mapM (contribution world flags)
      return (replies ++ [closing last], endingAt last) := by
  induction lines with
  | nil => simp [replies, closing, endingAt]
  | cons line lines ih =>
    rw [replies]
    cases on : goesOn line with
    | true =>
      obtain ⟨content, text, _⟩ := (Option.any_eq_true _ _).mp on
      obtain rfl : line = .text content := by
        cases line <;> simp_all [Line.content?]
      rw [respond_of_goesOn areFlags unlogged on]
      simp [on, ih, Line.content?]
    | false =>
      rw [respond_of_ends on]
      simp [on]

private theorem ofWords_flags (areFlags : AreFlags flags) : Request.ofWords flags = .session (.ofFlags flags) := by
  rw [← List.append_nil flags] at areFlags
  have request := Request.ofWords_of_add (Arguments.add_names areFlags .nothing) (.inl rfl)
  simpa using request

/-- A session that is not logged adds line by line what the command answers for the line alone, up to the line
that ends it or to the end of the input. The lines are those of the input as the reader hands them over. -/
theorem run_session_transcript (input : ByteArray) (areFlags : AreFlags flags) (unlogged : world.log = .silent)
    (keeps : KeepsPlain world.edit) :
    AreLines input.toList (Line.split input.toList) ∧
      (∀ bytes ∈ Line.split input.toList, HandedOver bytes (Line.ofBytes world.edit bytes)) ∧
      world.run flags input = transcript world flags ((Line.split input.toList).map (Line.ofBytes world.edit)) := by
  refine ⟨Line.areLines_split _, fun bytes _ => Line.handedOver_ofBytes keeps bytes, ?_⟩
  simp only [World.run, ofWords_flags areFlags, World.logged_silent unlogged, World.converse, Line.ofInput,
    replies_eq areFlags unlogged, transcript, bind_assoc, pure_bind]
  simp [Reply.join]

theorem run_session_transcript_exit :
    let world := (FileTree.around [("é.lox", "@".toUTF8)] .empty).world
    let input := "1x\x08.5 @\r\n.load é.lox\n\t.exit\n2".toUTF8
    (AreFlags ["--quiet"] ∧ world.log = .silent ∧ KeepsPlain world.edit) ∧
      Id.run (world.run ["--quiet"] input) =
        ⟨0, banner ++
          { errors := "\x1b[31m[line 1] Error: Unexpected character.\x1b[39m\n" ++
              "\x1b[31m[line 1] Error: Unexpected character.\x1b[39m\n" }⟩ := by
  intro world input
  have areFlags : AreFlags ["--quiet"] := ⟨by decide, by decide⟩
  have unlogged : world.log = .silent := rfl
  have keeps : KeepsPlain world.edit := editLine_keepsPlain
  refine ⟨⟨areFlags, unlogged, keeps⟩, ?_⟩
  rw [(run_session_transcript input areFlags unlogged keeps).2.2]
  decide +kernel

/-- A reader that breaks down ends the session, and what is written until then stays. -/
example :
    let reader text := if 'x' ∈ text then .error "broken" else .ok (dropEnd text)
    let world : World Id := ⟨fun _ => pure (.error .missing), reader, .silent⟩
    Id.run (world.run ["--quiet"] "@\nx\n@".toUTF8) =
      ⟨101, banner ++ { errors := "\x1b[31m[line 1] Error: Unexpected character.\x1b[39m\nbroken" }⟩ := by
  decide +kernel

/-- A backspace makes one number of two, and no error. -/
theorem run_session_not_as_written :
    let line := "12\x08.5"
    runAmong [] [] (line ++ "\n").toUTF8 ≠
      ⟨0, banner ++ (runAmong [] ["--eval=" ++ line] .empty).reply ++ farewell⟩ := by
  decide +kernel

end Session

end LoxLex.Command
