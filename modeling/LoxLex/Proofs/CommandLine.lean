import LoxLex.Command.Run
import LoxLex.Proofs.Reporting

/-! Command lines that ask for one source. Flags may stand anywhere, and a source may be a word or the
content of a script: the answer is that of the scan alone. -/

namespace LoxLex.Command

/-- Words that ask for JSON or for no listing, each at most once. -/
structure AreFlags (flags : List String) : Prop where
  nodup : flags.Nodup
  known : ∀ flag ∈ flags, flag = "--json" ∨ flag = "--quiet"

/-- The words, besides flags, that name a script or a source text, or nothing. -/
inductive Names : List String → Option String → Option String → Prop
  | nothing : Names [] none none
  | eval (source : String) : Names ["--eval=" ++ source] none (some source)
  | evalApart {source : String} (plain : Word.ofString source = .plain source) :
      Names ["--eval", source] none (some source)
  | script {path : String} (plain : Word.ofString path = .plain path) : Names [path] (some path) none

def Format.ofFlags (flags : List String) : Format where
  json := "--json" ∈ flags
  quiet := "--quiet" ∈ flags

theorem Format.ofFlags_plain (flags : List String) : (Format.ofFlags flags).fancy = false := rfl

namespace AreFlags

variable {flags more : List String}

private theorem tail {flag : String} (areFlags : AreFlags (flag :: flags)) : AreFlags flags :=
  ⟨(List.nodup_cons.mp areFlags.nodup).2, fun other member => areFlags.known other (List.mem_cons_of_mem _ member)⟩

private theorem left (areFlags : AreFlags (flags ++ more)) : AreFlags flags :=
  ⟨(List.nodup_append.mp areFlags.nodup).1,
    fun flag member => areFlags.known flag (List.mem_append_left _ member)⟩

private theorem right (areFlags : AreFlags (flags ++ more)) : AreFlags more :=
  ⟨(List.nodup_append.mp areFlags.nodup).2.1,
    fun flag member => areFlags.known flag (List.mem_append_right _ member)⟩

end AreFlags

private theorem Word.ofString_eval (source : String) :
    Word.ofString ("--eval=" ++ source) = .long "eval" (some source) := by
  simp [Word.ofString]

namespace Arguments

section Words

variable {arguments : Arguments}

private theorem add_json (unset : arguments.json = false) (rest : List String) :
    arguments.add ("--json" :: rest) = add { arguments with json := true } rest := by
  have word : Word.ofString "--json" = .long "json" none := by decide
  cases rest <;> simp [add, word, addFlag, unset] <;> rfl

private theorem add_quiet (unset : arguments.quiet = false) (rest : List String) :
    arguments.add ("--quiet" :: rest) = add { arguments with quiet := true } rest := by
  have word : Word.ofString "--quiet" = .long "quiet" none := by decide
  cases rest <;> simp [add, word, addFlag, unset] <;> rfl

private theorem add_eval (unset : arguments.eval = none) (source : String) (rest : List String) :
    arguments.add (("--eval=" ++ source) :: rest) = add { arguments with eval := some source } rest := by
  cases rest <;> simp [add, Word.ofString_eval, addEval, unset] <;> rfl

private theorem add_evalApart (unset : arguments.eval = none) {source : String}
    (plain : Word.ofString source = .plain source) (rest : List String) :
    arguments.add ("--eval" :: source :: rest) = add { arguments with eval := some source } rest := by
  have word : Word.ofString "--eval" = .long "eval" none := by decide
  simp [add, word, plain, addEval, unset]
  rfl

private theorem add_script (unset : arguments.script = none) {path : String}
    (plain : Word.ofString path = .plain path) (rest : List String) :
    arguments.add (path :: rest) = add { arguments with script := some path } rest := by
  cases rest <;> simp [add, plain, addScript, unset] <;> rfl

private theorem add_behind (unset : arguments.script = none) (path : String) :
    arguments.add ["--", path] = .ok { arguments with script := some path } := by
  have word : Word.ofString "--" = .separator := by decide
  simp [add, word, addScript, unset]

end Words

def withFlags (arguments : Arguments) (flags : List String) : Arguments :=
  { arguments with
    json := arguments.json || decide ("--json" ∈ flags)
    quiet := arguments.quiet || decide ("--quiet" ∈ flags) }

private theorem withFlags_append (arguments : Arguments) (flags more : List String) :
    (arguments.withFlags flags).withFlags more = arguments.withFlags (flags ++ more) := by
  simp [withFlags, Bool.or_assoc, Bool.decide_or]

private theorem add_flags {flags : List String} (areFlags : AreFlags flags) {arguments : Arguments}
    (json : "--json" ∈ flags → arguments.json = false) (quiet : "--quiet" ∈ flags → arguments.quiet = false)
    (rest : List String) : arguments.add (flags ++ rest) = (arguments.withFlags flags).add rest := by
  induction flags generalizing arguments with
  | nil => simp [withFlags]
  | cons flag flags ih =>
    have absent := (List.nodup_cons.mp areFlags.nodup).1
    rcases areFlags.known flag List.mem_cons_self with rfl | rfl
    · have unset := json List.mem_cons_self
      calc arguments.add ("--json" :: (flags ++ rest))
        _ = add { arguments with json := true } (flags ++ rest) := add_json unset _
        _ = (withFlags { arguments with json := true } flags).add rest :=
          ih areFlags.tail (fun twice => (absent twice).elim) fun later => quiet (List.mem_cons_of_mem _ later)
        _ = (arguments.withFlags ("--json" :: flags)).add rest := by simp [withFlags, unset]
    · have unset := quiet List.mem_cons_self
      calc arguments.add ("--quiet" :: (flags ++ rest))
        _ = add { arguments with quiet := true } (flags ++ rest) := add_quiet unset _
        _ = (withFlags { arguments with quiet := true } flags).add rest :=
          ih areFlags.tail (fun later => json (List.mem_cons_of_mem _ later)) fun twice => (absent twice).elim
        _ = (arguments.withFlags ("--quiet" :: flags)).add rest := by simp [withFlags, unset]

/-- What flags and a source note together, in whatever order they stand. -/
theorem add_names {before words after : List String} {script eval : Option String}
    (areFlags : AreFlags (before ++ after)) (names : Names words script eval) :
    add {} (before ++ (words ++ after)) = .ok (withFlags { script, eval } (before ++ after)) := by
  have apart := (List.nodup_append.mp areFlags.nodup).2.2
  have once {flag : String} (behind : flag ∈ after) : decide (flag ∈ before) = false :=
    decide_eq_false fun already => apart flag already flag behind rfl
  calc add {} (before ++ (words ++ after))
    _ = (withFlags {} before).add (words ++ after) :=
      add_flags areFlags.left (fun _ => rfl) (fun _ => rfl) _
    _ = (withFlags { script, eval } before).add (after ++ []) := by
      rw [List.append_nil]
      cases names with
      | nothing => rfl
      | eval source => exact add_eval rfl source after
      | evalApart plain => exact add_evalApart rfl plain after
      | script plain => exact add_script rfl plain after
    _ = ((withFlags { script, eval } before).withFlags after).add [] :=
      add_flags areFlags.right once once _
    _ = .ok (withFlags { script, eval } (before ++ after)) := by
      rw [withFlags_append, add]

private theorem add_behind_flags {flags : List String} (areFlags : AreFlags flags) (path : String) :
    add {} (flags ++ ["--", path]) = .ok (withFlags { script := some path } flags) := by
  rw [add_flags areFlags (fun _ => rfl) fun _ => rfl]
  exact add_behind rfl path

end Arguments

/-- What is asked for when nothing else is noted than flags and at most one source. -/
theorem Request.ofWords_of_add {words flags : List String} {script eval : Option String}
    (noted : Arguments.add {} words = .ok (Arguments.withFlags { script, eval } flags))
    (single : script = none ∨ eval = none) :
    ofWords words =
      match eval, script with
      | some source, _ => .eval (.ofFlags flags) source
      | none, some path => .script (.ofFlags flags) path
      | none, none => .session (.ofFlags flags) := by
  have arguments : Arguments.ofWords words = .ok (Arguments.withFlags { script, eval } flags) := by
    rw [Arguments.ofWords, noted]
    rcases single with rfl | rfl <;> simp [Arguments.withFlags, pure, Except.pure, bind, Except.bind]
  rw [ofWords, arguments]
  cases eval <;> cases script <;> simp [Arguments.withFlags, Format.ofFlags]

theorem Request.ofWords_behind {flags : List String} (areFlags : AreFlags flags) (path : String) :
    ofWords (flags ++ ["--", path]) = .script (.ofFlags flags) path :=
  ofWords_of_add (Arguments.add_behind_flags areFlags path) (.inr rfl)

variable {m : Type → Type u} [Monad m]

namespace World

variable {world : World m}

theorem logged_silent [LawfulMonad m] (silent : world.log = .silent) (task : m Answer) :
    world.logged task = task := by
  simp [logged, silent, Log.silent, Answer.behind]

theorem scanSource_silent [LawfulMonad m] (silent : world.log = .silent) {format : Format}
    (plain : format.fancy = false) (source : String) :
    world.scanSource format source =
      pure ⟨if (lex source).errors = [] then 0 else 65, toldAlone format source⟩ := by
  simp [scanSource, silent, scanReply_silent plain]

end World

section Running

variable [LawfulMonad m] {world : World m} {words flags : List String} {input : ByteArray} {source : String}

end Running

end LoxLex.Command
