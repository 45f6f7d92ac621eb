import LoxLex.Command.Arguments
import LoxLex.Command.Session

/-! The command: it scans a source given on the command line, or a script, or holds a session. What it finds
around it is a parameter. -/

namespace LoxLex.Command

inductive Request
  | refuse (refusal : Refusal)
  | version
  | eval (format : Format) (source : String)
  | script (format : Format) (path : String)
  | session (format : Format)
  deriving DecidableEq

/-- The version comes first, then a source text, then a script. -/
def Request.ofWords (words : List String) : Request :=
  match Arguments.ofWords words with
  | .error refusal => refuse refusal
  | .ok arguments =>
    let format := ⟨arguments.json, arguments.fancy, arguments.quiet⟩
    if arguments.version then version
    else match arguments.eval, arguments.script with
      | some source, _ => eval format source
      | none, some path => script format path
      | none, none => session format

structure Answer where
  exitCode : Nat
  reply : Reply
  deriving DecidableEq

namespace Answer

def success (reply : Reply) : Answer := ⟨0, reply⟩

/-- The answer to words that cannot be followed. The help stands for a message about the words, which is
left out. -/
def usage : Answer := ⟨64, { errors := helpText }⟩

def unreadable (path : String) (error : ReadError) : Answer :=
  let name := Text.Colour.yellow.paint path
  ⟨66, .failure "error:" s!"could not read '{name}': {error.message}"⟩

/-- With something written before any error. -/
def behind (opening : String) (answer : Answer) : Answer :=
  { answer with reply.errors := opening ++ answer.reply.errors }

end Answer

namespace World

variable {m : Type → Type u} [Monad m] (world : World m)

def scanSource (format : Format) (source : String) : m Answer := do
  let (reply, failed) ← scanReply world.log format source
  return ⟨if failed then 65 else 0, reply⟩

def scanScript (format : Format) (path : String) : m Answer := do
  match ← world.read path with
  | .ok source => world.scanSource format source
  | .error error => return .unreadable path error

/-- Answers the lines of the input. All of it has been taken when the first line is answered, so that no
line which loads a file takes anything from those that follow. -/
def converse (format : Format) (input : ByteArray) : m Answer := do
  let (replies, ending) ← Session.replies world format (Line.ofInput world.edit input)
  return ⟨ending.exitCode, Session.banner ++ .join replies⟩

/-- Runs a task under the log, which starts once the words are understood. -/
def logged (task : m Answer) : m Answer := do
  let opening ← world.log.opening
  let answer ← task
  return answer.behind opening

def run (words : List String) (input : ByteArray) : m Answer :=
  match Request.ofWords words with
  | .refuse .usage => return .usage
  | .refuse .help => return .success { output := helpText }
  | .version => world.logged (return .success title)
  | .eval format source => world.logged (world.scanSource format source)
  | .script format path => world.logged (world.scanScript format path)
  | .session format => world.logged (world.converse format input)

end World

/-- Runs the command where a user has written the given files, each with its path. Input is there as a
file too, until a session has taken it. -/
def runAmong (files : List (String × ByteArray)) (words : List String) (input : ByteArray) : Answer :=
  let unread := match Request.ofWords words with
    | .session _ => .empty
    | _ => input
  Id.run ((FileTree.around files unread).world.run words input)

end LoxLex.Command
