import LoxLex.Command.Run

/-! The program: words, files and standard streams. A session is answered once its input has ended. -/

namespace LoxLex.Command

/-- The causes that have a name here, by the number the system gives them, with or without a minus
sign. -/
def readError (error : IO.Error) : ReadError :=
  match error with
  | .noFileOrDirectory .. => .missing
  | .inappropriateType _ code _ | .resourceExhausted _ code _ | .invalidArgument _ code _ =>
    match min code (-code) with
    | 20 => .notFolder
    | 21 => .isFolder
    | 36 => .nameTooLong
    | _ => .other error.toString
  | error => .other error.toString

def readText (path : String) : IO (Except ReadError String) := do
  try return decode (← IO.FS.readBinFile path)
  catch error => return .error (readError error)

def write (reply : Reply) : IO Unit := do
  let output ← IO.getStdout
  output.putStr reply.output
  output.flush
  (← IO.getStderr).putStr reply.errors

/-- The world outside. No log is kept. -/
def outside : World IO := ⟨readText, editLine, .silent⟩

partial def readAll (input : IO.FS.Stream) (pending : ByteArray) : IO ByteArray := do
  let bytes ← input.read 4096
  if bytes.isEmpty then return pending else readAll input (pending ++ bytes)

end LoxLex.Command

open LoxLex Command in
def main (words : List String) : IO UInt32 := do
  let input ← match Request.ofWords words with
    | .session _ => readAll (← IO.getStdin) .empty
    | _ => pure .empty
  let answer ← outside.run words input
  write answer.reply
  return answer.exitCode.toUInt32
