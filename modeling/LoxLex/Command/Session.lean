import LoxLex.Command.World
import LoxLex.Text.Blank

/-! A dialogue by lines. Each line is scanned for itself or is a command. -/

namespace LoxLex.Command
open Text

def version : String := "0.1.0"

def title : Reply :=
  .line (bold (Colour.brightCyan.paint programName) ++ " " ++ Colour.brightBlack.paint version)

/-- A line as the reader of lines hands it over. -/
inductive Line
  | text (content : String)
  | unreadable
  /-- The reader broke down over it. -/
  | broken (message : String)
  deriving DecidableEq

namespace Line

def ofBytes (edit : List Char → Except String (List Char)) (bytes : List UInt8) : Line :=
  match decode ⟨bytes.toArray⟩ with
  | .error _ => unreadable
  | .ok content =>
    match edit content.toList with
    | .ok typed => text (.ofList typed)
    | .error message => broken message

/-- Cuts input after each line feed. What follows the last one is a line too, unless empty. -/
def split (input : List UInt8) : List (List UInt8) :=
  match found : input.dropWhile (· ≠ 0x0A) with
  | [] => if input.isEmpty then [] else [input]
  | feed :: rest =>
    have : rest.length < input.length := by
      have shorter := (List.dropWhile_sublist (l := input) (· ≠ 0x0A)).length_le
      simp only [found, List.length_cons] at shorter
      omega
    (input.takeWhile (· ≠ 0x0A) ++ [feed]) :: split rest
termination_by input.length

def ofInput (edit : List Char → Except String (List Char)) (input : ByteArray) : List Line :=
  (split input.toList).map (ofBytes edit)

end Line

inductive Entry
  | nothing
  | exit
  | help
  | load (path : String)
  | source (text : String)
  deriving DecidableEq

def Entry.ofText (content : String) : Entry :=
  let trimmed := trim content.toList
  if trimmed.isEmpty then nothing
  else if trimmed = ".exit".toList then exit
  else if trimmed = ".help".toList then help
  else if ".load ".toList.isPrefixOf trimmed then
    load (.ofList (trim (trimmed.drop ".load ".length)))
  else source (.ofList trimmed)

namespace Session

def banner : Reply := title ++ .line (Colour.brightBlack.paint "Type .help for REPL commands")

def commandHelp : Reply :=
  .line (Colour.brightBlue.paint ".help                show commands") ++
  .line (Colour.brightBlue.paint ".load <file.lox>     scan a script") ++
  .line (Colour.brightBlue.paint ".exit                exit REPL")

def farewell : Reply := .line (Colour.brightBlack.paint "bye")

inductive Ending
  | orderly
  | broken
  deriving DecidableEq

def Ending.exitCode : Ending → Nat
  | .orderly => 0
  | .broken => 101

variable {m : Type → Type u} [Monad m] (world : World m) (format : Format)

def answer : Entry → m (Reply × Option Ending)
  | .nothing => return ({}, none)
  | .exit => return ({}, some .orderly)
  | .help => return (commandHelp, none)
  | .source text => do
    let (reply, _) ← scanReply world.log format text
    return (reply, none)
  | .load path => do
    match ← world.read path with
    | .ok text =>
      let (reply, _) ← scanReply world.log format text
      return (reply, none)
    | .error error =>
      return (.failure "load error:" (Failure.unreadable path error.message).display, none)

/-- The reply to a line. One that is not text ends the dialogue. -/
def respond : Line → m (Reply × Option Ending)
  | .text content => answer world format (.ofText content)
  | .unreadable => return (.failure "repl error:" ReadError.notText.message, some .orderly)
  | .broken message => return ({ errors := message }, some .broken)

/-- The replies to all lines in order, up to the one that ends the dialogue. -/
def replies : List Line → m (List Reply × Ending)
  | [] => return ([farewell], .orderly)
  | line :: lines => do
    let (reply, ending) ← respond world format line
    match ending with
    | some ending => return ([reply], ending)
    | none =>
      let (later, ending) ← replies lines
      return (reply :: later, ending)

end Session

end LoxLex.Command
