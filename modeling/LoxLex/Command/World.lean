import LoxLex.Command.Report
import LoxLex.Command.System
import LoxLex.Text.Backspace

/-! What the command finds around it: files, a reader of lines and, where one is asked for, a log. A tree of
files and a reader that applies backspaces are one such world. -/

namespace LoxLex.Command
open Text

structure World (m : Type → Type u) where
  /-- The text of the file at a path. -/
  read : String → m (Except ReadError String)
  /-- What the reader of lines hands over for the text of one, or what is written when it breaks down. -/
  edit : List Char → Except String (List Char)
  log : Log m

/-- A line feed, or a carriage return and a line feed, end a line. -/
def dropEnd (text : List Char) : List Char :=
  match text.reverse with
  | '\n' :: '\r' :: rest | '\n' :: rest => rest.reverse
  | _ => text

/-- Takes the end from a line and applies its backspaces. One that would cut a character breaks the reader
down; the words it then writes are left out. -/
def editLine (text : List Char) : Except String (List Char) :=
  match applyBackspaces? (dropEnd text) with
  | some typed => .ok typed
  | none => .error ""

namespace FileTree

/-- The files that a user has written, each with its path, among those of the system. What is left of the
input is there as a file too. -/
def around (files : List (String × ByteArray)) (input : ByteArray) : FileTree :=
  (FileTree.system.withInput input).writeAll files

/-- The world of a command that is asked for no log. -/
def world (tree : FileTree) : World Id where
  read path := pure (tree.readText path)
  edit := editLine
  log := .silent

end FileTree

end LoxLex.Command
