/-! Files, as far as a command that reads them can tell. -/

namespace LoxLex.Command

inductive ReadError
  | missing
  | notFolder
  | isFolder
  | nameTooLong
  | notText
  | other (message : String)
  deriving DecidableEq

def ReadError.message : ReadError → String
  | .missing => "No such file or directory (os error 2)"
  | .notFolder => "Not a directory (os error 20)"
  | .isFolder => "Is a directory (os error 21)"
  | .nameTooLong => "File name too long (os error 36)"
  | .notText => "stream did not contain valid UTF-8"
  | .other message => message

def decode (bytes : ByteArray) : Except ReadError String :=
  match String.fromUTF8? bytes with
  | some text => .ok text
  | none => .error .notText

/-- Where a file or folder is: the names on the way there from the top of all folders. -/
abbrev Location := List String

namespace Location

/-- One step up. Above the top there is nothing but the top. -/
def up (location : Location) : Location := location.dropLast

/-- Where one part of a path leads. Two parts, `.` and the empty one, lead nowhere else. -/
def enter (location : Location) (part : String) : Location :=
  if part = "" || part = "." then location
  else if part = ".." then location.up
  else location ++ [part]

/-- The folder one stands in. Nothing can be read by its name, which no part of a path spells. -/
def home : Location := ["tmp", "/"]

end Location

/-- What stands between the slashes of a path. -/
def pathParts (path : String) : List String := (path.toList.splitOn '/').map .ofList

def isName (part : String) : Bool := !(part = "" || part = "." || part = "..")

/-- No name in a folder has more bytes than this. -/
def nameLimit : Nat := 255

/-- Whether a name in a folder is refused before it is looked for. The folders that only show the state
of the system look for any name. -/
def isTooLong (folder : Location) (name : String) : Bool :=
  nameLimit < name.utf8ByteSize && folder.head? ≠ some "proc" && folder.head? ≠ some "sys"

/-- Every path has fewer bytes than this. -/
def pathLimit : Nat := 4096

inductive Node
  | file (content : ByteArray)
  | folder
  /-- Another way to a folder. A step up from it is a step up from that folder. -/
  | link (target : Location)
  /-- It is there, but cannot be read. -/
  | blocked (error : ReadError)

/-- Files and folders by location, as far as they are known; of two at one location the first counts.
The top and the folder one stands in are always there. -/
structure FileTree where
  nodes : List (Location × Node) := []

namespace FileTree

def node? (tree : FileTree) (location : Location) : Option Node := tree.nodes.lookup location

def add (tree : FileTree) (location : Location) (node : Node) : FileTree :=
  ⟨(location, node) :: tree.nodes⟩

/-- Writes a file along the parts of its path, and makes the folders on the way. -/
def write (tree : FileTree) (content : ByteArray) (here : Location) : List String → FileTree
  | [] => tree
  | [name] => tree.add (here.enter name) (.file content)
  | part :: rest => (tree.add (here.enter part) .folder).write content (here.enter part) rest

def writeAll (tree : FileTree) (files : List (String × ByteArray)) : FileTree :=
  files.foldl (fun tree (path, content) => tree.write content .home (pathParts path)) tree

/-- Follows the parts of a path from a folder. Only folders are passed through, even to turn back. -/
def follow (tree : FileTree) (here : Location) : List String → Except ReadError ByteArray
  | [] => .error .isFolder
  | part :: rest =>
    let next := here.enter part
    if !isName part then tree.follow next rest
    else if isTooLong here part then .error .nameTooLong
    else match tree.node? next with
      | none => .error .missing
      | some .folder => tree.follow next rest
      | some (.link target) => tree.follow target rest
      | some (.file content) => if rest.isEmpty then .ok content else .error .notFolder
      | some (.blocked error) => .error (if rest.isEmpty then error else .notFolder)

def read (tree : FileTree) (path : String) : Except ReadError ByteArray :=
  if pathLimit ≤ path.utf8ByteSize then .error .nameTooLong
  else match pathParts path with
    | [""] => .error .missing
    | "" :: parts => tree.follow [] parts
    | parts => tree.follow .home parts

def readText (tree : FileTree) (path : String) : Except ReadError String :=
  tree.read path >>= decode

end FileTree

end LoxLex.Command
