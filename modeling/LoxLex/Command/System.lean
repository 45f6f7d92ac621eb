import LoxLex.Command.Files

/-! The system around the files of a user: its standard folders, its devices, and what the running
program shows of itself as files. -/

namespace LoxLex.Command

def programName : String := "loxscan"

namespace FileTree

def standardFolders : List Location :=
  [["boot"], ["dev"], ["dev", "pts"], ["dev", "shm"], ["etc"], ["home"], ["media"], ["mnt"], ["opt"],
    ["proc"], ["proc", "self", "task"], ["root"], ["run"], ["run", "lock"], ["srv"], ["sys"], ["tmp"],
    ["usr"], ["usr", "bin"], ["usr", "include"], ["usr", "lib"], ["usr", "lib64"], ["usr", "local"],
    ["usr", "local", "bin"], ["usr", "sbin"], ["usr", "share"], ["usr", "src"], ["var"],
    ["var", "cache"], ["var", "lib"], ["var", "log"], ["var", "spool"], ["var", "tmp"]]

def standardLinks : List (Location × Location) :=
  [(["bin"], ["usr", "bin"]), (["sbin"], ["usr", "sbin"]), (["lib"], ["usr", "lib"]),
    (["lib64"], ["usr", "lib64"]), (["var", "run"], ["run"]), (["var", "lock"], ["run", "lock"]),
    (["dev", "fd"], ["proc", "self", "fd"]), (["proc", "thread-self"], ["proc", "self", "task", "/"])]

def devices : List (Location × Node) :=
  [(["dev", "null"], .file .empty),
    (["dev", "tty"], .blocked (.other "No such device or address (os error 6)"))]

/-- Programs that every system has. They are there to be run, and are no text. -/
def programs : List Location := ["cat", "env", "ls", "sh"].map (["usr", "bin", ·])

/-- Where the running program finds itself, as a whole and as the one thread it has. -/
def processFolders : List Location := [["proc", "self"], ["proc", "self", "task", "/"]]

def processNodes (process : Location) : List (Location × Node) :=
  [(process, .folder), (process ++ ["fd"], .folder), (process ++ ["cwd"], .link .home),
    (process ++ ["root"], .link []), (process ++ ["exe"], .blocked .notText),
    (process ++ ["comm"], .file (programName ++ "\n").toUTF8)]

def system : FileTree where
  nodes := standardFolders.map (·, .folder) ++
    standardLinks.map (fun (location, target) => (location, .link target)) ++ devices ++
    programs.map (·, .blocked .notText) ++ processFolders.flatMap processNodes

def inputLocations : List Location :=
  ["dev", "stdin"] :: processFolders.map (· ++ ["fd", "0"])

def withInput (tree : FileTree) (input : ByteArray) : FileTree :=
  ⟨inputLocations.map (·, .file input) ++ tree.nodes⟩

end FileTree

end LoxLex.Command
