/-! The command line: options and a script in any order, and what is wrong with one that cannot be
followed. -/

namespace LoxLex.Command

inductive Word
  /-- A word that is no option; a lone dash is one. -/
  | plain (text : String)
  /-- Two dashes, behind which every word is plain. -/
  | separator
  /-- Two dashes and a name, with the text behind an equals sign if there is one. -/
  | long (name : String) (value : Option String)
  | short (letters : List Char)
  deriving DecidableEq

def Word.ofString (text : String) : Word :=
  match text.toList with
  | ['-', '-'] => .separator
  | '-' :: '-' :: option =>
    let name := String.ofList (option.takeWhile (· ≠ '='))
    match option.dropWhile (· ≠ '=') with
    | [] => .long name none
    | _ :: value => .long name (some (.ofList value))
  | '-' :: letter :: letters => .short (letter :: letters)
  | _ => .plain text

structure Arguments where
  script : Option String := none
  eval : Option String := none
  json : Bool := false
  fancy : Bool := false
  quiet : Bool := false
  version : Bool := false
  deriving DecidableEq

inductive Refusal
  | usage
  | help
  deriving DecidableEq

namespace Arguments

/-- There is room for one script only. -/
def addScript (arguments : Arguments) (path : String) : Except Refusal Arguments :=
  if arguments.script.isSome then .error .usage else .ok { arguments with script := some path }

/-- No option may be given twice. -/
def addEval (arguments : Arguments) (source : String) : Except Refusal Arguments :=
  if arguments.eval.isSome then .error .usage else .ok { arguments with eval := some source }

def addFlag (arguments : Arguments) (name : String) : Except Refusal Arguments :=
  match name with
  | "json" => if arguments.json then .error .usage else .ok { arguments with json := true }
  | "fancy" => if arguments.fancy then .error .usage else .ok { arguments with fancy := true }
  | "quiet" => if arguments.quiet then .error .usage else .ok { arguments with quiet := true }
  | "version" => if arguments.version then .error .usage else .ok { arguments with version := true }
  | "help" => .error .help
  | _ => .error .usage

/-- Takes words from left to right, and stops at the first that is wrong or asks for help. -/
def add (arguments : Arguments) : List String → Except Refusal Arguments
  | [] => .ok arguments
  | word :: rest =>
    match Word.ofString word with
    | .plain path => do add (← arguments.addScript path) rest
    | .separator => rest.foldlM addScript arguments
    | .long "eval" (some source) => do add (← arguments.addEval source) rest
    | .long "eval" none =>
      match rest with
      | [] => .error .usage
      | value :: rest =>
        match Word.ofString value with
        | .plain source => do add (← arguments.addEval source) rest
        | _ => .error .usage
    | .long name none => do add (← arguments.addFlag name) rest
    | .long _ (some _) => .error .usage
    | .short letters => .error (if letters.head? = some 'h' then .help else .usage)

/-- Reads a command line. A script and a source text together are refused once all is read. -/
def ofWords (words : List String) : Except Refusal Arguments := do
  let arguments ← add {} words
  if arguments.script.isSome && arguments.eval.isSome then .error .usage else return arguments

end Arguments

def helpText : String :=
"Lexical scanner for the Lox scripting language

Usage: loxscan [OPTIONS] [SCRIPT]

Arguments:
  [SCRIPT]  Path to a .lox script to scan

Options:
      --eval <EVAL>  Scan inline Lox source
      --json         Print the token stream as JSON
      --fancy        Render errors as annotated source snippets
      --quiet        Only report errors, do not print tokens
      --version      Print version and exit
  -h, --help         Print help
"

end LoxLex.Command
