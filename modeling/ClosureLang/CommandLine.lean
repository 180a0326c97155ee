import ClosureLang.Program
import ClosureLang.Tree.Outline

namespace ClosureLang

/-- What the arguments ask for. -/
structure Options where
  /-- The script is the path of a file and not the text itself. -/
  file : Bool := false
  tokens : Bool := false
  ast : Bool := false
  verbosity : Nat := 0
  script : Option String := none

/-- Why the arguments make no sense. -/
inductive UsageError where
  | unknown (argument : String)
  | repeated (option : String)
  | missingScript

def UsageError.message : UsageError → String
  | .unknown argument => "error: unexpected argument '" ++ argument ++ "' found"
  | .repeated option =>
    "error: the argument '" ++ option ++ "' cannot be used multiple times"
  | .missingScript => "error: the following required arguments were not provided:\n  <CONTENTS>"

inductive Request where
  | help
  | version
  | run (options : Options) (script : String)

namespace Options

/-- A switch of the command line; it may be given once, except for the verbosity. -/
inductive Switch where
  | file | tokens | ast | verbose | help | version
deriving Repr, DecidableEq

def long? : String → Option Switch
  | "--file" => some .file
  | "--tokens" => some .tokens
  | "--ast" => some .ast
  | "--verbose" => some .verbose
  | "--help" => some .help
  | "--version" => some .version
  | _ => none

def short? : Char → Option Switch
  | 'f' => some .file
  | 'v' => some .verbose
  | 'h' => some .help
  | 'V' => some .version
  | _ => none

/-- What reading arguments gives: more options, a request that is met at once, or a mistake. -/
abbrev Reading := Except UsageError (Options ⊕ Request)

def turnOn (o : Options) : Switch → Reading
  | .file => if o.file then .error (.repeated "--file") else .ok (.inl { o with file := true })
  | .tokens =>
    if o.tokens then .error (.repeated "--tokens") else .ok (.inl { o with tokens := true })
  | .ast => if o.ast then .error (.repeated "--ast") else .ok (.inl { o with ast := true })
  | .verbose => .ok (.inl { o with verbosity := o.verbosity + 1 })
  | .help => .ok (.inr .help)
  | .version => .ok (.inr .version)

/-- Turns on a bundle of one-letter switches, from left to right. -/
def turnOnAll (o : Options) : List Char → Reading
  | [] => .ok (.inl o)
  | c :: rest =>
    match short? c with
    | none => .error (.unknown ("-" ++ c.toString))
    | some switch =>
      match o.turnOn switch with
      | .ok (.inl o) => o.turnOnAll rest
      | result => result

/-- Takes an argument as the script, of which there is one. -/
def take (o : Options) (argument : String) : Reading :=
  if o.script.isSome then .error (.unknown argument)
  else .ok (.inl { o with script := some argument })

/-- Reads one argument that stands before any `--`. -/
def readArgument (o : Options) (argument : String) : Reading :=
  match argument.toList with
  | '-' :: '-' :: _ =>
    match long? argument with
    | some switch => o.turnOn switch
    | none => .error (.unknown argument)
  | '-' :: c :: rest => o.turnOnAll (c :: rest)
  | _ => o.take argument

/-- What all arguments together ask for. -/
def close (o : Options) : Except UsageError Request :=
  match o.script with
  | some script => .ok (.run o script)
  | none => .error .missingScript

/-- Reads arguments in order; behind `--` every argument is the script. -/
def read (o : Options) (literal : Bool) : List String → Except UsageError Request
  | [] => o.close
  | argument :: rest =>
    if !literal && argument == "--" then o.read true rest
    else
      match if literal then o.take argument else o.readArgument argument with
      | .ok (.inl o) => o.read literal rest
      | .ok (.inr request) => .ok request
      | .error e => .error e

end Options

def Request.ofArguments (args : List String) : Except UsageError Request :=
  ({} : Options).read false args

/-- The file to read before the request can be met. -/
def Request.path? (args : List String) : Option String :=
  match Request.ofArguments args with
  | .ok (.run options script) => if options.file then some script else none
  | _ => none

/-- Why a file could not be read: the system refused, or its bytes are no text. -/
inductive ReadFailure where
  | refused (description : String) (code : Nat)
  | notText

def ReadFailure.reason : ReadFailure → String
  | .refused description code => description ++ " (os error " ++ toString code ++ ")"
  | .notText => "stream did not contain valid UTF-8"

/-- What a run of the command leaves behind. -/
structure Report where
  code : Nat
  stdout : String
  stderr : String

namespace Report

def lines (texts : List String) : String :=
  String.join (texts.map (· ++ "\n"))

/-- Runs a script, with what the options list in front of its own output. -/
def ofSource (steps : Nat) (options : Options) (source : String) : Option Report :=
  let scanned := scan source
  let complaints := lines (scanned.errors.map LexicalError.message)
  let tokens := if options.tokens then lines (scanned.tokens.map Token.listing) else ""
  let parsed := parse scanned.tokens
  if parsed.isOk then
    let ast := if options.ast then lines (parsed.statements.map Stmt.listing) else ""
    let console := World.initial.printingTo (.console (tokens ++ ast))
    (console.interpret steps parsed.statements).map fun
      | (.ok (), w) => ⟨0, w.output.text, complaints⟩
      | (.error f, w) => ⟨70, w.output.text, complaints ++ lines [f.message]⟩
  else some ⟨65, tokens, complaints ++ lines (parsed.errors.map SyntaxError.message)⟩

def version : String := "cosmo 0.1.0\n"

def help : String :=
  lines
    ["A small dynamically-typed scripting language with closures",
     "",
     "Usage: cosmo [OPTIONS] <CONTENTS>",
     "",
     "Arguments:",
     "  <CONTENTS>  ",
     "",
     "Options:",
     "  -f, --file        Treat the argument as a path to a script file instead of the script",
     "      --tokens      Print the scanned tokens before running",
     "      --ast         Print the parsed statements before running",
     "  -v, --verbose...  Raise log verbosity (-v for info, -vv for debug)",
     "  -h, --help        Print help",
     "  -V, --version     Print version"]

/-- Meets a request, with files read by `readFile`. -/
def ofRequest (steps : Nat) (readFile : String → Except ReadFailure String) :
    Except UsageError Request → Option Report
  | .error e => some ⟨2, "", lines [e.message]⟩
  | .ok .help => some ⟨0, help, ""⟩
  | .ok .version => some ⟨0, version, ""⟩
  | .ok (.run options script) =>
    if options.file then
      match readFile script with
      | .ok source => ofSource steps options source
      | .error e =>
        some ⟨74, "", "Failed to read the input file '" ++ script ++ "': " ++ e.reason ++ "\n"⟩
    else ofSource steps options script

/-- Runs the command with the given arguments. -/
def ofArguments (steps : Nat) (readFile : String → Except ReadFailure String)
    (args : List String) : Option Report :=
  ofRequest steps readFile (Request.ofArguments args)

end Report

end ClosureLang
