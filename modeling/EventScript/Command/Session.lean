import EventScript.Command.Help
import EventScript.Command.Folder
import EventScript.Config
import EventScript.Evaluation
import EventScript.Listing.Tree
/-! What the command does with what it is given: everything it prints, notes and
writes is put into a report. -/
namespace EventScript.Command

inductive ConfigFault where
  | file (e : FileError)
  | invalid
  deriving DecidableEq

namespace ConfigFault

def message : ConfigFault → String
  | file e => e.message
  | invalid => "invalid configuration"

end ConfigFault

inductive Failure where
  | config (path : String) (fault : ConfigFault)
  | file (e : FileError)
  | source (e : SyntaxError)
  | program (e : EvalError)
  | overflow
  | terminal
  deriving DecidableEq

namespace Failure

def message : Failure → String
  | config path fault => "cannot load config " ++ path ++ ": " ++ fault.message
  | file e => e.message
  | source e => e.display
  | program e => e.display
  | overflow => "stack overflow"
  | terminal => "no terminal"

end Failure

structure Input where
  read : String → Except FileError ByteArray
  home : Option ByteArray
  stdin : ByteArray

structure Report where
  output : String
  question : Option String
  notes : List String
  written : Option (String × String)
  failure : Option Failure

namespace Report

def empty : Report := ⟨"", none, [], none, none⟩

def exitCode (r : Report) : Nat := if r.failure.isSome then 1 else 0

def diagnostics (r : Report) : String :=
  String.join (r.notes.map (· ++ "\n")) ++
    (match r.failure with
      | some f => "error: " ++ f.message ++ "\n"
      | none => "")

end Report

abbrev Session := EStateM Failure Report

def note (verbose : Bool) (line : String) : Session Unit :=
  if verbose then modify fun r => { r with notes := r.notes ++ ["dpla: " ++ line] } else pure ()

def print (text : String) : Session Unit := modify fun r => { r with output := r.output ++ text }

def orFail {α ε : Type} (f : ε → Failure) : Except ε α → Session α
  | .ok a => pure a
  | .error e => throw (f e)

def decode (bytes : ByteArray) : Except FileError String :=
  match String.fromUTF8? bytes with
  | some s => .ok s
  | none => .error .notText

def loadConfig (bytes : Except FileError ByteArray) : Except ConfigFault Config :=
  match bytes.bind decode with
  | .error e => .error (.file e)
  | .ok text =>
    match Config.read? text with
    | some c => .ok c
    | none => .error .invalid

/-- The named configuration has to load; the one in the home directory may fail. -/
def config (input : Input) : Option String → Session Config
  | some path => orFail (.config path) (loadConfig (input.read path))
  | none =>
    match input.home.map fun bytes => loadConfig (.ok bytes) with
    | some (.ok c) => pure c
    | _ => pure .default

def source (input : Input) : Option String → Session String
  | some path => orFail .file (do decode (← input.read path))
  | none => orFail .file (decode input.stdin)

def parseSource (input : Input) (verbose : Bool) (file : Option String) : Session (List Node) := do
  let tokens ← orFail .source (tokenize (← source input file))
  note verbose s!"{tokens.length} tokens"
  let program ← orFail .source (parseTokens tokens)
  note verbose s!"{program.length} top-level declarations"
  pure program

/-- The lines of standard input as answers: without their ends, and withheld if they
are not text. -/
def answersOf (bytes : ByteArray) : List (Option String) :=
  let lines := bytes.toList.foldr (fun b (lines : List (List UInt8)) =>
    match lines with
    | [] => [[b]]
    | line :: rest => if b = 10 then [b] :: lines else (b :: line) :: rest) []
  lines.map fun line => (String.fromUTF8? ⟨line.toArray⟩).map fun s =>
    String.ofList (Text.dropEndWhile (fun c => c == '\n' || c == '\r') s.toList)

def transcript (interactive : Bool) (exchanges : List Exchange) : String :=
  String.join (exchanges.map fun
    | .asked message => if message.isEmpty then "" else message ++ " "
    | .shown text =>
      if interactive then
        String.ofList (text.toList.flatMap fun c => if c = '\n' then ['\r', c] else [c]) ++ "\r\n"
      else text ++ "\n")

def present (interactive : Bool) (answers : Nat) (console : Console) : Session Unit :=
  let exchanges := console.transcript.toList
  modify fun r => { r with
    output := transcript interactive exchanges
    question := (Console.untilQuestion answers exchanges).map (transcript interactive) }

def advance {α : Type} (show' : Console → Session Unit) (x : Eval α) (m : Machine) :
    Session (α × Machine) :=
  match x m with
  | .ok a m => do
    show' m.console
    pure (a, m)
  | .error halt m => do
    show' m.console
    match halt with
    | .error e => throw (.program e)
    | .overflow => throw .overflow

def pressKeys (verbose : Bool) (show' : Console → Session Unit) :
    List String → Machine → Session Unit
  | [], _ => pure ()
  | key :: keys, m => do
    let (count, m) ← advance show' (Machine.pressKey key) m
    note verbose (keyEvent key ++ s!" ran {count} callbacks")
    pressKeys verbose show' keys m

/- How often an event may dispatch itself before a run is given up. -/
def patience : Nat := 10000

def runProgram (verbose interactive : Bool) (keys : List String) (answers : List (Option String))
    (program : List Node) : Session Unit := do
  let show' := present interactive answers.length
  let (_, m) ← advance show' (Machine.load program) (Machine.start answers patience)
  let types := ", ".intercalate m.registry.eventTypes
  note verbose (s!"{m.registry.size} callbacks registered (" ++ types ++ ")")
  let (count, m) ← advance show' Machine.launch m
  note verbose s!"onLaunch ran {count} callbacks"
  pressKeys verbose show' keys m
  if interactive then throw .terminal

def perform (input : Input) (i : Invocation) : Session Unit := do
  let config ← config input i.config
  let verbose := i.verbose || config.verbose
  match i.action with
  | .compile preamble indent output => do
    let program ← parseSource input verbose i.file
    let options : EmitOptions := ⟨preamble && config.preamble, indent.getD config.indent⟩
    let text := Emit.program options program
    note verbose s!"generated {text.utf8ByteSize} bytes"
    match output with
    | some path => modify fun r => { r with written := some (path, text) }
    | none => print text
  | .tokens json => do
    let tokens ← orFail .source (tokenize (← source input i.file))
    if json then print ((Json.list (tokens.map Token.toJson)).pretty ++ "\n")
    else print (String.join (tokens.map fun t => t.row ++ "\n"))
  | .ast json => do
    let program ← parseSource input verbose i.file
    if json then print ((Json.list (Node.toJsonAll program)).pretty ++ "\n")
    else print ((Outline.list (Node.outlineAll program)).pretty ++ "\n")
  | .run keys interactive => do
    let program ← parseSource input verbose i.file
    let answers := if i.file.isSome then answersOf input.stdin else []
    runProgram verbose interactive keys answers program

def report (input : Input) (i : Invocation) : Report :=
  match perform input i .empty with
  | .ok _ r => r
  | .error f r => { r with failure := some f }

def settle (folder : Folder) (r : Report) : Report × Folder :=
  match r.written with
  | none => (r, folder)
  | some (path, text) =>
    match folder.write path text.toUTF8 with
    | .ok folder => (r, folder)
    | .error e => ({ r with written := none, failure := some (.file e) }, folder)

inductive Outcome where
  | done (r : Report)
  | shown (text : String)
  | misused

def execute (input : Input) (arguments : List String) : Outcome :=
  match readArguments arguments with
  | .ok i => .done (report input i)
  | .error (.help topic) => .shown topic.helpText
  | .error .version => .shown version
  | .error .usage => .misused

end EventScript.Command
