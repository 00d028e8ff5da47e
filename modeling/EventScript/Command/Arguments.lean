import EventScript.Text.Basic
/-! The arguments of the command: options before and after a subcommand, and at
most one file. They are read from left to right, and the first fault, or the
first request for help or the version, ends the reading. -/
namespace EventScript.Command

inductive Opt where
  | verbose
  | config
  | noPreamble
  | indent
  | output
  | json
  | key
  | interactive
  | help
  | version
  deriving DecidableEq

namespace Opt

def long : Opt → String
  | verbose => "verbose"
  | config => "config"
  | noPreamble => "no-preamble"
  | indent => "indent"
  | output => "output"
  | json => "json"
  | key => "key"
  | interactive => "interactive"
  | help => "help"
  | version => "version"

def short? : Opt → Option Char
  | verbose => some 'v'
  | output => some 'o'
  | help => some 'h'
  | version => some 'V'
  | _ => none

def value? : Opt → Option String
  | config => some "PATH"
  | indent => some "N"
  | output => some "OUT"
  | key => some "KEY"
  | _ => none

def repeats : Opt → Bool
  | key => true
  | _ => false

end Opt

inductive Subcommand where
  | compile
  | tokens
  | ast
  | run
  deriving DecidableEq

namespace Subcommand

def all : List Subcommand := [compile, tokens, ast, run]

def name : Subcommand → String
  | compile => "compile"
  | tokens => "tokens"
  | ast => "ast"
  | run => "run"

end Subcommand

inductive Topic where
  | command
  | subcommand (s : Subcommand)
  | help
  deriving DecidableEq

namespace Topic

def options : Topic → List Opt
  | command => [.verbose, .config, .help, .version]
  | subcommand .compile => [.noPreamble, .verbose, .config, .indent, .output, .help]
  | subcommand .tokens | subcommand .ast => [.json, .verbose, .config, .help]
  | subcommand .run => [.key, .verbose, .config, .interactive, .help]
  | help => []

end Topic

inductive Stop where
  | usage
  | help (topic : Topic)
  | version
  deriving DecidableEq

def natural? (s : String) : Option Nat := Text.word? 10 (Text.dropPlus s.toList)

def Opt.accepts (o : Opt) (value : String) : Bool :=
  match o with
  | .indent => (natural? value).isSome
  | .config | .output => !value.isEmpty
  | _ => true

abbrev Given := List (Opt × String)

def record (given : Given) (o : Opt) (value : String) : Except Stop Given :=
  if !o.repeats && given.any (·.1 = o) then .error .usage
  else if !o.accepts value then .error .usage
  else .ok (given ++ [(o, value)])

def take (topic : Topic) (given : Given) (o : Opt) (attached : Option String) :
    Except Stop (Given × Option Opt) :=
  match o with
  | .help => .error (.help topic)
  | .version => .error .version
  | o =>
    match o.value?, attached with
    | some _, some value => do .ok (← record given o value, none)
    | some _, none => .ok (given, some o)
    | none, some _ => .error .usage
    | none, none => do .ok (← record given o "", none)

def cluster (topic : Topic) (given : Given) : List Char → Except Stop (Given × Option Opt)
  | [] => .ok (given, none)
  | c :: cs =>
    match topic.options.find? (·.short? = some c) with
    | none => .error .usage
    | some o =>
      if o.value?.isSome then
        match cs with
        | [] => take topic given o none
        | '=' :: value => take topic given o (some (String.ofList value))
        | value => take topic given o (some (String.ofList value))
      else do
        let (given, _) ← take topic given o none
        cluster topic given cs

def longOption (topic : Topic) (given : Given) (cs : List Char) :
    Except Stop (Given × Option Opt) :=
  let name := String.ofList (cs.takeWhile (· != '='))
  let attached := match cs.dropWhile (· != '=') with
    | [] => none
    | _ :: value => some (String.ofList value)
  match topic.options.find? (·.long = name) with
  | none => .error .usage
  | some o => take topic given o attached

/-- Options up to the first other argument. A waiting option takes no argument that
starts with a dash, but for a lone one. -/
def readOptions (topic : Topic) (given : Given) (waiting : Option Opt) :
    List String → Except Stop (Given × List String)
  | [] => if waiting.isSome then .error .usage else .ok (given, [])
  | a :: rest =>
    match waiting, a.toList with
    | some o, cs =>
      if cs.head? = some '-' ∧ cs ≠ ['-'] then .error .usage
      else do readOptions topic (← record given o a) none rest
    | none, ['-', '-'] => .ok (given, a :: rest)
    | none, '-' :: '-' :: cs => do
      let (given, waiting) ← longOption topic given cs
      readOptions topic given waiting rest
    | none, '-' :: c :: cs => do
      let (given, waiting) ← cluster topic given (c :: cs)
      readOptions topic given waiting rest
    | none, _ => .ok (given, a :: rest)

def fileName (s : String) : Except Stop String := if s.isEmpty then .error .usage else .ok s

def readRest (topic : Topic) (arguments : List String) :
    Except Stop (Given × Option String) := do
  match ← readOptions topic [] none arguments with
  | (given, []) | (given, ["--"]) => .ok (given, none)
  | (given, ["--", file]) => do .ok (given, some (← fileName file))
  | (_, "--" :: _) => .error .usage
  | (given, file :: rest) => do
    let file ← fileName file
    match ← readOptions topic given none rest with
    | (given, []) | (given, ["--"]) => .ok (given, some file)
    | _ => .error .usage

inductive Action where
  | compile (preamble : Bool) (indent : Option Nat) (output : Option String)
  | tokens (json : Bool)
  | ast (json : Bool)
  | run (keys : List String) (interactive : Bool)
  deriving DecidableEq

structure Invocation where
  verbose : Bool
  config : Option String
  file : Option String
  action : Action
  deriving DecidableEq

namespace Given

def has (given : Given) (o : Opt) : Bool := given.any (·.1 = o)

def value? (given : Given) (o : Opt) : Option String := given.lookup o

def values (given : Given) (o : Opt) : List String :=
  given.filterMap fun (p, value) => if p = o then some value else none

end Given

def action (s : Subcommand) (given : Given) : Action :=
  match s with
  | .compile => .compile (!given.has .noPreamble) ((given.value? .indent).bind natural?)
      (given.value? .output)
  | .tokens => .tokens (given.has .json)
  | .ast => .ast (given.has .json)
  | .run => .run (given.values .key) (given.has .interactive)

def helpTopic : List String → Except Stop Topic
  | [] => .ok .command
  | [name] =>
    if name = "help" then .ok .help
    else match Subcommand.all.find? (·.name = name) with
      | some s => .ok (.subcommand s)
      | none => .error .usage
  | _ => .error .usage

/-- Reads all arguments. Options that both levels know may stand at either; the
value nearer to the end wins. -/
def readArguments (arguments : List String) : Except Stop Invocation := do
  let (before, rest) ← readOptions .command [] none arguments
  match rest with
  | [] | "--" :: _ => .error .usage
  | "help" :: names => do .error (.help (← helpTopic names))
  | name :: rest =>
    match Subcommand.all.find? (·.name = name) with
    | none => .error .usage
    | some s => do
      let (after, file) ← readRest (.subcommand s) rest
      .ok {
        verbose := before.has .verbose || after.has .verbose
        config := after.value? .config <|> before.value? .config
        file
        action := action s after }

end EventScript.Command
