import EventScript.Command.Session
/-! The command: files, standard streams and the exit code. -/
namespace EventScript.Command

def fileError : IO.Error → FileError
  | .noFileOrDirectory .. => .notFound
  | e => .refused (toString e)

def readFile (path : String) : IO (Except FileError ByteArray) := do
  try
    return .ok (← IO.FS.readBinFile path)
  catch e =>
    return .error (fileError e)

def gather (i : Invocation) (stdin : ByteArray) : IO Input := do
  let named := (i.config.toList ++ i.file.toList)
  let contents ← named.mapM fun path => do return (path, ← readFile path)
  let home ← match ← IO.getEnv "HOME" with
    | none => pure none
    | some directory => do
      match ← readFile (directory ++ "/.dpla/config.yaml") with
      | .ok bytes => pure (some bytes)
      | .error _ => pure none
  return ⟨fun path => (contents.lookup path).getD (.error .notFound), home, stdin⟩

def showFrom (shown : Nat) (text : String) : IO Unit := do
  let out ← IO.getStdout
  out.putStr (String.ofList (text.toList.drop shown))
  out.flush

/-- Reports to the user, asking for answers as the program needs them. The program
runs again with each new answer, and only what is new is shown. -/
partial def converse (i : Invocation) (input : Input) (shown : Nat) : IO Report := do
  let r := report input i
  match r.question with
  | none => do
    showFrom shown r.output
    return r
  | some text => do
    showFrom shown text
    let line ← try
        pure (← (← IO.getStdin).getLine).toUTF8
      catch _ => pure ⟨#[0xff, 0x0a]⟩
    if line.isEmpty then do
      showFrom text.length r.output
      return r
    else converse i { input with stdin := input.stdin ++ line } text.length

def store (r : Report) : IO Report := do
  match r.written with
  | none => return r
  | some (path, text) =>
    try
      IO.FS.writeFile path text
      return r
    catch e =>
      return { r with failure := some (.file (fileError e)) }

partial def readAll (input : IO.FS.Stream) (bytes : ByteArray) : IO ByteArray := do
  let more ← input.read 65536
  if more.isEmpty then return bytes else readAll input (bytes ++ more)

end EventScript.Command

open EventScript.Command in
def main (arguments : List String) : IO UInt32 := do
  match readArguments arguments with
  | .ok i => do
    let r ← match i.file, i.action with
      | some _, .run .. => do converse i (← gather i .empty) 0
      | some _, _ => do
        let r := report (← gather i .empty) i
        showFrom 0 r.output
        pure r
      | none, _ => do
        let r := report (← gather i (← readAll (← IO.getStdin) .empty)) i
        showFrom 0 r.output
        pure r
    let r ← store r
    IO.eprint r.diagnostics
    return r.exitCode.toUInt32
  | .error (.help topic) => do
    IO.print topic.helpText
    return 0
  | .error .version => do
    IO.print version
    return 0
  | .error .usage => do
    IO.eprint Topic.command.helpText
    return 2
