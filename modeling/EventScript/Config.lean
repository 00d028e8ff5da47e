import EventScript.Emit
import EventScript.Yaml.Document
import EventScript.Text.Basic
/-! Defaults of the command, kept in a YAML file. -/
namespace EventScript

structure Config where
  preamble : Bool
  indent : Nat
  verbose : Bool
  deriving DecidableEq

namespace Config

def default : Config := ⟨true, 2, false⟩

def emitOptions (c : Config) : EmitOptions := ⟨c.preamble, c.indent⟩

def boolText (b : Bool) : String := if b then "true" else "false"

def save (c : Config) : String :=
  "emit_preamble: " ++ boolText c.preamble ++ "\nindent: " ++ toString c.indent ++
    "\nverbose: " ++ boolText c.verbose ++ "\n"

def textOf? (tag : String) : Yaml → Option String
  | .scalar .plain _ text => some text
  | .scalar .literal t text => if t = some ("tag:yaml.org,2002:" ++ tag) then some text else none
  | _ => none

def bool? (y : Yaml) : Option Bool := do
  match ← textOf? "bool" y with
  | "true" | "True" | "TRUE" => some true
  | "false" | "False" | "FALSE" => some false
  | _ => none

/-- A leading zero makes a run of digits a text. -/
def isPadded : List Char → Bool
  | '0' :: rest => !rest.isEmpty && rest.all Char.isDigit
  | _ => false

def natural? (y : Yaml) : Option Nat := do
  match Text.dropPlus (← textOf? "int" y).toList with
  | '0' :: 'x' :: rest => Text.word? 16 rest
  | '0' :: 'o' :: rest => Text.word? 8 rest
  | '0' :: 'b' :: rest => Text.word? 2 rest
  | cs => if isPadded cs then none else Text.word? 10 cs

structure Fields where
  preamble : Option Bool
  indent : Option Nat
  verbose : Option Bool

def readEntry (root : Yaml) (f : Fields) (entry : Yaml × Yaml) : Option Fields := do
  match ← root.target? entry.1 with
  | .scalar _ _ name =>
    let value := root.target? entry.2
    if name = "emit_preamble" then
      if f.preamble.isSome then none else some { f with preamble := some (← bool? (← value)) }
    else if name = "indent" then
      if f.indent.isSome then none else some { f with indent := some (← natural? (← value)) }
    else if name = "verbose" then
      if f.verbose.isSome then none else some { f with verbose := some (← bool? (← value)) }
    else some f
  | _ => none

def ofFields (f : Fields) : Config :=
  ⟨f.preamble.getD default.preamble, f.indent.getD default.indent, f.verbose.getD default.verbose⟩

def ofYaml? (root : Yaml) : Option Config := do
  match ← root.target? root with
  | .scalar .plain _ "" => some default
  | .mapping entries => (entries.foldlM (readEntry root) ⟨none, none, none⟩).map ofFields
  | _ => none

def read? (text : String) : Option Config := do ofYaml? (← Yaml.read? text)

end Config

end EventScript
