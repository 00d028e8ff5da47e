import EventScript.Store
import EventScript.Registry
import EventScript.Console
/-! The state of a running program, and how its steps can end. A machine counts the calls in
progress, and says how often the event `undefined` may dispatch itself. -/
namespace EventScript

inductive ErrorKind where
  | error
  | reference
  | type
  | range
  deriving DecidableEq

namespace ErrorKind

def label : ErrorKind → String
  | error => "Error"
  | reference => "ReferenceError"
  | type => "TypeError"
  | range => "RangeError"

end ErrorKind

structure EvalError where
  kind : ErrorKind
  message : String
  line : Option Nat
  deriving DecidableEq

namespace EvalError

def make (kind : ErrorKind) (message : String) : EvalError := ⟨kind, message, none⟩

def atLine (e : EvalError) (line : Nat) : EvalError := { e with line := e.line <|> some line }

def display (e : EvalError) : String :=
  (match e.line with
    | some line => s!"[line {line}] "
    | none => "") ++ e.kind.label ++ ": " ++ e.message

def notDefined (name : String) : EvalError := make .reference (name ++ " is not defined")

def notFunction (name : String) : EvalError := make .type (name ++ " is not a function")

def notIterable (text : String) : EvalError := make .type (text ++ " is not iterable")

def notInteger (text : String) : EvalError :=
  make .error ("Cannot convert " ++ text ++ " to integer")

def badLength : EvalError := make .range "Invalid array length"

def callLimit : EvalError := make .range "Maximum call stack size exceeded"

def illegalReturn : EvalError := make .error "Illegal return statement"

def dispatchAlone : EvalError := make .type (Builtin.dispatch.name ++ " needs an interpreter")

end EvalError

/-- Why a computation stops: the program fails, or the event `undefined` has dispatched itself
more often than the machine has patience for. -/
inductive Halt where
  | error (e : EvalError)
  | overflow
  deriving DecidableEq

structure Machine where
  store : Store
  registry : Registry Value
  language : Value
  console : Console
  depth : Nat
  patience : Nat

namespace Machine

def initialBindings : List (String × Value) :=
  [("true", .bool true), ("false", .bool false), ("null", .null), ("undefined", .undefined)] ++
    Builtin.all.map fun b => (b.name, .builtin b)

def globals : Scope := ⟨0, []⟩

def start (answers : List (Option String)) (patience : Nat) : Machine where
  store := { Store.empty with frames := #[⟨true, initialBindings⟩] }
  registry := .empty
  language := .undefined
  console := .withAnswers answers
  depth := 0
  patience := patience

end Machine

/- A failure keeps what was done before it. -/
abbrev Eval := EStateM Halt Machine

namespace Eval

variable {α : Type}

def fail (e : EvalError) : Eval α := fun m => .error (.error e) m

def atLine (line : Nat) (x : Eval α) : Eval α := fun m =>
  match x m with
  | .error (.error e) m => .error (.error (e.atLine line)) m
  | other => other

def deeper (x : Eval α) : Eval α := fun m =>
  match x { m with depth := m.depth + 1 } with
  | .ok a m => .ok a { m with depth := m.depth - 1 }
  | .error e m => .error e { m with depth := m.depth - 1 }

def withStore (f : Store → α × Store) : Eval α := fun m =>
  let (a, store) := f m.store
  .ok a { m with store }

def changeStore (f : Store → Store) : Eval Unit := fun m => .ok () { m with store := f m.store }

def lookup (scope : Scope) (name : String) : Eval Value := fun m =>
  match m.store.get? scope name with
  | some value => .ok value m
  | none => .error (.error (.notDefined name)) m

def register (event : String) (listener : Value) : Eval Unit := fun m =>
  .ok () { m with registry := m.registry.register event listener }

end Eval

end EventScript
