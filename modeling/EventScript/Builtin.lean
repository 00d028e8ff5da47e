import EventScript.Value.Numeric
import EventScript.Machine
/-! The built-in functions. Missing arguments are undefined and extra ones are
ignored. -/
namespace EventScript.Builtin

def maxRange : Nat := 4294967295

/-- The numbers from 0 up; a value that is no number gives one slot. -/
def rangeItems : Value → Except EvalError (List Value)
  | .number n =>
    if n.isNegative || !n.isWhole || maxRange < n.floorMagnitude then .error .badLength
    else .ok ((List.range n.floorMagnitude).map fun i => .number (.ofNat i))
  | _ => .ok [.number (.zero false)]

def showText (text : String) : Eval Unit := fun m =>
  .ok () { m with console := m.console.tell text }

def askText (message : String) : Eval (Option String) := fun m =>
  let (answer, console) := m.console.ask message
  .ok answer { m with console }

def setLanguage (language : Value) : Eval Unit := fun m => .ok () { m with language }

def call (b : Builtin) (arguments : List Value) : Eval Value :=
  let first := arguments.headD .undefined
  match b with
  | print | commandPrint => do
    showText first.toText
    pure .undefined
  | lang => do
    setLanguage first
    pure .undefined
  | input => do
    let message := match first with
      | .undefined => ""
      | other => other.toText
    match ← askText message with
    | some answer => pure (.text answer)
    | none => pure .null
  | int =>
    let n := first.toNumber
    if n.isWhole then pure (.number n) else .fail (.notInteger first.toText)
  | range =>
    match rangeItems first with
    | .ok items => Eval.withStore (·.newList items)
    | .error e => .fail e
  | register => do
    Eval.register first.toText (arguments.getD 1 .undefined)
    pure .undefined
  | dispatch => .fail .dispatchAlone

end EventScript.Builtin
