import EventScript.Builtin
import EventScript.Node.Hoisting
/-! Running a program. Evaluation follows the tree and is given the way to call a
value; calling a program function spends one of the calls still allowed, so the
two together end. -/
namespace EventScript

def maxCalls : Nat := 64

inductive Flow where
  | next (value : Value)
  | returned (value : Value)

namespace Flow

def operand : Flow → Value
  | next value => value
  | returned _ => .undefined

def result : Flow → Value
  | next _ => .undefined
  | returned value => value

end Flow

abbrev Invoke := (name : String) → (callee : Value) → (arguments : List Value) → Eval Value

namespace Evaluation

/-- A statement gives its failures its line; an operand leaves that to the
statement around it. -/
def located {α : Type} (position : Position) (line : Nat) (x : Eval α) : Eval α :=
  match position with
  | .statement => Eval.atLine line x
  | .operand => x

def itemsOf : Value → Eval (List Value)
  | .list _ items => pure items
  | .text s => pure (s.toList.map fun c => .text c.toString)
  | other => .fail (.notIterable other.toText)

def forItems (run : Value → Eval Flow) : List Value → Eval Flow
  | [] => pure (.next .undefined)
  | item :: items => do
    match ← run item with
    | .returned value => pure (.returned value)
    | .next _ => forItems run items

def declareFunction (scope : Scope) (name : String) (parameters : List String) (body : List Node) :
    Eval Unit :=
  Eval.changeStore fun s =>
    let (value, s) := s.newFunction ⟨name, parameters, body, scope⟩
    s.declare scope name value

def declareFunctions (scope : Scope) : List Node → Eval Unit
  | [] => pure ()
  | .function _ name parameters body :: ns => do
    declareFunction scope name parameters body
    declareFunctions scope ns
  | _ :: ns => declareFunctions scope ns

def enterTurn (scope : Scope) (name : String) (item : Value) : Eval Scope :=
  Eval.withStore fun s =>
    let (turn, s) := s.enter false scope.path
    (turn, s.define turn.frame name item)

mutual

def perform (invoke : Invoke) (position : Position) : Node → Scope → Eval Flow
  | .literal _ value, _ => pure (.next (.ofLiteral value))
  | .name line name, scope => located position line do
    let value ← Eval.lookup scope name
    pure (.next value)
  | .binary line op left right, scope => located position line do
    let a ← perform invoke .operand left scope
    let b ← perform invoke .operand right scope
    pure (.next (op.apply a.operand b.operand))
  | .assign line target value, scope => located position line do
    let flow ← perform invoke .operand value scope
    match position with
    | .statement => Eval.changeStore (·.declare scope target flow.operand)
    | .operand => Eval.changeStore (·.assign scope target flow.operand)
    pure (.next flow.operand)
  | .call line callee arguments, scope => located position line do
    let target ← Eval.lookup scope callee
    let values ← operands invoke arguments scope
    let value ← invoke callee target values
    pure (.next value)
  | .function line name parameters body, scope => Eval.atLine line do
    declareFunction scope name parameters body
    pure (.next .undefined)
  | .cond line condition body branches otherwise, scope => Eval.atLine line do
    let test ← perform invoke .operand condition scope
    if test.operand.isTruthy then do
      declareFunctions scope body
      statements invoke body scope
    else
      choose invoke branches scope do
        declareFunctions scope otherwise
        statements invoke otherwise scope
  | .loop line name source body, scope => Eval.atLine line do
    let flow ← perform invoke .operand source scope
    let items ← itemsOf flow.operand
    forItems (fun item => do
      let turn ← enterTurn scope name item
      declareFunctions turn body
      statements invoke body turn) items
  | .handler line event body, scope => Eval.atLine line do
    Eval.register event (.function 0 ⟨"", [], body, scope⟩)
    pure (.next .undefined)
  | .result line value, scope => Eval.atLine line do
    let flow ← perform invoke .operand value scope
    pure (.returned flow.operand)

def operands (invoke : Invoke) : List Node → Scope → Eval (List Value)
  | [], _ => pure []
  | n :: ns, scope => do
    let flow ← perform invoke .operand n scope
    let values ← operands invoke ns scope
    pure (flow.operand :: values)

def statements (invoke : Invoke) : List Node → Scope → Eval Flow
  | [], _ => pure (.next .undefined)
  | n :: ns, scope =>
    if n.isFunction then statements invoke ns scope
    else do
      match ← perform invoke .statement n scope with
      | .returned value => pure (.returned value)
      | .next _ => statements invoke ns scope

def choose (invoke : Invoke) : List (Branch Node) → Scope → Eval Flow → Eval Flow
  | [], _, otherwise => otherwise
  | ⟨condition, body⟩ :: rest, scope, otherwise => do
    let test ← perform invoke .operand condition scope
    if test.operand.isTruthy then do
      declareFunctions scope body
      statements invoke body scope
    else choose invoke rest scope otherwise

end

def hoistNode (scope : Scope) (s : Store) : Node → Store
  | .function _ name parameters body =>
    let (value, s) := s.newFunction ⟨name, parameters, body, scope⟩
    s.define scope.frame name value
  | n => n.declaredNames.foldl (fun s name => s.hoist scope name) s

def hoist (scope : Scope) (s : Store) (body : List Node) : Store := body.foldl (hoistNode scope) s

def runBody (invoke : Invoke) (body : List Node) (scope : Scope) : Eval Flow := do
  Eval.changeStore (hoist scope · body)
  statements invoke body scope

def bindParameters (s : Store) (frame : Nat) : List String → List Value → Store
  | [], _ => s
  | name :: names, values =>
    bindParameters (s.define frame name (values.headD .undefined)) frame names values.tail

def enterCall (closure : Closure) (arguments : List Value) : Eval Scope :=
  Eval.withStore fun s =>
    let (scope, s) := s.enter true closure.scope.path
    (scope, bindParameters s scope.frame closure.parameters arguments)

/- A dispatch that is given no event names the event `undefined`. -/
def notify (call : Closure → List Value → Eval Value) (redispatch : Eval Nat) : Value → Eval Unit
  | .builtin .dispatch => do
    let _ ← redispatch
  | .builtin b => do
    let _ ← b.call []
  | .function _ closure => do
    let _ ← call closure []
  | _ => .fail (.notFunction "listener")

/-- Calls every listener that the event has now, in order, and counts them. A dispatch among
them has one chance less. -/
def fire (call : Closure → List Value → Eval Value) : (chances : Nat) → String → Eval Nat
  | 0, _ => fun m => .error .overflow m
  | chances + 1, event => do
    let listeners := (← get).registry.listeners event
    listeners.forM (notify call (fire call chances Value.undefined.toText))
    pure listeners.length

def invoke (call : Closure → List Value → Eval Value) : Invoke := fun name callee arguments =>
  match callee with
  | .builtin .dispatch => do
    let chances := (← get).patience
    let _ ← fire call chances (arguments.headD .undefined).toText
    pure .undefined
  | .builtin b => b.call arguments
  | .function _ closure => call closure arguments
  | _ => .fail (.notFunction name)

def call : (allowed : Nat) → Closure → List Value → Eval Value
  | 0, _, _ => .fail .callLimit
  | allowed + 1, closure, arguments => do
    let scope ← enterCall closure arguments
    let flow ← Eval.deeper (runBody (invoke (call allowed)) closure.body scope)
    pure flow.result

end Evaluation

namespace Machine

def allowed (m : Machine) : Nat := maxCalls - m.depth

def bind (name : String) (datum : Datum) : Eval Unit :=
  Eval.changeStore fun s => (s.receive datum).define globals.frame name datum.value

def load (program : List Node) : Eval Unit := do
  match Node.strayIn program with
  | some line => .fail (EvalError.illegalReturn.atLine line)
  | none =>
    let allowed := (← get).allowed
    let _ ← Evaluation.runBody (Evaluation.invoke (Evaluation.call allowed)) program globals

def dispatch (event : String) : Eval Nat := do
  let m ← get
  Evaluation.fire (Evaluation.call m.allowed) m.patience event

def launch : Eval Nat := dispatch launchEvent

def pressKey (key : String) : Eval Nat := dispatch (keyEvent key)

end Machine

end EventScript
