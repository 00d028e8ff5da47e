import Mathlib.Logic.Relation
import EventScript.Evaluation

/-! What a run is busy with. A moment is a task on a machine, with the calls that
are still allowed; it starts another one where its task goes on to the other task,
which can always do less. The moments reached from an operation are the points that
its run passes. -/
namespace EventScript

namespace Evaluation

abbrev calling (allowed : Nat) : Invoke := invoke (call allowed)

def block (allowed : Nat) (ns : List Node) (scope : Scope) : Eval Flow := do
  declareFunctions scope ns
  statements (calling allowed) ns scope

def turn (allowed : Nat) (name : String) (body : List Node) (scope : Scope) (item : Value) :
    Eval Flow := do
  let inner ← enterTurn scope name item
  block allowed body inner

def redispatch (allowed chances : Nat) : Eval Nat :=
  fire (call allowed) chances Value.undefined.toText

end Evaluation

open Evaluation

inductive Task where
  | node (position : Position) (n : Node) (scope : Scope)
  | operands (ns : List Node) (scope : Scope)
  | statements (ns : List Node) (scope : Scope)
  | block (ns : List Node) (scope : Scope)
  | branches (bs : List (Branch Node)) (otherwise : List Node) (scope : Scope)
  | turns (name : String) (items : List Value) (body : List Node) (scope : Scope)
  | body (ns : List Node) (scope : Scope)
  | value (name : String) (callee : Value) (arguments : List Value)
  | closure (closure : Closure) (arguments : List Value)
  | dispatch (chances : Nat) (event : String)
  | listeners (chances : Nat) (listeners : List Value)

structure Moment where
  allowed : Nat
  task : Task
  machine : Machine

/- One constructor for each place where a task goes on to another. The premises are
the results of what the task has done before it gets there. -/
inductive Starts : Moment → Moment → Prop where
  | left {k position line op left right scope m} :
      Starts ⟨k, .node position (.binary line op left right) scope, m⟩
        ⟨k, .node .operand left scope, m⟩
  | right {k position line op left right scope m a n}
      (before : perform (calling k) .operand left scope m = .ok a n) :
      Starts ⟨k, .node position (.binary line op left right) scope, m⟩
        ⟨k, .node .operand right scope, n⟩
  | assigned {k position line target value scope m} :
      Starts ⟨k, .node position (.assign line target value) scope, m⟩
        ⟨k, .node .operand value scope, m⟩
  | arguments {k position line callee arguments scope m target}
      (found : m.store.get? scope callee = some target) :
      Starts ⟨k, .node position (.call line callee arguments) scope, m⟩
        ⟨k, .operands arguments scope, m⟩
  | called {k position line callee arguments scope m target values n}
      (found : m.store.get? scope callee = some target)
      (before : operands (calling k) arguments scope m = .ok values n) :
      Starts ⟨k, .node position (.call line callee arguments) scope, m⟩
        ⟨k, .value callee target values, n⟩
  | test {k position line condition body bs otherwise scope m} :
      Starts ⟨k, .node position (.cond line condition body bs otherwise) scope, m⟩
        ⟨k, .node .operand condition scope, m⟩
  | held {k position line condition body bs otherwise scope m a n}
      (before : perform (calling k) .operand condition scope m = .ok a n)
      (holds : a.operand.isTruthy = true) :
      Starts ⟨k, .node position (.cond line condition body bs otherwise) scope, m⟩
        ⟨k, .block body scope, n⟩
  | failed {k position line condition body bs otherwise scope m a n}
      (before : perform (calling k) .operand condition scope m = .ok a n)
      (fails : a.operand.isTruthy = false) :
      Starts ⟨k, .node position (.cond line condition body bs otherwise) scope, m⟩
        ⟨k, .branches bs otherwise scope, n⟩
  | source {k position line name source body scope m} :
      Starts ⟨k, .node position (.loop line name source body) scope, m⟩
        ⟨k, .node .operand source scope, m⟩
  | turns {k position line name source body scope m a n items}
      (before : perform (calling k) .operand source scope m = .ok a n)
      (listed : itemsOf a.operand n = .ok items n) :
      Starts ⟨k, .node position (.loop line name source body) scope, m⟩
        ⟨k, .turns name items body scope, n⟩
  | result {k position line value scope m} :
      Starts ⟨k, .node position (.result line value) scope, m⟩ ⟨k, .node .operand value scope, m⟩
  | operand {k e es scope m} :
      Starts ⟨k, .operands (e :: es) scope, m⟩ ⟨k, .node .operand e scope, m⟩
  | nextOperand {k e es scope m a n} (before : perform (calling k) .operand e scope m = .ok a n) :
      Starts ⟨k, .operands (e :: es) scope, m⟩ ⟨k, .operands es scope, n⟩
  | statement {k e es scope m} (runs : e.isFunction = false) :
      Starts ⟨k, .statements (e :: es) scope, m⟩ ⟨k, .node .statement e scope, m⟩
  | nextStatement {k e es scope m v n} (runs : e.isFunction = false)
      (before : perform (calling k) .statement e scope m = .ok (.next v) n) :
      Starts ⟨k, .statements (e :: es) scope, m⟩ ⟨k, .statements es scope, n⟩
  | declared {k e es scope m} (function : e.isFunction = true) :
      Starts ⟨k, .statements (e :: es) scope, m⟩ ⟨k, .statements es scope, m⟩
  | block {k ns scope m n} (before : declareFunctions scope ns m = .ok () n) :
      Starts ⟨k, .block ns scope, m⟩ ⟨k, .statements ns scope, n⟩
  | branchTest {k condition body bs otherwise scope m} :
      Starts ⟨k, .branches (⟨condition, body⟩ :: bs) otherwise scope, m⟩
        ⟨k, .node .operand condition scope, m⟩
  | branchHeld {k condition body bs otherwise scope m a n}
      (before : perform (calling k) .operand condition scope m = .ok a n)
      (holds : a.operand.isTruthy = true) :
      Starts ⟨k, .branches (⟨condition, body⟩ :: bs) otherwise scope, m⟩ ⟨k, .block body scope, n⟩
  | branchFailed {k condition body bs otherwise scope m a n}
      (before : perform (calling k) .operand condition scope m = .ok a n)
      (fails : a.operand.isTruthy = false) :
      Starts ⟨k, .branches (⟨condition, body⟩ :: bs) otherwise scope, m⟩
        ⟨k, .branches bs otherwise scope, n⟩
  | otherwise {k otherwise scope m} :
      Starts ⟨k, .branches [] otherwise scope, m⟩ ⟨k, .block otherwise scope, m⟩
  | turn {k name item items body scope m inner n} (before : enterTurn scope name item m = .ok inner n) :
      Starts ⟨k, .turns name (item :: items) body scope, m⟩ ⟨k, .block body inner, n⟩
  | nextTurn {k name item items body scope m v n}
      (before : turn k name body scope item m = .ok (.next v) n) :
      Starts ⟨k, .turns name (item :: items) body scope, m⟩ ⟨k, .turns name items body scope, n⟩
  | body {k ns scope m} :
      Starts ⟨k, .body ns scope, m⟩
        ⟨k, .statements ns scope, { m with store := hoist scope m.store ns }⟩
  | dispatched {k name arguments m} :
      Starts ⟨k, .value name (.builtin .dispatch) arguments, m⟩
        ⟨k, .dispatch m.patience (arguments.headD .undefined).toText, m⟩
  | function {k name identity closure arguments m} :
      Starts ⟨k, .value name (.function identity closure) arguments, m⟩
        ⟨k, .closure closure arguments, m⟩
  | entered {k closure arguments m scope n} (before : enterCall closure arguments m = .ok scope n) :
      Starts ⟨k + 1, .closure closure arguments, m⟩
        ⟨k, .body closure.body scope, { n with depth := n.depth + 1 }⟩
  | listeners {k chances event m} :
      Starts ⟨k, .dispatch (chances + 1) event, m⟩
        ⟨k, .listeners chances (m.registry.listeners event), m⟩
  | redispatched {k chances ls m} :
      Starts ⟨k, .listeners chances (.builtin .dispatch :: ls), m⟩
        ⟨k, .dispatch chances Value.undefined.toText, m⟩
  | listener {k chances identity closure ls m} :
      Starts ⟨k, .listeners chances (.function identity closure :: ls), m⟩ ⟨k, .closure closure [], m⟩
  | nextListener {k chances l ls m n}
      (before : notify (call k) (redispatch k chances) l m = .ok () n) :
      Starts ⟨k, .listeners chances (l :: ls), m⟩ ⟨k, .listeners chances ls, n⟩

namespace Moment

/- What a task can still do, most weighty first: calls, the kind of task, and then
for a tree its size, for a dispatch its chances and listeners. A function called by
a listener stands below the dispatch, since its body has one call less. -/
def level : Task → Nat
  | .closure .. => 0
  | .dispatch .. | .listeners .. => 1
  | .value .. => 2
  | _ => 3

noncomputable def size : Task → Nat
  | .node _ e _ => 3 * sizeOf e
  | .operands es _ | .statements es _ => 3 * sizeOf es
  | .block es _ | .body es _ => 3 * sizeOf es + 1
  | .branches bs otherwise _ => 3 * (sizeOf bs + sizeOf otherwise)
  | .turns _ _ body _ => 3 * sizeOf body + 2
  | .value .. | .closure .. => 0
  | .dispatch chances _ | .listeners chances _ => chances

def waiting : Task → Nat
  | .turns _ items _ _ => items.length
  | .listeners _ ls => ls.length
  | _ => 0

noncomputable def rank (s : Moment) : Nat × Nat × Nat × Nat :=
  (s.allowed, level s.task, size s.task, waiting s.task)

def Lower : Nat × Nat × Nat × Nat → Nat × Nat × Nat × Nat → Prop :=
  Prod.Lex (· < ·) (Prod.Lex (· < ·) (Prod.Lex (· < ·) (· < ·)))

theorem lowerWellFounded : WellFounded Lower :=
  (Prod.lex Nat.lt_wfRel (Prod.lex Nat.lt_wfRel (Prod.lex Nat.lt_wfRel Nat.lt_wfRel))).wf

theorem startsLower {s t : Moment} (h : Starts s t) : Lower (rank t) (rank s) := by
  -- Entering a function spends a call. Going on from a tree to a value, a dispatch or a
  -- function lowers the level, and every other step the size or what is waiting.
  cases h <;> simp [Lower, rank, level, size, waiting, Prod.lex_def] <;> omega

end Moment

inductive Operation where
  | bind (name : String) (datum : Datum)
  | load (program : List Node)
  | dispatch (event : String)
  | launch
  | pressKey (key : String)

namespace Operation

def run : Operation → Eval (Option Nat)
  | bind name datum => do
    Machine.bind name datum
    pure none
  | load program => do
    Machine.load program
    pure none
  | dispatch event => some <$> Machine.dispatch event
  | launch => some <$> Machine.launch
  | pressKey key => some <$> Machine.pressKey key

/- The event whose listeners are called. -/
def event? : Operation → Option String
  | bind .. | load _ => none
  | dispatch event => some event
  | launch => some launchEvent
  | pressKey key => some (keyEvent key)

inductive Begins : Operation → Machine → Moment → Prop where
  | load {program m} (legal : Node.strayIn program = none) :
      Begins (.load program) m ⟨m.allowed, .body program Machine.globals, m⟩
  | dispatch {event m} : Begins (.dispatch event) m ⟨m.allowed, .dispatch m.patience event, m⟩
  | launch {m} : Begins .launch m ⟨m.allowed, .dispatch m.patience launchEvent, m⟩
  | pressKey {key m} : Begins (.pressKey key) m ⟨m.allowed, .dispatch m.patience (keyEvent key), m⟩

def Passes (op : Operation) (m : Machine) (s : Moment) : Prop :=
  ∃ first, Begins op m first ∧ Relation.ReflTransGen Starts first s

end Operation

namespace Eval

variable {α β : Type}

/- The machine that a computation leaves, whether it succeeds or fails. -/
def leaves (x : Eval α) (m : Machine) : Machine :=
  match x m with
  | .ok _ n | .error _ n => n

variable {x : Eval α} {m n : Machine}

theorem leavesOk {a : α} (done : x m = .ok a n) : x.leaves m = n := by simp only [leaves, done]

theorem bindOk {f : α → Eval β} {a : α} (done : x m = .ok a n) : (x >>= f) m = f a n := by
  simp only [bind, EStateM.bind, done]

theorem bindError {f : α → Eval β} {e : Halt} (done : x m = .error e n) : (x >>= f) m = .error e n := by
  simp only [bind, EStateM.bind, done]

theorem getBind (f : Machine → Eval α) (m : Machine) : (get >>= f) m = f m m := rfl

theorem leavesError {e : Halt} (done : x m = .error e n) : x.leaves m = n := by
  simp only [leaves, done]

theorem okOfBind {f : α → Eval β} {b : β} (done : (x >>= f) m = .ok b n) :
    ∃ a o, x m = .ok a o ∧ f a o = .ok b n := by
  cases first : x m with
  | ok a o =>
    rw [bindOk first] at done
    exact ⟨a, o, rfl, done⟩
  | error e o =>
    simp only [bind, EStateM.bind, first] at done
    contradiction

theorem leavesBind {f : α → Eval β} (next : ∀ a n, (f a).leaves n = n) (m : Machine) :
    (x >>= f).leaves m = x.leaves m := by
  cases done : x m with
  | ok a n =>
    rw [leavesOk done, ← next a n]
    simp only [leaves, bindOk done]
  | error e n => simp only [leaves, bind, EStateM.bind, done]

theorem leavesSame {y : Eval α} (same : x m = y n) : x.leaves m = y.leaves n := by
  simp only [leaves, same]

theorem leavesNext {f : α → Eval β} {a : α} (done : x m = .ok a n) :
    (x >>= f).leaves m = (f a).leaves n := by
  simp only [leaves, bindOk done]

theorem atLineCases (line : Nat) (x : Eval α) (m : Machine) :
    (∃ a n, x m = .ok a n ∧ atLine line x m = .ok a n) ∨
      ∃ e e' n, x m = .error e n ∧ atLine line x m = .error e' n := by
  cases done : x m with
  | ok a n => exact .inl ⟨a, n, rfl, by simp only [atLine, done]⟩
  | error e n =>
    cases e with
    | error e => exact .inr ⟨_, .error (e.atLine line), n, rfl, by simp only [atLine, done]⟩
    | overflow => exact .inr ⟨_, .overflow, n, rfl, by simp only [atLine, done]⟩

theorem leavesAtLine (line : Nat) (x : Eval α) (m : Machine) :
    (atLine line x).leaves m = x.leaves m := by
  rcases atLineCases line x m with ⟨a, n, first, second⟩ | ⟨e, e', n, first, second⟩
  · rw [leavesOk first, leavesOk second]
  · rw [leavesError first, leavesError second]

/- The run stops short, with a failure or with the end of the stack. -/
def Halts (x : Eval α) (m : Machine) (halt : Halt) : Prop := ∃ n, x m = .error halt n

section Halting

variable {halt : Halt}

@[simp] theorem haltsPure (a : α) : ¬ Halts (pure a) m halt := by
  rintro ⟨n, h⟩
  cases h

@[simp] theorem haltsBind {f : α → Eval β} :
    Halts (x >>= f) m halt ↔ Halts x m halt ∨ ∃ a n, x m = .ok a n ∧ Halts (f a) n halt := by
  simp only [Halts, bind, EStateM.bind]
  cases x m with
  | ok a n => simp [and_assoc]
  | error e n => simp

theorem haltsLast {f : α → β} : Halts (x >>= fun a => pure (f a)) m halt ↔ Halts x m halt := by
  rw [haltsBind]
  simp only [haltsPure, and_false, exists_false, or_false]

@[simp] theorem haltsMap {f : α → β} : Halts (f <$> x) m halt ↔ Halts x m halt := by
  simp only [Halts, Functor.map, EStateM.map]
  cases x m <;> simp

@[simp] theorem haltsDeeper :
    Halts (deeper x) m halt ↔ Halts x { m with depth := m.depth + 1 } halt := by
  simp only [Halts, deeper]
  cases x { m with depth := m.depth + 1 } <;> simp

@[simp] theorem haltsWithStore {f : Store → α × Store} : ¬ Halts (withStore f) m halt := by
  rintro ⟨n, h⟩
  cases h

@[simp] theorem haltsChangeStore {f : Store → Store} : ¬ Halts (changeStore f) m halt := by
  rintro ⟨n, h⟩
  cases h

@[simp] theorem haltsRegister {event : String} {listener : Value} :
    ¬ Halts (register event listener) m halt := by
  rintro ⟨n, h⟩
  cases h

@[simp] theorem haltsIf {b : Bool} {y : Eval α} :
    Halts (if b then x else y) m halt ↔ b = true ∧ Halts x m halt ∨ b = false ∧ Halts y m halt := by
  cases b <;> simp

@[simp] theorem haltsDeclareFunctions {scope : Scope} {ns : List Node} :
    ¬ Halts (declareFunctions scope ns) m halt := by
  fun_induction declareFunctions scope ns generalizing m <;> simp_all [declareFunction]

end Halting

end Eval

namespace Evaluation

theorem itemsOk {v : Value} {items : List Value} {m n : Machine} (done : itemsOf v m = .ok items n) :
    n = m := by
  cases v with
  | list | text =>
    cases done
    rfl
  | _ => contradiction

theorem invokeBuiltin {b : Builtin} (other : b ≠ .dispatch)
    (call : Closure → List Value → Eval Value) (name : String) (arguments : List Value) :
    invoke call name (.builtin b) arguments = b.call arguments := by
  cases b with
  | dispatch => contradiction
  | _ => rfl

theorem invokeDispatch (call : Closure → List Value → Eval Value) (name : String)
    (arguments : List Value) (m : Machine) :
    invoke call name (.builtin .dispatch) arguments m =
      (fire call m.patience (arguments.headD .undefined).toText >>= fun _ => pure .undefined) m := rfl

theorem notifyBuiltin {b : Builtin} (other : b ≠ .dispatch)
    (call : Closure → List Value → Eval Value) (again : Eval Nat) :
    notify call again (.builtin b) = b.call [] >>= fun _ => pure () := by
  cases b with
  | dispatch => contradiction
  | _ => rfl

theorem fireOpens (call : Closure → List Value → Eval Value) (chances : Nat) (event : String)
    (m : Machine) :
    fire call (chances + 1) event m =
      ((m.registry.listeners event).forM (notify call (fire call chances Value.undefined.toText)) >>=
        fun _ => pure (m.registry.listeners event).length) m := rfl

end Evaluation

namespace Machine

theorem dispatchOpens (event : String) (m : Machine) :
    dispatch event m = fire (call m.allowed) m.patience event m := by
  rw [dispatch, Eval.getBind]

theorem loadOpens {program : List Node} (legal : Node.strayIn program = none) (m : Machine) :
    load program m = (do let _ ← runBody (calling m.allowed) program globals) m := by
  simp only [load, legal, Eval.getBind]

/- A failing operation does not end the session. -/
def after (m : Machine) (ops : List Operation) : Machine :=
  ops.foldl (fun m op => op.run.leaves m) m

end Machine

namespace Operation

theorem loadRuns {program : List Node} (legal : Node.strayIn program = none) (m : Machine) :
    (load program).run m =
      (statements (calling m.allowed) program Machine.globals >>= fun _ => pure none)
        { m with store := hoist Machine.globals m.store program } := by
  have opened : runBody (calling m.allowed) program Machine.globals m =
      statements (calling m.allowed) program Machine.globals
        { m with store := hoist Machine.globals m.store program } := rfl
  simp only [run, Bind.bind, EStateM.bind, Machine.loadOpens legal, opened]
  cases statements (calling m.allowed) program Machine.globals
    { m with store := hoist Machine.globals m.store program } <;> rfl

theorem loadRefused {program : List Node} {line : Nat} (stray : Node.strayIn program = some line)
    (m : Machine) :
    (load program).run m = .error (.error (EvalError.illegalReturn.atLine line)) m := by
  simp only [run, Machine.load, stray]
  rfl

theorem eventBegins {op : Operation} {event : String} (fires : op.event? = some event) (m : Machine) :
    op.Begins m ⟨m.allowed, .dispatch m.patience event, m⟩ := by
  cases op with
  | bind | load => contradiction
  | dispatch | launch | pressKey =>
    cases fires
    constructor

theorem beginsOrNot (op : Operation) (m : Machine) :
    (∃ first, op.Begins m first) ∨ (∃ name datum, op = .bind name datum) ∨
      ∃ program line, op = .load program ∧ Node.strayIn program = some line := by
  cases op with
  | bind name datum => exact .inr (.inl ⟨name, datum, rfl⟩)
  | load program =>
    cases stray : Node.strayIn program with
    | none => exact .inl ⟨_, .load stray⟩
    | some line => exact .inr (.inr ⟨program, line, rfl, stray⟩)
  | dispatch | launch | pressKey => exact .inl ⟨_, by constructor⟩

end Operation

end EventScript
