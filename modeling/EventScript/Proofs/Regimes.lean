import EventScript.Proofs.Rules
import EventScript.Proofs.Translation

/-! Regimes. A regime says what trees, values, scopes and machines must be like, which
changes of a machine it allows, and which registries it does not tell apart. Where each
thing that a task does by itself keeps to the regime, so does every run: by induction
on moments, from the tasks that a task starts to the task. -/
namespace EventScript

open Evaluation

variable {α β : Type} {m n : Machine}

namespace Node

/- The names that a node declares from its place. An assignment declares none where
its value is used. -/
def declaresAt : Position → Node → List String
  | .operand, assign .. => []
  | _, n => n.declaredNames

def readName? : Node → Option String
  | name _ s | call _ s _ => some s
  | _ => none

end Node

/- The scope of a call, and the machine once the body's declarations are hoisted. -/
def Closure.entry (c : Closure) (arguments : List Value) (m : Machine) : Scope × Machine :=
  let (scope, s) := m.store.enter true c.scope.path
  (scope, { m with
    store := hoist scope (bindParameters s scope.frame c.parameters arguments) c.body
    depth := m.depth + 1 })

theorem callOpens (k : Nat) (c : Closure) (arguments : List Value) (m : Machine) :
    call (k + 1) c arguments m =
      match statements (calling k) c.body (c.entry arguments m).1 (c.entry arguments m).2 with
      | .ok flow n => .ok flow.result { n with depth := n.depth - 1 }
      | .error e n => .error e { n with depth := n.depth - 1 } := by
  cases ran : statements (calling k) c.body (c.entry arguments m).1 (c.entry arguments m).2
  all_goals
    simp only [Closure.entry] at ran
    simp only [call, bind, EStateM.bind, enterCall, Eval.withStore, Eval.deeper, runBody,
      Eval.changeStore, ran, pure, EStateM.pure]

theorem callLeaves (k : Nat) (c : Closure) (arguments : List Value) (m : Machine) :
    (call (k + 1) c arguments).leaves m =
      let n := (statements (calling k) c.body (c.entry arguments m).1).leaves (c.entry arguments m).2
      { n with depth := n.depth - 1 } := by
  simp only [Eval.leaves, callOpens]
  cases statements (calling k) c.body (c.entry arguments m).1 (c.entry arguments m).2 <;> rfl

/- What a task does by itself to the machine that it has come to, apart from calls.
The values listed were computed on the way. -/
inductive Writes : Moment → Machine → List Value → Machine → Prop where
  | declares {k line target value scope m flow n}
      (before : perform (calling k) .operand value scope m = .ok flow n) :
      Writes ⟨k, .node .statement (.assign line target value) scope, m⟩ n [flow.operand]
        { n with store := n.store.declare scope target flow.operand }
  | assigns {k line target value scope m flow n}
      (before : perform (calling k) .operand value scope m = .ok flow n) :
      Writes ⟨k, .node .operand (.assign line target value) scope, m⟩ n [flow.operand]
        { n with store := n.store.assign scope target flow.operand }
  | makes {k position line name parameters body scope m} :
      Writes ⟨k, .node position (.function line name parameters body) scope, m⟩ m []
        ((declareFunction scope name parameters body).leaves m)
  | listens {k position line event body scope m} :
      Writes ⟨k, .node position (.handler line event body) scope, m⟩ m []
        { m with registry := m.registry.register event (.function 0 ⟨"", [], body, scope⟩) }
  | opens {k es line name parameters body ns scope m n}
      (before : declareFunctions scope es m = .ok () n) :
      Writes ⟨k, .block (es ++ .function line name parameters body :: ns) scope, m⟩ n []
        ((declareFunction scope name parameters body).leaves n)
  | turns {k name item items body scope m} :
      Writes ⟨k, .turns name (item :: items) body scope, m⟩ m []
        ((enterTurn scope name item).leaves m)
  | answers {k name b arguments m} (other : b ≠ .dispatch) :
      Writes ⟨k, .value name (.builtin b) arguments, m⟩ m [] ((b.call arguments).leaves m)
  | notifies {k chances b ls m} (other : b ≠ .dispatch) :
      Writes ⟨k, .listeners chances (.builtin b :: ls), m⟩ m [] ((b.call []).leaves m)

structure Regime where
  rule : Position → Node → Bool
  Fit : Machine → Prop
  Later : Machine → Machine → Prop
  Good : Value → Prop
  Within : Scope → Machine → Prop
  Binds : Scope → String → Machine → Prop
  Fires : String → Prop
  Extra : Moment → Prop
  Alike : Registry Value → Registry Value → Prop

namespace Regime

variable (R : Regime)

/- A list of statements in its place: what it declares is bound already. -/
structure Placed (ns : List Node) (scope : Scope) (m : Machine) : Prop where
  obeys : Node.obeyAll R.rule .statement ns = true
  within : R.Within scope m
  bound : ∀ x ∈ Node.declaredIn ns, R.Binds scope x m

def Suits (m : Machine) : Task → Prop
  | .node position e scope => e.obeys R.rule position = true ∧ R.Within scope m ∧
      ∀ x ∈ e.declaresAt position, R.Binds scope x m
  | .operands es scope => Node.obeyAll R.rule .operand es = true ∧ R.Within scope m
  | .statements ns scope | .block ns scope => R.Placed ns scope m
  | .branches bs otherwise scope => Node.obeyBranches R.rule bs = true ∧
      (∀ x ∈ Node.declaredInBranches bs, R.Binds scope x m) ∧ R.Placed otherwise scope m
  | .turns _ items body scope => (∀ v ∈ items, R.Good v) ∧ R.Placed body scope m
  | .body .. => False
  | .value _ callee arguments => R.Good callee ∧ ∀ v ∈ arguments, R.Good v
  | .closure c arguments => (∃ i, R.Good (.function i c)) ∧ ∀ v ∈ arguments, R.Good v
  | .dispatch _ event => R.Fires event
  | .listeners _ ls => ∀ l ∈ ls, R.Good l

end Regime

/- A body is taken as its statements once they are hoisted. -/
def Moment.hoisted : Moment → Moment
  | ⟨k, .body ns scope, m⟩ => ⟨k, .statements ns scope, { m with store := hoist scope m.store ns }⟩
  | s => s

namespace Regime

structure Admits (R : Regime) (s : Moment) : Prop where
  extra : R.Extra s
  fit : R.Fit s.hoisted.machine
  suits : R.Suits s.hoisted.machine s.hoisted.task

variable (R : Regime)

structure Kept (m n : Machine) : Prop where
  fit : R.Fit n
  later : R.Later m n

/- With another registry that the regime does not tell apart, the computation ends in the
same way, again up to such a registry. -/
def Echoes (x : Eval α) (m : Machine) : Prop :=
  ∀ r, R.Alike m.registry r → ∃ q, R.Alike (x.leaves m).registry q ∧
    x { m with registry := r } = match x m with
      | .ok a n => .ok a { n with registry := q }
      | .error e n => .error e { n with registry := q }

structure Keeps (x : Eval α) (m : Machine) (good : α → Prop) : Prop where
  echoes : R.Echoes x m
  kept : R.Kept m (x.leaves m)
  good : ∀ a n, x m = .ok a n → good a

def GoodFlow : Flow → Prop
  | .next v | .returned v => R.Good v

def GoodAll (vs : List Value) : Prop := ∀ v ∈ vs, R.Good v

def Holds : Moment → Prop
  | ⟨k, .node position e scope, m⟩ => R.Keeps (perform (calling k) position e scope) m R.GoodFlow
  | ⟨k, .operands es scope, m⟩ => R.Keeps (operands (calling k) es scope) m R.GoodAll
  | ⟨k, .statements ns scope, m⟩ => R.Keeps (statements (calling k) ns scope) m R.GoodFlow
  | ⟨k, .block ns scope, m⟩ => R.Keeps (block k ns scope) m R.GoodFlow
  | ⟨k, .branches bs otherwise scope, m⟩ =>
    R.Keeps (choose (calling k) bs scope (block k otherwise scope)) m R.GoodFlow
  | ⟨k, .turns name items body scope, m⟩ =>
    R.Keeps (forItems (turn k name body scope) items) m R.GoodFlow
  | ⟨k, .body ns scope, m⟩ =>
    R.Keeps (statements (calling k) ns scope) { m with store := hoist scope m.store ns } R.GoodFlow
  | ⟨k, .value name callee arguments, m⟩ => R.Keeps (calling k name callee arguments) m R.Good
  | ⟨k, .closure c arguments, m⟩ => R.Keeps (call k c arguments) m R.Good
  | ⟨k, .dispatch chances event, m⟩ => R.Keeps (fire (call k) chances event) m fun _ => True
  | ⟨k, .listeners chances ls, m⟩ =>
    R.Keeps (ls.forM (notify (call k) (redispatch k chances))) m fun _ => True

structure Lawful : Prop where
  refl : ∀ {m}, R.Later m m
  trans : ∀ {l m n}, R.Later l m → R.Later m n → R.Later l n
  within : ∀ {scope m n}, R.Within scope m → R.Later m n → R.Within scope n
  binds : ∀ {scope x m n}, R.Binds scope x m → R.Later m n → R.Binds scope x n
  extra : ∀ {s t}, R.Extra s → Starts s t → R.Extra t
  operand : ∀ {e : Node} {scope m}, e.obeys R.rule .operand = true → R.Within scope m →
    ∀ x ∈ e.declaresAt .operand, R.Binds scope x m
  literal : ∀ l, R.Good (.ofLiteral l)
  applied : ∀ op v w, R.Good (BinaryOp.apply op v w)
  undefined : R.Good .undefined
  text : ∀ s, R.Good (.text s)
  items : ∀ {i vs}, R.Good (.list i vs) → R.GoodAll vs
  body : ∀ {i c}, R.Good (.function i c) → Node.obeyAll R.rule .statement c.body = true
  dispatches : R.Good (.builtin .dispatch) → ∀ event, R.Fires event
  found : ∀ {position e name scope m v}, R.Fit m → R.Within scope m → R.rule position e = true →
    e.readName? = some name → m.store.get? scope name = some v → R.Good v
  listeners : ∀ {event m}, R.Fit m → R.Fires event → R.GoodAll (m.registry.listeners event)
  answered : ∀ {b arguments m v n}, b ≠ .dispatch → R.GoodAll arguments →
    Builtin.call b arguments m = .ok v n → R.Good v
  writes : ∀ {s given a b}, R.Admits s → R.Kept s.machine a → R.GoodAll given →
    Writes s a given b → R.Kept a b
  turns : ∀ {scope name item inner m n}, R.Within scope m → R.Kept m n →
    enterTurn scope name item m = .ok inner n →
      R.Within inner n ∧ ∀ x, R.Binds scope x m → R.Binds inner x n
  enters : ∀ {k c arguments m}, R.Admits ⟨k + 1, .closure c arguments, m⟩ →
    R.Fit (c.entry arguments m).2 ∧
      R.Placed c.body (c.entry arguments m).1 (c.entry arguments m).2
  returns : ∀ {k c arguments m n}, R.Admits ⟨k + 1, .closure c arguments, m⟩ →
    n = (statements (calling k) c.body (c.entry arguments m).1).leaves (c.entry arguments m).2 →
      R.Kept (c.entry arguments m).2 n → R.Kept m { n with depth := n.depth - 1 }
  heard : ∀ {event r q}, R.Fires event → R.Alike r q → q.listeners event = r.listeners event
  registers : ∀ {r q}, R.Alike r q → ∀ event v, R.Alike (r.register event v) (q.register event v)

end Regime

namespace Eval

variable {x : Eval α}

/- What a built-in function may leave: one part of the machine changes, if any. -/
inductive BuiltinLeaves (arguments : List Value) (m : Machine) : Machine → Prop where
  | nothing : BuiltinLeaves arguments m m
  | tells (text : String) : BuiltinLeaves arguments m { m with console := m.console.tell text }
  | asks (message : String) :
      BuiltinLeaves arguments m { m with console := (m.console.ask message).2 }
  | speaks : BuiltinLeaves arguments m { m with language := arguments.headD .undefined }
  | makes (fresh : Nat) : BuiltinLeaves arguments m { m with store := { m.store with fresh } }
  | registers (event : String) :
      BuiltinLeaves arguments m
        { m with registry := m.registry.register event (arguments.getD 1 .undefined) }

theorem builtinLeaves (b : Builtin) (arguments : List Value) (m : Machine) :
    BuiltinLeaves arguments m ((b.call arguments).leaves m) := by
  cases b with
  | print | commandPrint => exact .tells _
  | lang => exact .speaks
  | input =>
    simp only [Builtin.call]
    rw [leavesBind]
    · exact .asks _
    · intro answer n
      cases answer <;> rfl
  | int =>
    simp only [Builtin.call]
    split <;> exact .nothing
  | range =>
    simp only [Builtin.call]
    split
    · exact .makes _
    · exact .nothing
  | register => exact .registers _
  | dispatch => exact .nothing

theorem lookupOk {scope : Scope} {name : String} {v : Value} (done : lookup scope name m = .ok v n) :
    m.store.get? scope name = some v ∧ n = m := by
  simp only [lookup] at done
  cases found : m.store.get? scope name with
  | none =>
    rw [found] at done
    contradiction
  | some w =>
    rw [found] at done
    cases done
    exact ⟨rfl, rfl⟩

/- The computation neither looks at the registry nor changes it. -/
def Blind (x : Eval α) : Prop := ∀ m r, x { m with registry := r } = match x m with
  | .ok a n => .ok a { n with registry := r }
  | .error e n => .error e { n with registry := r }

theorem blindRegistry (h : Blind x) (m : Machine) : (x.leaves m).registry = m.registry := by
  have same := h m m.registry
  cases done : x m with
  | ok a n =>
    rw [done] at same
    injection same with _ same
    rw [leavesOk done, same]
  | error e n =>
    rw [done] at same
    injection same with _ same
    rw [leavesError done, same]

theorem blindBind {f : α → Eval β} (first : Blind x) (next : ∀ a, Blind (f a)) :
    Blind (x >>= f) := by
  intro m r
  have head := first m r
  simp only [bind, EStateM.bind, head]
  cases x m with
  | ok a n => exact next a n r
  | error e n => rfl

theorem blindLookup (scope : Scope) (name : String) : Blind (lookup scope name) := by
  intro m r
  simp only [lookup]
  cases m.store.get? scope name <;> rfl

theorem blindChangeStore (f : Store → Store) : Blind (changeStore f) := fun _ _ => rfl

theorem blindWithStore (f : Store → α × Store) : Blind (withStore f) := fun _ _ => rfl

theorem blindPure (a : α) : Blind (pure a) := fun _ _ => rfl

theorem blindFail (e : EvalError) : Blind (fail e : Eval α) := fun _ _ => rfl

end Eval

open Eval

theorem writesLevel {s : Moment} {given : List Value} (h : Writes s m given n) :
    n.depth = m.depth ∧ n.patience = m.patience := by
  have answered : ∀ (b : Builtin) arguments,
      ((b.call arguments).leaves m).depth = m.depth ∧
        ((b.call arguments).leaves m).patience = m.patience := by
    intro b arguments
    have left := builtinLeaves b arguments m
    generalize (b.call arguments).leaves m = o at left
    cases left <;> exact ⟨rfl, rfl⟩
  cases h with
  | answers | notifies => exact answered _ _
  | _ => exact ⟨rfl, rfl⟩

theorem declareFunctionsAppend (scope : Scope) (ns ms : List Node) :
    declareFunctions scope (ns ++ ms) =
      (do declareFunctions scope ns; declareFunctions scope ms) := by
  induction ns with
  | nil => rfl
  | cons n ns ih =>
    cases function : n.isFunction with
    | true =>
      cases n with
      | function line name parameters body =>
        have head : ∀ es, declareFunctions scope (.function line name parameters body :: es) =
            (do declareFunction scope name parameters body; declareFunctions scope es) := fun _ => rfl
        rw [List.cons_append, head, head, ih, bind_assoc]
      | _ => contradiction
    | false => rw [List.cons_append, declareFunctionsSkip function, declareFunctionsSkip function, ih]

namespace Regime

variable {R : Regime} {good : α → Prop} {good' : β → Prop} {x : Eval α}

theorem blindEchoes (h : Blind x) (m : Machine) : R.Echoes x m := by
  intro r alike
  refine ⟨r, ?_, h m r⟩
  rw [blindRegistry h m]
  exact alike

theorem keepsOk {a : α} (h : R.Keeps x m good) (done : x m = .ok a n) : R.Kept m n ∧ good a := by
  have kept := h.kept
  rw [leavesOk done] at kept
  exact ⟨kept, h.good a n done⟩

/- What a computation does on other machines is of no account. -/
theorem keepsAgree {y : Eval α} (h : R.Keeps y m good)
    (same : ∀ r, x { m with registry := r } = y { m with registry := r }) : R.Keeps x m good := by
  have here : x m = y m := same m.registry
  have left : x.leaves m = y.leaves m := by simp only [leaves, here]
  refine ⟨?_, ?_, ?_⟩
  · intro r alike
    rw [left, here, same]
    exact h.echoes r alike
  · rw [left]
    exact h.kept
  · rw [here]
    exact h.good

section Computations

variable (lawful : R.Lawful)
include lawful

theorem keptRefl (fit : R.Fit m) : R.Kept m m := ⟨fit, lawful.refl⟩

theorem keptTrans {l : Machine} (first : R.Kept l m) (second : R.Kept m n) : R.Kept l n :=
  ⟨second.fit, lawful.trans first.later second.later⟩

theorem keepsPure {a : α} (fit : R.Fit m) (h : good a) : R.Keeps (pure a) m good where
  echoes := blindEchoes (blindPure a) m
  kept := keptRefl lawful fit
  good b n done := by
    cases done
    exact h

theorem keepsFail (e : EvalError) (fit : R.Fit m) : R.Keeps (Eval.fail e) m good where
  echoes := blindEchoes (blindFail e) m
  kept := keptRefl lawful fit
  good b n done := by cases done

theorem keepsBind {f : α → Eval β} (first : R.Keeps x m good)
    (next : ∀ a n, x m = .ok a n → R.Kept m n → good a → R.Keeps (f a) n good') :
    R.Keeps (x >>= f) m good' := by
  cases done : x m with
  | ok a n =>
    obtain ⟨kept, made⟩ := keepsOk first done
    have second := next a n done kept made
    have whole : (x >>= f) m = f a n := bindOk done
    have left : (x >>= f).leaves m = (f a).leaves n := by simp only [leaves, whole]
    refine ⟨?_, ?_, ?_⟩
    · intro r alike
      obtain ⟨q, nextAlike, same⟩ := first.echoes r alike
      rw [leavesOk done] at nextAlike
      obtain ⟨p, lastAlike, last⟩ := second.echoes q nextAlike
      refine ⟨p, ?_, ?_⟩
      · rw [left]
        exact lastAlike
      · rw [whole, ← last]
        simp only [bind, EStateM.bind, same, done]
    · rw [left]
      exact keptTrans lawful kept second.kept
    · intro b o ends
      rw [whole] at ends
      exact second.good b o ends
  | error e n =>
    have whole : (x >>= f) m = .error e n := by simp only [bind, EStateM.bind, done]
    refine ⟨?_, ?_, ?_⟩
    · intro r alike
      obtain ⟨q, nextAlike, same⟩ := first.echoes r alike
      rw [leavesError done] at nextAlike
      refine ⟨q, ?_, ?_⟩
      · rw [leavesError whole]
        exact nextAlike
      · simp only [bind, EStateM.bind, same, done]
    · rw [leavesError whole, ← leavesError done]
      exact first.kept
    · intro b o ends
      rw [whole] at ends
      contradiction

omit lawful in
theorem keepsAtLine (h : R.Keeps x m good) (line : Nat) :
    R.Keeps (Eval.atLine line x) m good := by
  have left := leavesAtLine line x m
  refine ⟨?_, ?_, ?_⟩
  · intro r alike
    obtain ⟨q, nextAlike, same⟩ := h.echoes r alike
    refine ⟨q, ?_, ?_⟩
    · rw [left]
      exact nextAlike
    · simp only [Eval.atLine, same]
      cases x m with
      | ok a n => rfl
      | error e n => cases e <;> rfl
  · rw [left]
    exact h.kept
  · intro a n done
    rcases atLineCases line x m with ⟨b, o, first, second⟩ | ⟨e, e', o, first, second⟩
    · rw [second] at done
      cases done
      exact h.good _ _ first
    · rw [second] at done
      contradiction

omit lawful in
theorem keepsLocated (h : R.Keeps x m good) (position : Position) (line : Nat) :
    R.Keeps (located position line x) m good := by
  cases position with
  | statement => exact keepsAtLine h line
  | operand => exact h

omit lawful in
theorem keepsIf {b : Bool} {y : Eval α} (yes : b = true → R.Keeps x m good)
    (no : b = false → R.Keeps y m good) : R.Keeps (if b then x else y) m good := by
  cases b with
  | true => exact yes rfl
  | false => exact no rfl

omit lawful in
theorem keepsChangeStore {f : Store → Store} (kept : R.Kept m { m with store := f m.store }) :
    R.Keeps (Eval.changeStore f) m fun _ => True :=
  ⟨blindEchoes (blindChangeStore f) m, kept, fun _ _ _ => trivial⟩

theorem keepsLookup {position : Position} {e : Node} {name : String} {scope : Scope}
    (fit : R.Fit m) (within : R.Within scope m) (ruled : R.rule position e = true)
    (reads : e.readName? = some name) : R.Keeps (Eval.lookup scope name) m R.Good := by
  refine ⟨blindEchoes (blindLookup scope name) m, ?_, ?_⟩
  · have same : (Eval.lookup scope name).leaves m = m := by
      simp only [leaves, Eval.lookup]
      cases m.store.get? scope name <;> rfl
    rw [same]
    exact keptRefl lawful fit
  · intro v n done
    exact lawful.found fit within ruled reads (lookupOk done).1

theorem keepsItems {v : Value} (fit : R.Fit m) (h : R.Good v) :
    R.Keeps (itemsOf v) m R.GoodAll := by
  cases v with
  | list identity items => exact keepsPure lawful fit (lawful.items h)
  | text s =>
    refine keepsPure lawful fit ?_
    intro item member
    obtain ⟨c, _, rfl⟩ := List.mem_map.mp member
    exact lawful.text _
  | _ => exact keepsFail lawful _ fit

theorem operandGood {flow : Flow} (h : R.GoodFlow flow) : R.Good flow.operand := by
  cases flow with
  | next v => exact h
  | returned v => exact lawful.undefined

theorem resultGood {flow : Flow} (h : R.GoodFlow flow) : R.Good flow.result := by
  cases flow with
  | next v => exact lawful.undefined
  | returned v => exact h

end Computations

end Regime

end EventScript
