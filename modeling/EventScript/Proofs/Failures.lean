import EventScript.Proofs.Parts

/-! Where runs stop short. A task halts for a reason of its own, or for the reason of a task
that it starts; and a statement gives an error its line, unless the error has one. So every
halt of a run goes back to a bare error at some moment of it, or to a dispatch that has no
chance left. -/
namespace EventScript

/- The first line stays. -/
def EvalError.located (line : Option Nat) (e : EvalError) : EvalError :=
  { e with line := e.line <|> line }

@[simp] theorem EvalError.locatedNone (e : EvalError) : e.located none = e := by
  obtain ⟨kind, message, line⟩ := e
  cases line <;> rfl

namespace Halt

def located (line : Option Nat) : Halt → Halt
  | error e => error (e.located line)
  | overflow => overflow

@[simp] theorem locatedNone (halt : Halt) : halt.located none = halt := by
  cases halt with
  | error e => rw [located, e.locatedNone]
  | overflow => rfl

theorem locatedError {line : Option Nat} {halt : Halt} {e : EvalError}
    (h : .error e = halt.located line) : ∃ e₀, halt = .error e₀ ∧ e = e₀.located line := by
  cases halt with
  | error e₀ =>
    cases h
    exact ⟨e₀, rfl, rfl⟩
  | overflow => contradiction

theorem locatedOverflow {line : Option Nat} {halt : Halt} (h : .overflow = halt.located line) :
    halt = .overflow := by
  cases halt with
  | error e₀ => contradiction
  | overflow => rfl

end Halt

def Value.isCallable : Value → Bool
  | function .. | builtin _ => true
  | _ => false

def Position.given (line : Nat) : Position → Option Nat
  | statement => some line
  | operand => none

/- The line that a node gives to the failures in it. -/
def Node.givenLine (position : Position) (n : Node) : Option Nat :=
  if n.isExpression then position.given n.line else some n.line

namespace Eval

variable {α : Type} {m : Machine} {halt : Halt}

@[simp] theorem haltsFail {e : EvalError} : Halts (fail e : Eval α) m halt ↔ halt = .error e := by
  constructor
  · rintro ⟨n, h⟩
    cases h
    rfl
  · rintro rfl
    exact ⟨m, rfl⟩

@[simp] theorem haltsAtLine {line : Nat} {x : Eval α} :
    Halts (atLine line x) m halt ↔ ∃ h₀, halt = h₀.located (some line) ∧ Halts x m h₀ := by
  simp only [Halts, atLine]
  cases x m with
  | ok a n => simp
  | error h₀ n =>
    cases h₀ with
    | overflow => simp [Halt.located, eq_comm]
    | error e₀ =>
      simp only [EStateM.Result.error.injEq, exists_eq_right']
      exact eq_comm

theorem haltsLookup {scope : Scope} {name : String} {f : Value → Eval α} :
    Halts (lookup scope name >>= f) m halt ↔
      m.store.get? scope name = none ∧ halt = .error (.notDefined name) ∨
        ∃ v, m.store.get? scope name = some v ∧ Halts (f v) m halt := by
  simp only [Halts, lookup, bind, EStateM.bind]
  cases m.store.get? scope name <;> simp [eq_comm]

end Eval

open Eval Evaluation

namespace Evaluation

variable {α : Type} {m : Machine} {halt : Halt} {scope : Scope}

theorem haltsLocated {position : Position} {line : Nat} {x : Eval α} :
    Halts (located position line x) m halt ↔
      ∃ h₀, halt = h₀.located (position.given line) ∧ Halts x m h₀ := by
  cases position with
  | statement => exact haltsAtLine
  | operand => simp [located, Position.given]

theorem haltsItems {v : Value} {f : List Value → Eval α} :
    Halts (itemsOf v >>= f) m halt ↔
      Halts (itemsOf v) m halt ∨ ∃ items, itemsOf v m = .ok items m ∧ Halts (f items) m halt := by
  refine haltsBind.trans (or_congr_right ⟨?_, ?_⟩)
  · rintro ⟨items, n, listed, h⟩
    cases itemsOk listed
    exact ⟨items, listed, h⟩
  · rintro ⟨items, listed, h⟩
    exact ⟨items, m, listed, h⟩

end Evaluation

namespace Moment

def Halts : Moment → Halt → Prop
  | ⟨k, .node position n scope, m⟩ => Eval.Halts (perform (calling k) position n scope) m
  | ⟨k, .operands ns scope, m⟩ => Eval.Halts (operands (calling k) ns scope) m
  | ⟨k, .statements ns scope, m⟩ => Eval.Halts (statements (calling k) ns scope) m
  | ⟨k, .block ns scope, m⟩ => Eval.Halts (block k ns scope) m
  | ⟨k, .branches bs otherwise scope, m⟩ =>
    Eval.Halts (choose (calling k) bs scope (block k otherwise scope)) m
  | ⟨k, .turns name items body scope, m⟩ => Eval.Halts (forItems (turn k name body scope) items) m
  | ⟨k, .body ns scope, m⟩ => Eval.Halts (runBody (calling k) ns scope) m
  | ⟨k, .value name callee arguments, m⟩ => Eval.Halts (calling k name callee arguments) m
  | ⟨k, .closure closure arguments, m⟩ => Eval.Halts (call k closure arguments) m
  | ⟨k, .dispatch chances event, m⟩ => Eval.Halts (fire (call k) chances event) m
  | ⟨k, .listeners chances ls, m⟩ => Eval.Halts (ls.forM (notify (call k) (redispatch k chances))) m

/- Why a task halts by itself. An error has no line then. -/
inductive Raises : Moment → Halt → Prop where
  | name {k position line name scope m} (missing : m.store.get? scope name = none) :
      Raises ⟨k, .node position (.name line name) scope, m⟩ (.error (.notDefined name))
  | callee {k position line callee arguments scope m} (missing : m.store.get? scope callee = none) :
      Raises ⟨k, .node position (.call line callee arguments) scope, m⟩ (.error (.notDefined callee))
  | items {k position line name source body scope m flow n halt}
      (before : perform (calling k) .operand source scope m = .ok flow n)
      (halts : Eval.Halts (itemsOf flow.operand) n halt) :
      Raises ⟨k, .node position (.loop line name source body) scope, m⟩ halt
  | builtin {k name b arguments m halt} (other : b ≠ .dispatch)
      (halts : Eval.Halts (b.call arguments) m halt) :
      Raises ⟨k, .value name (.builtin b) arguments, m⟩ halt
  | value {k name callee arguments m} (other : callee.isCallable = false) :
      Raises ⟨k, .value name callee arguments, m⟩ (.error (.notFunction name))
  | limit {c arguments m} : Raises ⟨0, .closure c arguments, m⟩ (.error .callLimit)
  | spent {k event m} : Raises ⟨k, .dispatch 0 event, m⟩ .overflow
  | listener {k chances b ls m halt} (other : b ≠ .dispatch) (halts : Eval.Halts (b.call []) m halt) :
      Raises ⟨k, .listeners chances (.builtin b :: ls), m⟩ halt
  | deaf {k chances l ls m} (other : l.isCallable = false) :
      Raises ⟨k, .listeners chances (l :: ls), m⟩ (.error (.notFunction "listener"))

/- The halt comes from the moment itself or from one that it starts. -/
def Passes (s : Moment) (halt : Halt) : Prop := s.Raises halt ∨ ∃ t, Starts s t ∧ t.Halts halt

variable {k : Nat} {m : Machine} {scope : Scope} {halt : Halt}

theorem nodeHalts {position : Position} {n : Node} (h : Halts ⟨k, .node position n scope, m⟩ halt) :
    ∃ h₀, halt = h₀.located (n.givenLine position) ∧ Passes ⟨k, .node position n scope, m⟩ h₀ := by
  simp only [Halts] at h
  cases n with
  | literal line value => simp [perform] at h
  | name line name =>
    rw [perform, haltsLocated] at h
    obtain ⟨h₀, same, h⟩ := h
    refine ⟨h₀, same, ?_⟩
    rcases haltsLookup.mp h with ⟨missing, rfl⟩ | ⟨v, _, h⟩
    · exact .inl (.name missing)
    · exact absurd h (haltsPure _)
  | binary line op left right =>
    rw [perform, haltsLocated] at h
    obtain ⟨h₀, same, h⟩ := h
    refine ⟨h₀, same, ?_⟩
    rcases haltsBind.mp h with h | ⟨a, n, before, h⟩
    · exact .inr ⟨_, .left, h⟩
    · exact .inr ⟨_, .right before, haltsLast.mp h⟩
  | assign line target value =>
    rw [perform, haltsLocated] at h
    obtain ⟨h₀, same, h⟩ := h
    refine ⟨h₀, same, ?_⟩
    rcases haltsBind.mp h with h | ⟨a, n, before, h⟩
    · exact .inr ⟨_, .assigned, h⟩
    · cases position <;> simp at h
  | call line callee arguments =>
    rw [perform, haltsLocated] at h
    obtain ⟨h₀, same, h⟩ := h
    refine ⟨h₀, same, ?_⟩
    rcases haltsLookup.mp h with ⟨missing, rfl⟩ | ⟨v, found, h⟩
    · exact .inl (.callee missing)
    · rcases haltsBind.mp h with h | ⟨values, n, before, h⟩
      · exact .inr ⟨_, .arguments found, h⟩
      · exact .inr ⟨_, .called found before, haltsLast.mp h⟩
  | function line name parameters body => simp [perform, declareFunction] at h
  | cond line condition body bs otherwise =>
    rw [perform, haltsAtLine] at h
    obtain ⟨h₀, same, h⟩ := h
    refine ⟨h₀, same, ?_⟩
    rcases haltsBind.mp h with h | ⟨a, n, before, h⟩
    · exact .inr ⟨_, .test, h⟩
    · rcases haltsIf.mp h with ⟨holds, h⟩ | ⟨fails, h⟩
      · exact .inr ⟨_, .held before holds, h⟩
      · exact .inr ⟨_, .failed before fails, h⟩
  | loop line name source body =>
    rw [perform, haltsAtLine] at h
    obtain ⟨h₀, same, h⟩ := h
    refine ⟨h₀, same, ?_⟩
    rcases haltsBind.mp h with h | ⟨a, n, before, h⟩
    · exact .inr ⟨_, .source, h⟩
    · rcases haltsItems.mp h with h | ⟨items, listed, h⟩
      · exact .inl (.items before h)
      · exact .inr ⟨_, .turns before listed, h⟩
  | handler line event body => simp [perform] at h
  | result line value =>
    rw [perform, haltsAtLine] at h
    obtain ⟨h₀, same, h⟩ := h
    refine ⟨h₀, same, ?_⟩
    exact .inr ⟨_, .result, haltsLast.mp h⟩

theorem operandsHalt {ns : List Node} (h : Halts ⟨k, .operands ns scope, m⟩ halt) :
    Passes ⟨k, .operands ns scope, m⟩ halt := by
  cases ns with
  | nil => simp [Halts, operands] at h
  | cons n ns =>
    simp only [Halts, operands] at h
    rcases haltsBind.mp h with h | ⟨a, o, before, h⟩
    · exact .inr ⟨_, .operand, h⟩
    · exact .inr ⟨_, .nextOperand before, haltsLast.mp h⟩

theorem statementsHalt {ns : List Node} (h : Halts ⟨k, .statements ns scope, m⟩ halt) :
    Passes ⟨k, .statements ns scope, m⟩ halt := by
  cases ns with
  | nil => simp [Halts, statements] at h
  | cons n ns =>
    simp only [Halts, statements] at h
    rcases haltsIf.mp h with ⟨function, h⟩ | ⟨runs, h⟩
    · exact .inr ⟨_, .declared function, h⟩
    · rcases haltsBind.mp h with h | ⟨flow, o, before, h⟩
      · exact .inr ⟨_, .statement runs, h⟩
      · cases flow with
        | returned v => exact absurd h (haltsPure _)
        | next v => exact .inr ⟨_, .nextStatement runs before, h⟩

theorem blockHalts {ns : List Node} (h : Halts ⟨k, .block ns scope, m⟩ halt) :
    Passes ⟨k, .block ns scope, m⟩ halt := by
  simp only [Halts, block] at h
  rcases haltsBind.mp h with h | ⟨_, n, before, h⟩
  · exact absurd h haltsDeclareFunctions
  · exact .inr ⟨_, .block before, h⟩

theorem branchesHalt {bs : List (Branch Node)} {otherwise : List Node}
    (h : Halts ⟨k, .branches bs otherwise scope, m⟩ halt) :
    Passes ⟨k, .branches bs otherwise scope, m⟩ halt := by
  cases bs with
  | nil =>
    simp only [Halts, choose] at h
    exact .inr ⟨_, .otherwise, h⟩
  | cons b bs =>
    simp only [Halts, choose] at h
    rcases haltsBind.mp h with h | ⟨a, n, before, h⟩
    · exact .inr ⟨_, .branchTest, h⟩
    · rcases haltsIf.mp h with ⟨holds, h⟩ | ⟨fails, h⟩
      · exact .inr ⟨_, .branchHeld before holds, h⟩
      · exact .inr ⟨_, .branchFailed before fails, h⟩

theorem turnsHalt {name : String} {items : List Value} {body : List Node}
    (h : Halts ⟨k, .turns name items body scope, m⟩ halt) :
    Passes ⟨k, .turns name items body scope, m⟩ halt := by
  cases items with
  | nil => exact absurd h (haltsPure _)
  | cons item items =>
    simp only [Halts, forItems] at h
    rcases haltsBind.mp h with h | ⟨flow, n, before, h⟩
    · simp only [turn] at h
      rcases haltsBind.mp h with h | ⟨inner, n, before, h⟩
      · exact absurd h haltsWithStore
      · exact .inr ⟨_, .turn before, h⟩
    · cases flow with
      | returned v => exact absurd h (haltsPure _)
      | next v => exact .inr ⟨_, .nextTurn before, h⟩

theorem bodyHalts {ns : List Node} (h : Halts ⟨k, .body ns scope, m⟩ halt) :
    Passes ⟨k, .body ns scope, m⟩ halt := by
  simp only [Halts, runBody] at h
  rcases haltsBind.mp h with h | ⟨_, n, before, h⟩
  · exact absurd h haltsChangeStore
  · cases before
    exact .inr ⟨_, .body, h⟩

theorem valueHalts {name : String} {callee : Value} {arguments : List Value}
    (h : Halts ⟨k, .value name callee arguments, m⟩ halt) :
    Passes ⟨k, .value name callee arguments, m⟩ halt := by
  cases callee with
  | builtin b =>
    by_cases dispatch : b = .dispatch
    · subst dispatch
      have opened : Eval.Halts
          (fire (call k) m.patience (arguments.headD .undefined).toText >>= fun _ => pure Value.undefined)
          m halt := h
      exact .inr ⟨_, .dispatched, haltsLast.mp opened⟩
    · simp only [Halts, calling, invokeBuiltin dispatch] at h
      exact .inl (.builtin dispatch h)
  | function identity closure => exact .inr ⟨_, .function, h⟩
  | _ =>
    cases haltsFail.mp h
    exact .inl (.value rfl)

theorem closureHalts {c : Closure} {arguments : List Value}
    (h : Halts ⟨k, .closure c arguments, m⟩ halt) : Passes ⟨k, .closure c arguments, m⟩ halt := by
  cases k with
  | zero =>
    cases haltsFail.mp h
    exact .inl .limit
  | succ k =>
    simp only [Halts, call] at h
    rcases haltsBind.mp h with h | ⟨inner, n, before, h⟩
    · exact absurd h haltsWithStore
    · exact .inr ⟨_, .entered before, haltsDeeper.mp (haltsLast.mp h)⟩

theorem dispatchHalts {chances : Nat} {event : String} (h : Halts ⟨k, .dispatch chances event, m⟩ halt) :
    Passes ⟨k, .dispatch chances event, m⟩ halt := by
  cases chances with
  | zero =>
    obtain ⟨n, h⟩ := h
    cases h
    exact .inl .spent
  | succ chances =>
    have opened : Eval.Halts
        ((m.registry.listeners event).forM (notify (call k) (redispatch k chances)) >>=
          fun _ => pure (m.registry.listeners event).length) m halt := h
    exact .inr ⟨_, .listeners, haltsLast.mp opened⟩

theorem listenersHalt {chances : Nat} {ls : List Value} (h : Halts ⟨k, .listeners chances ls, m⟩ halt) :
    Passes ⟨k, .listeners chances ls, m⟩ halt := by
  cases ls with
  | nil => exact absurd h (haltsPure _)
  | cons l ls =>
    have opened : Eval.Halts (notify (call k) (redispatch k chances) l >>= fun _ =>
        ls.forM (notify (call k) (redispatch k chances))) m halt := h
    rcases haltsBind.mp opened with h | ⟨_, n, before, h⟩
    · cases l with
      | builtin b =>
        by_cases dispatch : b = .dispatch
        · subst dispatch
          exact .inr ⟨_, .redispatched, haltsLast.mp h⟩
        · rw [notifyBuiltin dispatch] at h
          exact .inl (.listener dispatch (haltsLast.mp h))
      | function identity closure =>
        exact .inr ⟨_, .listener, haltsLast.mp h⟩
      | _ =>
        cases haltsFail.mp h
        exact .inl (.deaf rfl)
    · exact .inr ⟨_, .nextListener before, h⟩

def line? (s : Moment) : Option Nat :=
  match s.task with
  | .node position n _ => n.givenLine position
  | _ => none

theorem haltsFrom {s : Moment} (h : s.Halts halt) :
    ∃ h₀, halt = h₀.located s.line? ∧ s.Passes h₀ := by
  obtain ⟨k, task, m⟩ := s
  have bare : Passes ⟨k, task, m⟩ halt → line? ⟨k, task, m⟩ = none →
      ∃ h₀, halt = h₀.located (line? ⟨k, task, m⟩) ∧ Passes ⟨k, task, m⟩ h₀ := by
    intro passes none
    exact ⟨halt, by rw [none, Halt.locatedNone], passes⟩
  cases task with
  | node => exact nodeHalts h
  | operands => exact bare (operandsHalt h) rfl
  | statements => exact bare (statementsHalt h) rfl
  | block => exact bare (blockHalts h) rfl
  | branches => exact bare (branchesHalt h) rfl
  | turns => exact bare (turnsHalt h) rfl
  | body => exact bare (bodyHalts h) rfl
  | value => exact bare (valueHalts h) rfl
  | closure => exact bare (closureHalts h) rfl
  | dispatch => exact bare (dispatchHalts h) rfl
  | listeners => exact bare (listenersHalt h) rfl

/- The errors that a run can meet, before one of its statements gives them a line. -/
inductive Primitive : EvalError → Prop where
  | notDefined (name : String) : Primitive (.notDefined name)
  | notFunction (name : String) : Primitive (.notFunction name)
  | notIterable (text : String) : Primitive (.notIterable text)
  | notInteger (text : String) : Primitive (.notInteger text)
  | badLength : Primitive .badLength
  | callLimit : Primitive .callLimit

theorem primitiveBare {e : EvalError} (h : Primitive e) : e.line = none := by
  cases h <;> rfl

inductive Cause (s : Moment) : Halt → Prop where
  | error {e} (primitive : Primitive e) : Cause s (.error e)
  | spent {event} (out : s.task = .dispatch 0 event) : Cause s .overflow

theorem builtinCause {s : Moment} {b : Builtin} {arguments : List Value} (other : b ≠ .dispatch)
    (h : Eval.Halts (b.call arguments) m halt) : Cause s halt := by
  cases b with
  | print | commandPrint | lang | register =>
    obtain ⟨n, h⟩ := h
    cases h
  | input =>
    rcases haltsBind.mp h with ⟨n, asked⟩ | ⟨answer, n, _, h⟩
    · cases asked
    · cases answer <;> exact absurd h (haltsPure _)
  | int =>
    simp only [Builtin.call] at h
    split at h
    · exact absurd h (haltsPure _)
    · cases haltsFail.mp h
      exact .error (.notInteger _)
  | range =>
    simp only [Builtin.call] at h
    split at h
    · exact absurd h haltsWithStore
    · rename_i refused
      cases haltsFail.mp h
      unfold Builtin.rangeItems at refused
      split at refused
      · split at refused <;> cases refused
        exact .error .badLength
      · contradiction
  | dispatch => contradiction

theorem raisesCause {s : Moment} (h : s.Raises halt) : Cause s halt := by
  cases h with
  | name | callee => exact .error (.notDefined _)
  | @items k position line name source body scope m flow n _ before halts =>
    cases value : flow.operand with
    | list | text =>
      rw [value] at halts
      exact absurd halts (haltsPure _)
    | _ =>
      rw [value] at halts
      cases haltsFail.mp halts
      exact .error (.notIterable _)
  | builtin other halts => exact builtinCause other halts
  | value | deaf => exact .error (.notFunction _)
  | limit => exact .error .callLimit
  | spent => exact .spent rfl
  | listener other halts => exact builtinCause other halts

/- The run goes down in rank until a moment halts by itself. -/
theorem haltsCause {s : Moment} (h : s.Halts halt) :
    ∃ t h₀ line, Relation.ReflTransGen Starts s t ∧ Cause t h₀ ∧ halt = h₀.located line := by
  induction s using (InvImage.wf rank lowerWellFounded).induction generalizing halt with
  | h s ih =>
    obtain ⟨h₁, rfl, raised | ⟨t, starts, inside⟩⟩ := haltsFrom h
    · exact ⟨s, h₁, s.line?, .refl, raisesCause raised, rfl⟩
    · obtain ⟨u, h₀, line, path, cause, rfl⟩ := ih t (startsLower starts) inside
      refine ⟨u, h₀, line <|> s.line?, path.head starts, cause, ?_⟩
      cases cause with
      | error primitive => simp [Halt.located, EvalError.located, primitiveBare primitive]
      | spent => rfl

theorem failsPrimitive {s : Moment} {e : EvalError} (h : s.Halts (.error e)) :
    ∃ e₀, Primitive e₀ ∧ e = e₀.located e.line := by
  obtain ⟨t, h₀, line, path, cause, same⟩ := haltsCause h
  obtain ⟨e₀, rfl, rfl⟩ := Halt.locatedError same
  cases cause with
  | error primitive =>
    exact ⟨e₀, primitive, by simp [EvalError.located, primitiveBare primitive]⟩

theorem overflowSpent {s : Moment} (h : s.Halts .overflow) :
    ∃ t event, Relation.ReflTransGen Starts s t ∧ t.task = .dispatch 0 event := by
  obtain ⟨t, h₀, line, path, cause, same⟩ := haltsCause h
  cases Halt.locatedOverflow same
  cases cause with
  | spent out => exact ⟨t, _, path, out⟩

/- The line of an error was given by a moment that the run has come to. -/
theorem failsLine {s : Moment} {e : EvalError} {l : Nat} (h : s.Halts (.error e))
    (line : e.line = some l) : ∃ t, Relation.ReflTransGen Starts s t ∧ t.line? = some l := by
  induction s using (InvImage.wf rank lowerWellFounded).induction generalizing e with
  | h s ih =>
    obtain ⟨h₀, same, passes⟩ := haltsFrom h
    obtain ⟨e₀, rfl, rfl⟩ := Halt.locatedError same
    cases first : e₀.line with
    | none =>
      simp only [EvalError.located, first] at line
      exact ⟨s, .refl, line⟩
    | some l₀ =>
      simp only [EvalError.located, first] at line
      cases line
      rcases passes with raised | ⟨t, starts, inside⟩
      · cases raisesCause raised with
        | error primitive =>
          rw [primitiveBare primitive] at first
          contradiction
      · obtain ⟨u, path, given⟩ := ih t (startsLower starts) inside first
        exact ⟨u, path.head starts, given⟩

end Moment

/- An operation that halts after it has begun halts as its first moment does. -/
theorem Operation.beginsHalts {op : Operation} {m : Machine} {first : Moment} {halt : Halt}
    (begins : op.Begins m first) (h : op.run.Halts m halt) : first.Halts halt := by
  have fired : ∀ event, Eval.Halts (some <$> Machine.dispatch event) m halt →
      Moment.Halts ⟨m.allowed, .dispatch m.patience event, m⟩ halt := by
    intro event h
    obtain ⟨n, halted⟩ := haltsMap.mp h
    exact ⟨n, (Machine.dispatchOpens event m).symm.trans halted⟩
  cases begins with
  | load legal =>
    obtain ⟨n, halted⟩ := haltsLast.mp h
    rw [Machine.loadOpens legal] at halted
    exact haltsLast.mp ⟨n, halted⟩
  | dispatch | launch | pressKey => exact fired _ h

end EventScript
