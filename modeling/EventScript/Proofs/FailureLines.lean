import EventScript.Proofs.CallBudget
import EventScript.Proofs.ElseIf
import EventScript.Proofs.ParsedTrees
import EventScript.Proofs.StrayReturns

/-! The lines of failures. A failure inside a statement has the line of a statement, so the
failures of a load and of functions that listen are located; and what runs stands in one of
the programs that were loaded. -/
namespace EventScript

open Evaluation Eval

namespace Node

theorem branchSize (b : Branch Node) : sizeOf b = 1 + sizeOf b.condition + sizeOf b.body := by
  cases b
  exact Branch.mk.sizeOf_spec ..

theorem valueSmaller {n c : Node} (member : c ∈ n.values) : sizeOf c < sizeOf n := by
  cases n <;> simp only [values, List.mem_cons, List.not_mem_nil, or_false, List.mem_map] at member
  case binary =>
    rw [binary.sizeOf_spec]
    rcases member with rfl | rfl <;> omega
  case assign | result | loop =>
    subst member
    simp only [assign.sizeOf_spec, result.sizeOf_spec, loop.sizeOf_spec]
    omega
  case call =>
    have inside := List.sizeOf_lt_of_mem member
    rw [call.sizeOf_spec]
    omega
  case cond =>
    rw [cond.sizeOf_spec]
    rcases member with rfl | ⟨b, member, rfl⟩
    · omega
    · have inside := List.sizeOf_lt_of_mem member
      rw [branchSize] at inside
      omega

theorem bodySmaller {n : Node} {body : List Node} (list : body ∈ n.bodies) : sizeOf body < sizeOf n := by
  cases n <;> simp only [bodies, List.mem_cons, List.not_mem_nil, or_false, List.mem_map] at list
  case function | loop | handler =>
    subst list
    simp only [function.sizeOf_spec, loop.sizeOf_spec, handler.sizeOf_spec]
    omega
  case cond =>
    rw [cond.sizeOf_spec]
    rcases list with rfl | rfl | ⟨b, member, rfl⟩
    · omega
    · omega
    · have inside := List.sizeOf_lt_of_mem member
      rw [branchSize] at inside
      omega

section Rules

variable {rule : Position → Node → Bool} {p : List Node}

theorem nodeObeys (every : ∀ position n, Stands p position n → rule position n = true) (n : Node)
    {position : Position} (stands : Stands p position n) : n.obeys rule position = true := by
  refine obeysIff.mpr ⟨every position n stands, ?_, ?_⟩
  · intro v member
    have smaller := valueSmaller member
    exact nodeObeys every v (.inside stands (.value member))
  · intro body list
    refine obeyAllIff.mpr ?_
    intro c member
    have smaller := Nat.lt_trans (List.sizeOf_lt_of_mem member) (bodySmaller list)
    exact nodeObeys every c (.inside stands (.statement list member))
termination_by sizeOf n
decreasing_by all_goals exact smaller

theorem obeysOfStands (every : ∀ position n, Stands p position n → rule position n = true) :
    obeyAll rule .statement p = true :=
  obeyAllIff.mpr fun n member => nodeObeys every n (.top member)

end Rules

open Classical in
/- The rule of standing in one of some programs. -/
noncomputable def standsIn (ps : List (List Node)) (position : Position) (n : Node) : Bool :=
  decide (∃ p ∈ ps, Stands p position n)

theorem standsInIff {ps : List (List Node)} {position : Position} {n : Node} :
    standsIn ps position n = true ↔ ∃ p ∈ ps, Stands p position n := by
  simp only [standsIn, decide_eq_true_eq]

end Node

theorem Datum.plainObeys {rule : Position → Node → Bool} {d : Datum} (plain : d.isPlain = true) :
    d.obeys rule = true := by
  obtain ⟨value, inside⟩ := plainParts plain
  simp only [obeys, Bool.and_eq_true, Array.all_eq_true_iff_forall_mem, List.all_eq_true]
  exact ⟨Value.carriesObeys _ (Value.plainCarries d.value value), fun frame member b bound =>
    Value.carriesObeys _ (Value.plainCarries b.2 (inside frame member b bound))⟩

namespace Operation

def program? : Operation → Option (List Node)
  | load program => some program
  | bind .. | dispatch _ | launch | pressKey _ => none

theorem standsObeys {op : Operation} {ps : List (List Node)} (plain : op.bindsPlain)
    (loaded : ∀ p, op.program? = some p → p ∈ ps) : op.obeys (Node.standsIn ps) = true := by
  cases op with
  | bind name datum => exact Datum.plainObeys plain
  | load program =>
    refine Node.obeysOfStands ?_
    intro position n stands
    exact Node.standsInIff.mpr ⟨program, loaded program rfl, stands⟩
  | dispatch | launch | pressKey => rfl

end Operation

def Value.isFunction : Value → Bool
  | .function .. => true
  | _ => false

namespace Moment

variable {k : Nat} {m : Machine} {scope : Scope} {e : EvalError}

theorem locatedLine (e₀ : EvalError) (line : Nat) : ((e₀.located (some line)).line).isSome = true := by
  obtain ⟨kind, message, first⟩ := e₀
  cases first <;> rfl

theorem statementGiven (n : Node) : n.givenLine .statement = some n.line := by
  rw [Node.givenLine, Position.given, ite_self]

theorem statementsLocated {ns : List Node} (h : Halts ⟨k, .statements ns scope, m⟩ (.error e)) :
    e.line.isSome = true := by
  induction ns generalizing m with
  | nil => exact absurd h (haltsPure _)
  | cons n ns ih =>
    rcases statementsHalt h with raised | ⟨t, starts, inside⟩
    · cases raised
    · cases starts with
      | statement runs =>
        obtain ⟨h₀, same, _⟩ := nodeHalts inside
        obtain ⟨e₀, rfl, rfl⟩ := Halt.locatedError same
        rw [statementGiven]
        exact locatedLine e₀ n.line
      | nextStatement => exact ih inside
      | declared => exact ih inside

theorem bodyLocated {ns : List Node} (h : Halts ⟨k, .body ns scope, m⟩ (.error e)) : e.line.isSome = true := by
  rcases bodyHalts h with raised | ⟨t, starts, inside⟩
  · cases raised
  · cases starts with
    | body => exact statementsLocated inside

/- With a call to spare a function gets to its body. -/
theorem closureLocated {c : Closure} {arguments : List Value}
    (h : Halts ⟨k + 1, .closure c arguments, m⟩ (.error e)) : e.line.isSome = true := by
  rcases closureHalts h with raised | ⟨t, starts, inside⟩
  · cases raised
  · cases starts with
    | entered => exact bodyLocated inside

theorem listenersLocated {chances : Nat} {ls : List Value} (functions : ∀ l ∈ ls, l.isFunction)
    (h : Halts ⟨k + 1, .listeners chances ls, m⟩ (.error e)) : e.line.isSome = true := by
  induction ls generalizing m with
  | nil => exact absurd h (haltsPure _)
  | cons l ls ih =>
    obtain ⟨first, rest⟩ := List.forall_mem_cons.mp functions
    cases l with
    | function identity c =>
      rcases listenersHalt h with raised | ⟨t, starts, inside⟩
      · cases raised with
        | deaf other => contradiction
      · cases starts with
        | listener => exact closureLocated inside
        | nextListener => exact ih rest inside
    | _ => contradiction

theorem dispatchLocated {chances : Nat} {event : String}
    (functions : ∀ l ∈ m.registry.listeners event, l.isFunction)
    (h : Halts ⟨k + 1, .dispatch chances event, m⟩ (.error e)) : e.line.isSome = true := by
  rcases dispatchHalts h with raised | ⟨t, starts, inside⟩
  · cases raised
  · cases starts with
    | listeners => exact listenersLocated functions inside

/- The moment that gives a line is busy with a statement, or with a node that is not an
expression where a value is used. -/
theorem lineGiven {s : Moment} {line : Nat} (h : s.line? = some line) :
    ∃ position n scope, s.task = .node position n scope ∧ n.line = line ∧
      (position = .statement ∨ n.isExpression = false) := by
  obtain ⟨k, task, m⟩ := s
  cases task with
  | node position n scope =>
    refine ⟨position, n, scope, rfl, ?_⟩
    simp only [line?, Node.givenLine] at h
    cases expression : n.isExpression with
    | false => exact ⟨by simpa [expression] using h, .inr rfl⟩
    | true =>
      cases position with
      | statement => exact ⟨by simpa [Position.given] using h, .inl rfl⟩
      | operand => simp [expression, Position.given] at h
  | _ => contradiction

end Moment

/- The line of something that stands in one of the programs: a statement in a list of
statements, or what is not an expression where a value is used. -/
def StatementLine (ps : List (List Node)) (line : Nat) : Prop :=
  ∃ p ∈ ps, ∃ position n, Node.Stands p position n ∧ n.line = line ∧
    (position = .statement ∨ n.isExpression = false)

section Sessions

variable {op : Operation} {m : Machine} {first : Moment} {ps : List (List Node)} {e : EvalError}

theorem failureStands (given : op.obeys (Node.standsIn ps) = true) (obeys : m.Obeys (Node.standsIn ps))
    (begins : op.Begins m first) (fails : first.Halts (.error e)) {line : Nat} (located : e.line = some line) :
    StatementLine ps line := by
  obtain ⟨t, path, lined⟩ := Moment.failsLine fails located
  obtain ⟨position, n, scope, busy, same, place⟩ := Moment.lineGiven lined
  obtain ⟨k, task, n'⟩ := t
  cases busy
  have suits := (Operation.passesAdmitted given obeys ⟨first, begins, path⟩).suits
  obtain ⟨p, member, stands⟩ := Node.standsInIff.mp (Node.obeysHere suits.1)
  exact ⟨p, member, position, n, stands, same, place⟩

theorem operationLocated (spent : m.depth = 0)
    (functions : ∀ event, op.event? = some event → ∀ l ∈ m.registry.listeners event, l.isFunction)
    (begins : op.Begins m first) (fails : first.Halts (.error e)) : e.line.isSome = true := by
  obtain ⟨k, all⟩ : ∃ k, m.allowed = k + 1 := ⟨maxCalls - 1, by rw [Machine.allowed, spent]; rfl⟩
  cases begins with
  | load => exact Moment.bodyLocated fails
  | dispatch | launch | pressKey =>
    rw [all] at fails
    exact Moment.dispatchLocated (functions _ rfl) fails

end Sessions

theorem runtimeErrorsAreLocated (answers : List (Option String)) (patience : Nat)
    (ops : List Operation) (op : Operation) (plain : ∀ o ∈ ops ++ [op], o.bindsPlain)
    (functions : ∀ event, op.event? = some event →
      ∀ l ∈ ((Machine.start answers patience).after ops).registry.listeners event, l.isFunction)
    (e : EvalError) (n : Machine)
    (failed : op.run ((Machine.start answers patience).after ops) = .error (.error e) n) :
    ∃ line, e.line = some line ∧ StatementLine ((ops ++ [op]).filterMap Operation.program?) line := by
  have spent := CallBudget.afterDepth ops (Machine.start answers patience)
  have rules : ∀ o ∈ ops ++ [op],
      o.obeys (Node.standsIn ((ops ++ [op]).filterMap Operation.program?)) = true := by
    intro o member
    refine Operation.standsObeys (plain o member) ?_
    intro p loaded
    exact List.mem_filterMap.mpr ⟨o, member, loaded⟩
  obtain ⟨before, given⟩ := List.forall_mem_append.mp rules
  have given := given op List.mem_cons_self
  have obeys := Machine.afterObeys before (startObeys _ answers patience)
  rcases op.beginsOrNot ((Machine.start answers patience).after ops) with
    ⟨first, begins⟩ | ⟨name, datum, rfl⟩ | ⟨program, line, rfl, stray⟩
  · have fails := Operation.beginsHalts begins ⟨n, failed⟩
    obtain ⟨line, located⟩ := Option.isSome_iff_exists.mp (operationLocated spent functions begins fails)
    exact ⟨line, located, failureStands given obeys begins fails located⟩
  · cases failed
  · rw [Operation.loadRefused stray] at failed
    cases failed
    obtain ⟨r, stands, same⟩ := Node.strayStands stray
    refine ⟨line, rfl, program, ?_, .statement, r, stands, same, .inl rfl⟩
    exact List.mem_filterMap.mpr ⟨.load program, List.mem_append_right _ List.mem_cons_self, rfl⟩

theorem errorOfSome {r : EStateM.Result Halt Machine (Option Nat)} {e : EvalError}
    (h : errorOf r = some e) : ∃ n, r = .error (.error e) n := by
  cases r with
  | ok answer n => contradiction
  | error halt n =>
    cases halt with
    | error e₀ => exact ⟨n, by rw [Option.some.inj h]⟩
    | overflow => contradiction

/- A handler that calls a function, which has an `if` for the value of an assignment. -/
def choosing : List Node :=
  [.function 1 "f" ["a"] [.assign 2 "b" (.cond 3 (.name 3 "c") [.call 4 "print" []] [] [])],
    .handler 6 "go" [.call 7 "f" [.name 7 "d"]]]

def choosingSession : List Operation := [.bind "d" ⟨#[], 1, .list 1 [.text "u"]⟩, .load choosing]

def choosingMachine : Machine := (Machine.start [] 1).after choosingSession

theorem choosingLocated :
    choosingMachine.registry.listeners "go" ≠ [] ∧
    ∃ n, (Operation.dispatch "go").run choosingMachine =
        .error (.error ⟨.reference, "c is not defined", some 3⟩) n ∧
      StatementLine [choosing] 3 := by
  have listening : ((choosingMachine.registry.listeners "go").map Value.isFunction) = [true] := by
    decide +kernel
  have fails : errorOf ((Operation.dispatch "go").run choosingMachine) =
      some ⟨.reference, "c is not defined", some 3⟩ := by decide +kernel
  obtain ⟨n, failed⟩ := errorOfSome fails
  have plain : ∀ op ∈ choosingSession ++ [.dispatch "go"], op.bindsPlain := by
    simp [choosingSession, Operation.bindsPlain, Datum.isPlain, Value.isPlain, Value.allPlain]
  have functions : ∀ event, (Operation.dispatch "go").event? = some event →
      ∀ l ∈ choosingMachine.registry.listeners event, l.isFunction := by
    rintro event ⟨⟩ l member
    have among := List.mem_map_of_mem (f := Value.isFunction) member
    rw [listening] at among
    exact List.mem_singleton.mp among
  refine ⟨?_, n, failed, ?_⟩
  · intro none
    rw [none] at listening
    contradiction
  · obtain ⟨line, located, stands⟩ := runtimeErrorsAreLocated [] 1 _ _ plain functions _ n failed
    cases located
    exact stands

/- The line of what fails in a return that stands for a value is not that of a statement of
the program: the only one is the assignment. -/
theorem returnForValueKeepsItsLine :
    ∃ n, (Operation.load [.assign 3 "x" (.result 5 (.name 5 "y"))]).run (Machine.start [] 1) =
        .error (.error ⟨.reference, "y is not defined", some 5⟩) n ∧
      ∀ e, Node.Stands [.assign 3 "x" (.result 5 (.name 5 "y"))] .statement e → e.line ≠ 5 := by
  have fails : errorOf ((Operation.load [.assign 3 "x" (.result 5 (.name 5 "y"))]).run (Machine.start [] 1)) =
      some ⟨.reference, "y is not defined", some 5⟩ := by decide +kernel
  obtain ⟨n, failed⟩ := errorOfSome fails
  refine ⟨n, failed, ?_⟩
  intro e stands same
  have rule : Node.obeyAll (fun position e => position.given e.line != some 5) .statement
      [.assign 3 "x" (.result 5 (.name 5 "y"))] = true := by decide
  have apart := Node.obeysHere (Node.standsObeys rule stands)
  simp [Position.given, same] at apart

end EventScript
