import EventScript.Proofs.Conduct
import EventScript.Proofs.Failures

/-! Every operation answers. A run that overflows has come to a dispatch without chances. A
dispatch has as many as the machine has patience, which never changes, and loses one only to
a listener that dispatches the event `undefined`. -/
namespace EventScript

open Evaluation Eval

namespace Regime

def patient (patience : Nat) : Regime :=
  ofMachines (fun m => m.patience = patience) (fun _ _ => True) fun _ => True

theorem patientLawful (patience : Nat) : (patient patience).Lawful :=
  lawfulMachines trivial (fun _ _ => trivial) (fun _ _ => trivial)
    (fun _ fit writes => ⟨(writesLevel writes).2.trans fit, trivial⟩) (fun _ fit => fit)
    (fun _ _ fit _ => ⟨fit, trivial⟩)

end Regime

namespace Moment

theorem hoistedPatience (s : Moment) : s.hoisted.machine.patience = s.machine.patience := by
  obtain ⟨k, task, m⟩ := s
  cases task <;> rfl

theorem reachedPatience {s t : Moment} (path : Relation.ReflTransGen Starts s t) :
    t.machine.patience = s.machine.patience := by
  have first : (Regime.patient s.machine.patience).Admits s :=
    Regime.admitsMachines trivial (hoistedPatience s)
  have last := (Regime.reached (Regime.patientLawful _) first path).fit
  exact (hoistedPatience t).symm.trans last

/- A dispatch has all its chances, or all but one if a listener without arguments
asked for it, which no listener does a second time. -/
def Supplied (s : Moment) : Prop :=
  match s.task with
  | .dispatch chances event =>
    chances = s.machine.patience ∨ chances + 1 = s.machine.patience ∧ event = Value.undefined.toText
  | .listeners chances ls =>
    chances + 1 = s.machine.patience ∨
      chances + 2 = s.machine.patience ∧ Value.builtin .dispatch ∉ ls
  | _ => True

def Quiet (s : Moment) : Prop :=
  ∀ chances, s.task = .dispatch chances "undefined" →
    Value.builtin .dispatch ∉ s.machine.registry.listeners "undefined"

theorem startsSupplied {s t : Moment} (h : Starts s t) (quiet : Quiet s) (supplied : Supplied s) :
    Supplied t := by
  have steady := reachedPatience (.single h)
  cases h with
  | dispatched => exact .inl rfl
  | @listeners k chances event m =>
    rcases supplied with whole | ⟨less, rfl⟩
    · exact .inl whole
    -- The event is `undefined` here, so its listeners do not dispatch again.
    · exact .inr ⟨less, quiet _ rfl⟩
  | redispatched =>
    rcases supplied with whole | ⟨_, absent⟩
    · exact .inr ⟨whole, rfl⟩
    · exact absurd List.mem_cons_self absent
  | nextListener =>
    rcases supplied with whole | ⟨less, absent⟩
    · exact .inl (whole.trans steady.symm)
    · exact .inr ⟨less.trans steady.symm, fun member => absent (List.mem_cons_of_mem _ member)⟩
  | _ => trivial

theorem reachedSupplied {s t : Moment} (path : Relation.ReflTransGen Starts s t)
    (quiet : ∀ u, Relation.ReflTransGen Starts s u → Quiet u) (supplied : Supplied s) :
    Supplied t := by
  induction path with
  | refl => exact supplied
  | tail path starts ih => exact startsSupplied starts (quiet _ path) ih

end Moment

namespace Operation

variable {op : Operation} {m n : Machine}

theorem beginsSupplied {s : Moment} (h : Begins op m s) : s.Supplied := by
  cases h with
  | load => trivial
  | dispatch | launch | pressKey => exact .inl rfl

theorem beginsMachine {s : Moment} (h : Begins op m s) : s.machine = m := by
  cases h <;> rfl

theorem leavesPatience (op : Operation) (m : Machine) : (op.run.leaves m).patience = m.patience := by
  rcases op.beginsOrNot m with ⟨first, begins⟩ | ⟨name, datum, rfl⟩ | ⟨program, line, rfl, stray⟩
  · have admits : (Regime.patient m.patience).Admits first := by
      refine Regime.admitsMachines trivial ?_
      rw [Moment.hoistedPatience, beginsMachine begins]
    exact (Regime.operationKeeps (Regime.patientLawful _) begins admits trivial).kept.fit
  · rfl
  · rw [leavesError (loadRefused stray m)]

/- Where patience is spent, the run has come to a dispatch that has no chance left. -/
theorem overflowPasses (h : op.run m = .error .overflow n) :
    ∃ s event, op.Passes m s ∧ s.task = .dispatch 0 event := by
  rcases op.beginsOrNot m with ⟨first, begins⟩ | ⟨name, datum, rfl⟩ | ⟨program, line, rfl, stray⟩
  · obtain ⟨s, event, path, out⟩ := Moment.overflowSpent (beginsHalts begins ⟨n, h⟩)
    exact ⟨s, event, ⟨first, begins, path⟩, out⟩
  · cases h
  · rw [loadRefused stray] at h
    cases h

end Operation

theorem operationsFinish (op : Operation) (m : Machine) (patient : 2 ≤ m.patience)
    (quiet : ∀ k chances n, op.Passes m ⟨k, .dispatch chances "undefined", n⟩ →
      Value.builtin .dispatch ∉ n.registry.listeners "undefined") :
    (∃ answer n, op.run m = .ok answer n) ∨ ∃ e n, op.run m = .error (.error e) n := by
  cases result : op.run m with
  | ok answer n => exact .inl ⟨answer, n, rfl⟩
  | error halt n =>
    cases halt with
    | error e => exact .inr ⟨e, n, rfl⟩
    | overflow =>
      obtain ⟨⟨k, task, o⟩, event, ⟨first, begins, path⟩, rfl⟩ := Operation.overflowPasses result
      have aside : ∀ u, Relation.ReflTransGen Starts first u → u.Quiet := by
        rintro ⟨k, task, n⟩ reached chances rfl
        exact quiet k chances n ⟨first, begins, reached⟩
      have steady : o.patience = first.machine.patience := Moment.reachedPatience path
      rw [Operation.beginsMachine begins] at steady
      -- At least one chance is left, since there were two.
      rcases Moment.reachedSupplied path aside (Operation.beginsSupplied begins) with whole | ⟨less, _⟩
      · have none : 0 = o.patience := whole
        omega
      · have one : 0 + 1 = o.patience := less
        omega

/- A listener that dispatches without arguments, and one of the event this names. -/
def echoing : Machine :=
  { Machine.start [] 2 with
    registry := ⟨[("go", [.builtin .dispatch]), ("undefined", [.builtin .print])]⟩ }

inductive Echo : Moment → Prop where
  | go {k chances} : Echo ⟨k, .dispatch chances "go", echoing⟩
  | asking {k chances} : Echo ⟨k, .listeners chances [.builtin .dispatch], echoing⟩
  | again {k chances} : Echo ⟨k, .dispatch chances "undefined", echoing⟩
  | printing {k chances} : Echo ⟨k, .listeners chances [.builtin .print], echoing⟩
  | done {k chances n} : Echo ⟨k, .listeners chances [], n⟩

theorem echoStarts {s t : Moment} (h : Starts s t) (echo : Echo s) : Echo t := by
  cases echo with
  | go => cases h; exact .asking
  | asking =>
    cases h with
    | redispatched => exact .again
    | nextListener => exact .done
  | again => cases h; exact .printing
  | printing => cases h; exact .done
  | done => cases h

theorem echoReached {s t : Moment} (path : Relation.ReflTransGen Starts s t) (echo : Echo s) :
    Echo t := by
  induction path with
  | refl => exact echo
  | tail path starts ih => exact echoStarts starts ih

theorem echoQuiet {s : Moment} (echo : Echo s) : s.Quiet := by
  intro chances same
  cases echo with
  | again =>
    have only : echoing.registry.listeners "undefined" = [.builtin .print] := rfl
    simp [only]
  | _ => simp at same

theorem echoingFinishes :
    2 ≤ echoing.patience ∧
      (∃ k chances, (Operation.dispatch "go").Passes echoing ⟨k, .dispatch chances "undefined", echoing⟩) ∧
      ((∃ answer n, (Operation.dispatch "go").run echoing = .ok answer n) ∨
        ∃ e n, (Operation.dispatch "go").run echoing = .error (.error e) n) := by
  refine ⟨Nat.le_refl 2, ?_, ?_⟩
  · exact ⟨_, _, _, .dispatch, .tail (.tail .refl .listeners) .redispatched⟩
  · refine operationsFinish _ _ (Nat.le_refl 2) ?_
    rintro k chances n ⟨first, begins, path⟩
    cases begins
    exact echoQuiet (echoReached path .go) chances rfl

end EventScript
