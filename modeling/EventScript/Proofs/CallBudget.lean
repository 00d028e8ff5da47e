import EventScript.Proofs.Leaving

/-! The calls of program functions that a machine counts are the calls in progress.
Every task gives back what it counted, however it ends, so a session finds all its
calls allowed whenever an operation begins. -/
namespace EventScript

open Evaluation Eval

namespace Moment

/- A moment that a run comes to, with the functions whose bodies are running then, the
innermost one first. -/
inductive Inside (first : Moment) : List Closure → Moment → Prop where
  | first : Inside first [] first
  | enters {running k c arguments m t} (before : Inside first running ⟨k, .closure c arguments, m⟩)
      (starts : Starts ⟨k, .closure c arguments, m⟩ t) : Inside first (c :: running) t
  | goesOn {running s t} (before : Inside first running s)
      (other : ∀ c arguments, s.task ≠ .closure c arguments) (starts : Starts s t) :
      Inside first running t

end Moment

namespace Regime

variable {R : Regime} (lawful : R.Lawful)
include lawful

end Regime

namespace CallBudget

variable {m n : Machine}

def Level (m n : Machine) : Prop := n.depth = m.depth

abbrev regime : Regime := .ofMachines (fun _ => True) Level fun _ => True

theorem lawful : regime.Lawful := by
  refine Regime.lawfulMachines rfl ?_ (fun _ _ => trivial) ?_ (fun _ _ => trivial) ?_
  · intro l m n first second
    exact Eq.trans second first
  · intro s a given b _ _ written
    exact ⟨trivial, (writesLevel written).1⟩
  · intro k c arguments m n _ _ _ level
    -- The body ran one call deeper and left that depth.
    have deeper : n.depth = m.depth + 1 := level
    refine ⟨trivial, ?_⟩
    show n.depth - 1 = m.depth
    rw [deeper, Nat.add_sub_cancel]

theorem admits (s : Moment) : regime.Admits s := Regime.admitsMachines trivial trivial

theorem hoistedDepth (s : Moment) : s.hoisted.machine.depth = s.machine.depth := by
  obtain ⟨k, task, m⟩ := s
  cases task <;> rfl

theorem leavesDepth (s : Moment) : s.leaves.depth = s.machine.depth := by
  rw [← hoistedDepth]
  exact (Regime.holdsKept (Regime.holds lawful (admits s))).later

theorem operationDepth (op : Operation) (m : Machine) : (op.run.leaves m).depth = m.depth := by
  rcases op.beginsOrNot m with
    ⟨first, begins⟩ | ⟨name, datum, rfl⟩ | ⟨program, line, rfl, stray⟩
  · rw [Regime.beginsLeaves begins, leavesDepth]
    cases begins <;> rfl
  · rfl
  · rw [leavesError (Operation.loadRefused stray m)]

theorem afterDepth (ops : List Operation) (m : Machine) : (m.after ops).depth = m.depth := by
  induction ops generalizing m with
  | nil => rfl
  | cons op ops ih =>
    calc (m.after (op :: ops)).depth = (op.run.leaves m).depth := ih _
      _ = m.depth := operationDepth op m

end CallBudget

def errorOf : EStateM.Result Halt Machine (Option Nat) → Option EvalError
  | .ok _ _ => none
  | .error (.error e) _ => some e
  | .error .overflow _ => none

end EventScript
