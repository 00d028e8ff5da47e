import EventScript.Proofs.Conduct

/-! The end of a task comes later than the end of every task that it starts, and so
each moment of a run comes before what the run leaves. -/
namespace EventScript

open Evaluation Eval

/- The machine that a task leaves. -/
def Moment.leaves : Moment → Machine
  | ⟨k, .node position e scope, m⟩ => (perform (calling k) position e scope).leaves m
  | ⟨k, .operands es scope, m⟩ => (operands (calling k) es scope).leaves m
  | ⟨k, .statements ns scope, m⟩ => (statements (calling k) ns scope).leaves m
  | ⟨k, .block ns scope, m⟩ => (block k ns scope).leaves m
  | ⟨k, .branches bs otherwise scope, m⟩ =>
    (choose (calling k) bs scope (block k otherwise scope)).leaves m
  | ⟨k, .turns name items body scope, m⟩ => (forItems (turn k name body scope) items).leaves m
  | ⟨k, .body ns scope, m⟩ =>
    (statements (calling k) ns scope).leaves { m with store := hoist scope m.store ns }
  | ⟨k, .value name callee arguments, m⟩ => (calling k name callee arguments).leaves m
  | ⟨k, .closure c arguments, m⟩ => (call k c arguments).leaves m
  | ⟨k, .dispatch chances event, m⟩ => (fire (call k) chances event).leaves m
  | ⟨k, .listeners chances ls, m⟩ => (ls.forM (notify (call k) (redispatch k chances))).leaves m

namespace Eval

variable {α β : Type} {x : Eval α} {m n : Machine}

theorem leavesLocated (position : Position) (line : Nat) (x : Eval α) (m : Machine) :
    (located position line x).leaves m = x.leaves m := by
  cases position with
  | statement => exact leavesAtLine line x m
  | operand => rfl

theorem lookupFound {scope : Scope} {name : String} {v : Value}
    (found : m.store.get? scope name = some v) : lookup scope name m = .ok v m := by
  simp only [lookup, found]

end Eval

namespace Regime

variable {R : Regime} {m n : Machine} {k : Nat} {scope : Scope}

theorem holdsKept {s : Moment} (h : R.Holds s) : R.Kept s.hoisted.machine s.leaves := by
  obtain ⟨k, task, m⟩ := s
  cases task <;> exact h.kept

variable (lawful : R.Lawful)
include lawful

theorem laterBind {α β : Type} {x : Eval α} {f : α → Eval β}
    (next : ∀ a n, x m = .ok a n → R.Later n ((f a).leaves n)) :
    R.Later (x.leaves m) ((x >>= f).leaves m) := by
  cases done : x m with
  | ok a n =>
    rw [leavesOk done, leavesNext done]
    exact next a n done
  | error e n =>
    have fails : (x >>= f) m = .error e n := by simp only [bind, EStateM.bind, done]
    rw [leavesError done, leavesError fails]
    exact lawful.refl

theorem laterSame (same : n = m) : R.Later m n := by
  rw [same]
  exact lawful.refl

theorem notifiedLeaves {l : Value} {ls : List Value} {chances : Nat} {o : Machine}
    (same : (notify (call k) (redispatch k chances) l).leaves m = o)
    (next : ∀ n, notify (call k) (redispatch k chances) l m = .ok () n →
      R.Later n (Moment.leaves ⟨k, .listeners chances ls, n⟩)) :
    R.Later o (Moment.leaves ⟨k, .listeners chances (l :: ls), m⟩) := by
  rw [← same]
  refine laterBind lawful ?_
  intro _ n before
  exact next n before

theorem startsLeave {s t : Moment} (returning : ∀ n, R.Later n { n with depth := n.depth - 1 })
    (admits : R.Admits s) (h : Starts s t) : R.Later t.leaves s.leaves := by
  have starts : ∀ {t}, Starts s t → R.Holds t := fun start =>
    holds lawful (startsAdmitted lawful admits (fun _ _ admitted => holds lawful admitted) start)
  have later : ∀ {t}, Starts s t → R.Later t.hoisted.machine t.leaves := fun start =>
    (holdsKept (starts start)).later
  cases h with
  | left =>
    simp only [Moment.leaves, perform, leavesLocated]
    refine laterBind lawful ?_
    intro a n before
    rw [leavesBind fun _ _ => rfl]
    exact later (.right before)
  | right before =>
    simp only [Moment.leaves, perform, leavesLocated, leavesNext before]
    refine laterSame lawful ?_
    rw [leavesBind fun _ _ => rfl]
  | @assigned k position line target value scope m =>
    simp only [Moment.leaves, perform, leavesLocated]
    refine laterBind lawful ?_
    intro flow n before
    obtain ⟨kept, good⟩ := keepsOk (starts .assigned) before
    have given : R.GoodAll [flow.operand] := List.forall_mem_singleton.mpr (operandGood lawful good)
    cases position with
    | statement => exact (lawful.writes admits kept given (.declares before)).later
    | operand => exact (lawful.writes admits kept given (.assigns before)).later
  | arguments found =>
    simp only [Moment.leaves, perform, leavesLocated, leavesNext (lookupFound found)]
    refine laterBind lawful ?_
    intro values n before
    rw [leavesBind fun _ _ => rfl]
    exact later (.called found before)
  | called found before =>
    simp only [Moment.leaves, perform, leavesLocated, leavesNext (lookupFound found),
      leavesNext before]
    refine laterSame lawful ?_
    rw [leavesBind fun _ _ => rfl]
  | test =>
    simp only [Moment.leaves, perform, leavesAtLine]
    refine laterBind lawful ?_
    intro flow n before
    cases holds : flow.operand.isTruthy with
    | true => exact later (.held before holds)
    | false => exact later (.failed before holds)
  | held before holds =>
    simp only [Moment.leaves, perform, leavesAtLine, leavesNext before, holds, if_true]
    exact lawful.refl
  | failed before fails =>
    simp only [Moment.leaves, perform, leavesAtLine, leavesNext before, fails, Bool.false_eq_true,
      if_false]
    exact lawful.refl
  | source =>
    simp only [Moment.leaves, perform, leavesAtLine]
    refine laterBind lawful ?_
    intro flow n before
    obtain ⟨kept, good⟩ := keepsOk (starts .source) before
    refine lawful.trans (keepsItems lawful kept.fit (operandGood lawful good)).kept.later ?_
    refine laterBind lawful ?_
    intro items o listed
    cases itemsOk listed
    exact later (.turns before listed)
  | turns before listed =>
    simp only [Moment.leaves, perform, leavesAtLine, leavesNext before, leavesNext listed]
    exact lawful.refl
  | result =>
    simp only [Moment.leaves, perform, leavesAtLine]
    refine laterSame lawful ?_
    rw [leavesBind fun _ _ => rfl]
  | operand =>
    simp only [Moment.leaves, operands]
    refine laterBind lawful ?_
    intro flow n before
    rw [leavesBind fun _ _ => rfl]
    exact later (.nextOperand before)
  | nextOperand before =>
    simp only [Moment.leaves, operands, leavesNext before]
    refine laterSame lawful ?_
    rw [leavesBind fun _ _ => rfl]
  | statement runs =>
    simp only [Moment.leaves, statements, runs, Bool.false_eq_true, if_false]
    refine laterBind lawful ?_
    intro flow n before
    cases flow with
    | returned v => exact lawful.refl
    | next v => exact later (.nextStatement runs before)
  | nextStatement runs before =>
    simp only [Moment.leaves, statements, runs, Bool.false_eq_true, if_false, leavesNext before]
    exact lawful.refl
  | declared function =>
    simp only [Moment.leaves, statements, function, if_true]
    exact lawful.refl
  | block before =>
    simp only [Moment.leaves, Evaluation.block, leavesNext before]
    exact lawful.refl
  | branchTest =>
    simp only [Moment.leaves, choose]
    refine laterBind lawful ?_
    intro flow n before
    cases holds : flow.operand.isTruthy with
    | true => exact later (.branchHeld before holds)
    | false => exact later (.branchFailed before holds)
  | branchHeld before holds =>
    simp only [Moment.leaves, choose, leavesNext before, holds, if_true]
    exact lawful.refl
  | branchFailed before fails =>
    simp only [Moment.leaves, choose, leavesNext before, fails, Bool.false_eq_true, if_false]
    exact lawful.refl
  | otherwise =>
    simp only [Moment.leaves, choose]
    exact lawful.refl
  | @turn k name item items body scope m inner n before =>
    have same : (Evaluation.turn k name body scope item).leaves m = (block k body inner).leaves n :=
      leavesNext before
    simp only [Moment.leaves, forItems, ← same]
    refine laterBind lawful ?_
    intro flow o ended
    cases flow with
    | returned v => exact lawful.refl
    | next v => exact later (.nextTurn ended)
  | nextTurn before =>
    simp only [Moment.leaves, forItems, leavesNext before]
    exact lawful.refl
  | body => exact lawful.refl
  | @dispatched k name arguments m =>
    refine laterSame lawful ?_
    simp only [Moment.leaves, leavesSame (invokeDispatch (call k) name arguments m)]
    exact leavesBind (fun _ _ => rfl) m
  | function => exact lawful.refl
  | entered before =>
    cases before
    simp only [Moment.leaves, callLeaves]
    exact returning _
  | @listeners k chances event m =>
    refine laterSame lawful ?_
    simp only [Moment.leaves]
    rw [leavesSame (fireOpens (call k) chances event m), leavesBind fun _ _ => rfl]
    rfl
  | @redispatched k chances ls m =>
    have same : (notify (call k) (redispatch k chances) (.builtin .dispatch)).leaves m =
        (redispatch k chances).leaves m := leavesBind (fun _ _ => rfl) m
    exact notifiedLeaves lawful same fun n before => later (.nextListener before)
  | @listener k chances identity c ls m =>
    have same : (notify (call k) (redispatch k chances) (.function identity c)).leaves m =
        (call k c []).leaves m := leavesBind (fun _ _ => rfl) m
    exact notifiedLeaves lawful same fun n before => later (.nextListener before)
  | nextListener before => exact laterSame lawful (leavesNext before)

theorem reachedLeaves {s t : Moment} (returning : ∀ n, R.Later n { n with depth := n.depth - 1 })
    (admits : R.Admits s) (path : Relation.ReflTransGen Starts s t) : R.Later t.leaves s.leaves := by
  induction path with
  | refl => exact lawful.refl
  | tail before starts ih =>
    exact lawful.trans (startsLeave lawful returning (reached lawful admits before) starts) ih

omit lawful in
theorem beginsLeaves {op : Operation} {first : Moment} (begins : op.Begins m first) :
    op.run.leaves m = first.leaves := by
  have fired : ∀ event, (some <$> Machine.dispatch event).leaves m =
      Moment.leaves ⟨m.allowed, .dispatch m.patience event, m⟩ := by
    intro event
    rw [map_eq_pure_bind, leavesBind fun _ _ => rfl, leavesSame (Machine.dispatchOpens event m)]
    rfl
  cases begins with
  | load legal =>
    rw [leavesSame (Operation.loadRuns legal m), leavesBind fun _ _ => rfl]
    rfl
  | dispatch | launch | pressKey => exact fired _

/- Every moment of an operation comes before its end. -/
theorem passedLater {op : Operation} {first s : Moment}
    (returning : ∀ n, R.Later n { n with depth := n.depth - 1 }) (begins : op.Begins m first)
    (admits : R.Admits first) (path : Relation.ReflTransGen Starts first s) :
    R.Later s.hoisted.machine (op.run.leaves m) := by
  have ends := (holdsKept (holds lawful (reached lawful admits path))).later
  rw [beginsLeaves begins]
  exact lawful.trans ends (reachedLeaves lawful returning admits path)

end Regime

end EventScript
