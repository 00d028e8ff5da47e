import EventScript.Proofs.Upkeep

/-! Calls are local. Where assignments stand only as statements, a call or a dispatch
leaves every frame that was there before it as it was: what it declares goes to the
frame of the call, and no scope that it makes reaches past that frame. -/
namespace EventScript

open Evaluation

/- An assignment is a statement of its own and no part of an expression. -/
def Node.assignsAlone : Position → Node → Bool
  | .operand, .assign .. => false
  | _, _ => true

theorem assignsAloneSheltered (bound : Nat) : Sheltered Node.assignsAlone bound := by
  intro line target value h
  contradiction

namespace Eval

variable {α : Type}

/- Every frame that is there has the same names bound to the same values afterwards. -/
def Spares (x : Eval α) (m : Machine) : Prop :=
  ∀ i < m.store.frames.size, (x.leaves m).store.frames[i]? = m.store.frames[i]?

end Eval

open Eval

def Moment.Spares : Moment → Prop
  | ⟨k, .value name callee arguments, m⟩ => Eval.Spares (calling k name callee arguments) m
  | ⟨k, .closure closure arguments, m⟩ => Eval.Spares (call k closure arguments) m
  | ⟨k, .dispatch chances event, m⟩ => Eval.Spares (fire (call k) chances event) m
  | _ => True

namespace Regime

/- The bound is what there is when the task starts. -/
theorem admittedSpares {s : Moment} (h : (upkeep Node.assignsAlone 0).Admits s) : s.Spares := by
  obtain ⟨k, task, m⟩ := s
  have size := Nat.le_refl m.store.frames.size
  have lawful := upkeepLawful (assignsAloneSheltered m.store.frames.size)
  cases task with
  | value name callee arguments =>
    have held : (upkeep Node.assignsAlone m.store.frames.size).Holds ⟨k, .value name callee arguments, m⟩ :=
      holds lawful ⟨trivial, ⟨h.fit.obeys, size⟩, h.suits⟩
    exact held.kept.later.below
  | closure closure arguments =>
    have held : (upkeep Node.assignsAlone m.store.frames.size).Holds ⟨k, .closure closure arguments, m⟩ :=
      holds lawful ⟨trivial, ⟨h.fit.obeys, size⟩, h.suits⟩
    exact held.kept.later.below
  | dispatch chances event =>
    have held : (upkeep Node.assignsAlone m.store.frames.size).Holds ⟨k, .dispatch chances event, m⟩ :=
      holds lawful ⟨trivial, ⟨h.fit.obeys, size⟩, trivial⟩
    exact held.kept.later.below
  | _ => trivial

end Regime

theorem callsSpareFrames (m : Machine) (held : m.Obeys Node.assignsAlone) :
    (∀ allowed name callee arguments, callee.obeys Node.assignsAlone = true →
      (∀ a ∈ arguments, a.obeys Node.assignsAlone = true) →
        Spares (calling allowed name callee arguments) m) ∧
    (∀ event, Spares (Machine.dispatch event) m) ∧
    ∀ op : Operation, op.obeys Node.assignsAlone = true →
      (∀ s, op.Passes m s → s.Spares) ∧ (op.run.leaves m).Obeys Node.assignsAlone := by
  refine ⟨?_, ?_, ?_⟩
  · intro allowed name callee arguments function given
    exact Regime.admittedSpares (s := ⟨allowed, .value name callee arguments, m⟩)
      ⟨trivial, fitAny held, function, given⟩
  · intro event
    have fired : Spares (fire (call m.allowed) m.patience event) m :=
      Regime.admittedSpares (s := ⟨m.allowed, .dispatch m.patience event, m⟩) ⟨trivial, fitAny held, trivial⟩
    rw [Spares, leavesSame (Machine.dispatchOpens event m)]
    exact fired
  · intro op given
    constructor
    · intro s passes
      exact Regime.admittedSpares (Operation.passesAdmitted given held passes)
    · exact Operation.leavesObeys given held

def settingFunction : Value :=
  .function 1 ⟨"f", ["n"], [.assign 1 "x" (.name 1 "n"),
    .loop 2 "c" (.literal 2 (.text "ab")) [.assign 3 "x" (.name 3 "c"), .function 4 "g" [] []]],
    Machine.globals⟩

def settingMachine : Machine :=
  { Machine.start [] 1 with store := ⟨#[⟨true, [("x", .null), ("f", settingFunction)]⟩], 2⟩ }

theorem settingObeys : settingMachine.Obeys Node.assignsAlone := by
  have bodies : settingFunction.obeys Node.assignsAlone = true := rfl
  refine ⟨?_, ?_, rfl⟩
  · intro i frame here b member
    have first : i = 0 := by
      obtain ⟨inside, _⟩ := Array.getElem?_eq_some_iff.mp here
      simpa [settingMachine] using inside
    subst first
    cases here
    have pair : b ∈ [("x", Value.null), ("f", settingFunction)] := member
    simp only [List.mem_cons, List.not_mem_nil, or_false] at pair
    rcases pair with rfl | rfl
    · rfl
    · exact bodies
  · intro entry member
    cases member

theorem settingSpares :
    settingMachine.Obeys Node.assignsAlone ∧
      Spares (calling maxCalls "f" settingFunction [.bool true]) settingMachine := by
  refine ⟨settingObeys, (callsSpareFrames settingMachine settingObeys).1 _ _ _ _ rfl ?_⟩
  intro a member
  rw [List.mem_singleton.mp member]
  rfl

end EventScript
