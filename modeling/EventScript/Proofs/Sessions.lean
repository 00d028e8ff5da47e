import Mathlib.Data.List.Forall2
import EventScript.Proofs.Translation

/-! What a host sees of a machine that it works with: after every operation the
answer or the failure, the console, the language and the texts of all listeners.
Function bodies cannot be seen. A session with translated programs looks as the one
with the programs themselves, up to the lines of failures. -/
namespace EventScript

structure Observation where
  answer : Except Halt (Option Nat)
  console : Console
  language : Value
  listeners : List (String × List String)

namespace Observation

def ofMachine (answer : Except Halt (Option Nat)) (m : Machine) : Observation where
  answer := answer
  console := m.console
  language := m.language.mapBodies fun _ => []
  listeners := m.registry.entries.map fun e => (e.1, e.2.map Value.toText)

def reline (f : Nat → Nat) (o : Observation) : Observation :=
  { o with answer := o.answer.mapError (Halt.reline f) }

theorem relineId (o : Observation) : o.reline id = o := by
  obtain ⟨answer, console, language, listeners⟩ := o
  cases answer with
  | ok answer => rfl
  | error halt =>
    have shape : reline id ⟨.error halt, console, language, listeners⟩ =
        ⟨.error (halt.reline id), console, language, listeners⟩ := rfl
    rw [shape, halt.relineId]

end Observation

/- A failing operation does not end the session. -/
def Operation.observations : List Operation → Machine → List Observation
  | [], _ => []
  | op :: ops, m =>
    match op.run m with
    | .ok answer n => .ofMachine (.ok answer) n :: observations ops n
    | .error halt n => .ofMachine (.error halt) n :: observations ops n

open Operation (observations)

namespace Lockstep

variable {S : Lockstep} {m n : Machine}

theorem machinesObserved (machines : S.Machines m n) (answer : Except Halt (Option Nat)) :
    Observation.ofMachine answer n = .ofMachine answer m := by
  have language : (S.value m.language).mapBodies (fun _ => []) = m.language.mapBodies fun _ => [] :=
    Value.mapBodiesTwice S.body (fun _ => []) m.language
  have listeners : ∀ ls : List Value, (ls.map S.value).map Value.toText = ls.map Value.toText := by
    intro ls
    rw [List.map_map]
    exact List.map_congr_left fun v _ => Value.mapBodiesText _ v
  simp only [Observation.ofMachine, machines.language, language, machines.registry, machines.console,
    Registry.map, List.map_map, Function.comp_def, listeners]

theorem observationsFollow (uncut : ∀ {m n}, ¬ S.Cut m n) {ops ops' : List Operation}
    (each : List.Forall₂ (fun op op' => S.Follows id op.run op'.run) ops ops')
    (machines : S.Machines m n) :
    observations ops' n = (observations ops m).map (Observation.reline S.line) := by
  induction each generalizing m n with
  | nil => rfl
  | cons first _ ih =>
    rw [observations, observations]
    rcases first.ends machines with ⟨left, right, after⟩ | ⟨left, right, after⟩ | ⟨_, _, cut⟩
    · simp only [left, right, machinesObserved after, ih after, List.map_cons]
      rfl
    · simp only [left, right, machinesObserved after, ih after, List.map_cons]
      rfl
    · exact absurd cut uncut

end Lockstep

theorem Translation.observationsFollow (t : Translation) (ops : List Operation) (m : Machine) :
    observations (ops.map t.operation) (t.machine m) =
      (observations ops m).map (Observation.reline t.line) := by
  refine Lockstep.observationsFollow (S := t.lockstep) id ?_ (t.machinesMapped m)
  rw [List.forall₂_map_right_iff, List.forall₂_same]
  exact fun op _ => operationFollows op

end EventScript
