import EventScript.Proofs.Conduct

/-! Regimes of what a machine holds. If functions made from obedient bodies are good, and
what is good may be bound and may listen, then what a task writes leaves a machine that
holds only such values. -/
namespace EventScript

open Evaluation Eval

namespace Value

variable {f : Closure → Prop} {g : Builtin → Prop}

theorem carriesAnswer {b : Builtin} {arguments : List Value} {m n : Machine} {v : Value}
    (other : b ≠ .dispatch) (done : b.call arguments m = .ok v n) : v.Carries f g := by
  cases b with
  | print | commandPrint | lang | register =>
    cases done
    simp only [Carries]
  | input =>
    obtain ⟨answer, o, _, given⟩ := okOfBind done
    cases answer <;> cases given <;> simp only [Carries]
  | int =>
    simp only [Builtin.call] at done
    split at done
    · cases done
      simp only [Carries]
    · contradiction
  | range =>
    simp only [Builtin.call] at done
    cases ranged : Builtin.rangeItems (arguments.headD .undefined) with
    | error e =>
      rw [ranged] at done
      contradiction
    | ok items =>
      rw [ranged] at done
      cases done
      refine carriesList.mpr ?_
      intro item member
      obtain ⟨k, rfl⟩ := rangeItemsNumbers ranged item member
      simp only [Carries]
  | dispatch => contradiction

end Value

structure Machine.Contains (P Q : String → Value → Prop) (m : Machine) : Prop where
  store : m.store.Each P
  registry : m.registry.Each Q

theorem initialCarries {f : Closure → Prop} {g : Builtin → Prop} {b : String × Value}
    (member : b ∈ Machine.initialBindings) (given : ∀ c, b = (Builtin.name c, .builtin c) → g c) :
    b.2.Carries f g := by
  rcases List.mem_append.mp member with constant | builtin
  · simp only [List.mem_cons, List.not_mem_nil, or_false] at constant
    rcases constant with rfl | rfl | rfl | rfl <;> simp only [Value.Carries]
  · obtain ⟨c, _, rfl⟩ := List.mem_map.mp builtin
    simp only [Value.Carries]
    exact given c rfl

theorem startContains {P Q : String → Value → Prop}
    (held : ∀ b ∈ Machine.initialBindings, P b.1 b.2) (answers : List (Option String))
    (patience : Nat) : (Machine.start answers patience).Contains P Q := by
  refine ⟨?_, List.forall_mem_nil _⟩
  intro i frame here
  cases i with
  | zero =>
    cases here
    exact held
  | succ i => contradiction

namespace Regime

structure Holding (R : Regime) (P Q : String → Value → Prop) : Prop where
  binds : ∀ {name v}, R.Good v → P name v
  listens : ∀ {event v}, R.Good v → Q event v
  makes : ∀ {scope m body}, R.Within scope m → Node.obeyAll R.rule .statement body = true →
    ∀ identity name parameters, R.Good (.function identity ⟨name, parameters, body, scope⟩)
  undefined : R.Good .undefined

variable {R : Regime} {P Q : String → Value → Prop} (holding : R.Holding P Q)
include holding

theorem builtinContains {m n : Machine} {arguments : List Value} (held : m.Contains P Q)
    (given : R.GoodAll arguments) (left : BuiltinLeaves arguments m n) : n.Contains P Q := by
  cases left with
  | nothing | tells | asks | speaks | makes => exact ⟨held.store, held.registry⟩
  | registers event =>
    have second : R.Good (arguments.getD 1 .undefined) := by
      rw [List.getD_eq_getElem?_getD]
      cases found : arguments[1]? with
      | none => exact holding.undefined
      | some v => exact given v (List.mem_of_getElem? found)
    exact ⟨held.store, Registry.registerEach held.registry (holding.listens second)⟩

theorem functionContains {m : Machine} {scope : Scope} {body : List Node} (held : m.Contains P Q)
    (good : ∀ identity name parameters, R.Good (.function identity ⟨name, parameters, body, scope⟩))
    (name : String) (parameters : List String) :
    ((declareFunction scope name parameters body).leaves m).Contains P Q :=
  ⟨Store.eachDefine held.store (holding.binds (good _ name parameters)), held.registry⟩

theorem writesContain {s : Moment} {a b : Machine} {given : List Value} (admits : R.Admits s)
    (good : R.GoodAll given) (held : a.Contains P Q) (written : Writes s a given b) :
    b.Contains P Q := by
  cases written with
  | declares | assigns =>
    exact ⟨Store.eachDefine held.store (holding.binds (good _ List.mem_cons_self)), held.registry⟩
  | makes =>
    obtain ⟨obeys, within, _⟩ := admits.suits
    simp only [Node.obeys, Bool.and_eq_true] at obeys
    exact functionContains holding held (holding.makes within obeys.2) _ _
  | listens =>
    obtain ⟨obeys, within, _⟩ := admits.suits
    simp only [Node.obeys, Bool.and_eq_true] at obeys
    have listener := holding.makes within obeys.2 0 "" []
    exact ⟨held.store, Registry.registerEach held.registry (holding.listens listener)⟩
  | opens before =>
    have placed : R.Placed _ _ _ := admits.suits
    have obeys := Node.obeyAllIff.mp placed.obeys _ (List.mem_append_right _ List.mem_cons_self)
    simp only [Node.obeys, Bool.and_eq_true] at obeys
    exact functionContains holding held (holding.makes placed.within obeys.2) _ _
  | @turns k name item items body scope =>
    have entered := Store.eachEnter held.store false scope.path
    have good := admits.suits.1 item List.mem_cons_self
    exact ⟨Store.eachDefine entered (holding.binds good), held.registry⟩
  | answers => exact builtinContains holding held admits.suits.2 (builtinLeaves _ _ a)
  | notifies => exact builtinContains holding held (List.forall_mem_nil _) (builtinLeaves _ _ a)

theorem hoistEach {s : Store} {n : Machine} {scope : Scope} {ns : List Node} (held : s.Each P)
    (within : R.Within scope n) (obeys : Node.obeyAll R.rule .statement ns = true) :
    (hoist scope s ns).Each P := by
  refine Store.eachHoist (fun _ => holding.binds holding.undefined) held ?_
  intro line name parameters body member identity
  have inside := Node.obeyAllIff.mp obeys _ member
  simp only [Node.obeys, Bool.and_eq_true] at inside
  exact holding.binds (holding.makes within inside.2 _ _ _)

theorem entryContains {m n : Machine} {c : Closure} {arguments : List Value} (held : m.Contains P Q)
    (given : R.GoodAll arguments) (within : R.Within (c.entry arguments m).1 n)
    (obeys : Node.obeyAll R.rule .statement c.body = true) :
    (c.entry arguments m).2.Contains P Q := by
  have entered := Store.eachEnter held.store true c.scope.path
  refine ⟨hoistEach holding ?_ within obeys, held.registry⟩
  refine Store.eachParameters (fun _ => holding.binds holding.undefined) entered c.parameters ?_
  intro v member name
  exact holding.binds (given v member)

end Regime

end EventScript
