import EventScript.Proofs.Lockstep

/-! Programs written another way. A translation rewrites trees constructor by
constructor, and a conditional into any node that runs as the conditional does. A
machine whose bodies are all translated follows the one that it was made from. -/
namespace EventScript
open Evaluation

structure Translation where
  node : Node → Node
  line : Nat → Nat
  literal : ∀ l v, node (.literal l v) = .literal (line l) v
  name : ∀ l s, node (.name l s) = .name (line l) s
  binary : ∀ l op a b, node (.binary l op a b) = .binary (line l) op (node a) (node b)
  assign : ∀ l s v, node (.assign l s v) = .assign (line l) s (node v)
  call : ∀ l s vs, node (.call l s vs) = .call (line l) s (vs.map node)
  function : ∀ l s ps b, node (.function l s ps b) = .function (line l) s ps (b.map node)
  loop : ∀ l s i b, node (.loop l s i b) = .loop (line l) s (node i) (b.map node)
  handler : ∀ l e b, node (.handler l e b) = .handler (line l) e (b.map node)
  result : ∀ l v, node (.result l v) = .result (line l) (node v)
  cond : ∀ l c b bs o, Node.Alike (node (.cond l c b bs o))
    (.cond (line l) (node c) (b.map node) (bs.map (Branch.map node)) (o.map node))

namespace Translation

attribute [simp] literal name binary assign call function loop handler result

variable (t : Translation)

def value : Value → Value := Value.mapBodies (List.map t.node)

def store : Store → Store := Store.mapBodies (List.map t.node)

def machine : Machine → Machine := Machine.mapBodies (List.map t.node)

/- Both runs have the same depth and patience, and neither is cut off. -/
def lockstep : Lockstep where
  node := t.node
  body := List.map t.node
  line := t.line
  Stores s s' := s' = t.store s
  Depths d d' := d' = d
  Patience c c' := c' = c
  Later _ _ := True
  Limit _ := False
  Cut _ _ := False

theorem storesMatch : Store.Matching t.value fun s s' => s' = t.store s where
  undefined := rfl
  locals := by
    rintro s _ rfl
    exact Store.localMapped _ s
  kinds := by
    rintro s _ rfl
    exact Store.isFunctionMapped _ s
  size := by
    rintro s _ rfl
    exact Array.size_map
  fresh := by
    rintro s _ rfl
    rfl
  defines := by
    rintro s _ rfl i name v
    exact (Store.defineMapped ..).symm
  enters := by
    rintro s _ rfl isFunction outer
    exact congrArg Prod.snd (Store.enterMapped _ s isFunction outer)
  renews := by
    rintro s _ rfl
    rfl

theorem lawful : t.lockstep.Lawful where
  literal := t.literal
  name := t.name
  binary := t.binary
  assign := t.assign
  call := t.call
  function := t.function
  loop := t.loop
  handler := t.handler
  result := t.result
  cond := t.cond
  bodyRuns _ _ _ := rfl
  bodyStrays _ := rfl
  bodyHoists stores := stores
  stores := t.storesMatch
  deeper := congrArg (· + 1)
  back := congrArg (· - 1)
  same _ _ := trivial
  trans _ _ := trivial
  tells _ _ := trivial
  asks _ _ := trivial
  registers _ _ _ := trivial
  cutLater := False.elim
  cutDepth := False.elim
  limitAtLine := False.elim
  patient _ := rfl
  enough := Nat.le_of_eq
  spends := Nat.succ.inj
  exhausts := by
    rintro c m n ⟨⟩

theorem machinesMapped (m : Machine) : t.lockstep.Machines m (t.machine m) :=
  ⟨rfl, rfl, rfl, rfl, rfl, rfl⟩

def operation : Operation → Operation
  | .bind name d => .bind name (d.mapBodies (List.map t.node))
  | .load program => .load (program.map t.node)
  | .dispatch event => .dispatch event
  | .launch => .launch
  | .pressKey key => .pressKey key

variable {t}

theorem bindFollows (name : String) (d : Datum) :
    t.lockstep.Follows id (Machine.bind name d) (Machine.bind name (d.mapBodies (List.map t.node))) := by
  refine Lockstep.followsChangeStore t.lawful ?_
  rintro s _ rfl
  have received := Store.receiveMapped (List.map t.node) s d
  simp only [store]
  rw [← received]
  exact (Store.defineMapped ..).symm

theorem operationFollows (op : Operation) : t.lockstep.Follows id op.run (t.operation op).run := by
  cases op with
  | bind name d =>
    exact Lockstep.followsBind t.lawful (bindFollows name d) fun _ => Lockstep.followsPure t.lawful none
  | load program => exact Lockstep.loadRunFollows t.lawful id program
  | dispatch | launch | pressKey => exact Lockstep.eventRunFollows t.lawful id rfl

end Translation

end EventScript
