import EventScript.Proofs.Holding

/-! What evaluation leaves as it was, as a regime. Whether it succeeds or fails, the machine
still obeys the rule that it obeyed, and the frames below a bound are the same, provided
the scope declares above the bound and nothing assigns from inside an expression. -/
namespace EventScript

open Evaluation Eval Store

variable {rule : Position → Node → Bool} {bound : Nat} {m n : Machine}

structure Machine.Fit (rule : Position → Node → Bool) (bound : Nat) (m : Machine) : Prop where
  obeys : m.Obeys rule
  size : bound ≤ m.store.frames.size

theorem fitAny (h : m.Obeys rule) : m.Fit rule 0 := ⟨h, Nat.zero_le _⟩

/- Below a bound of 0 there is no frame, and any assignment may stand in an operand. -/
def Sheltered (rule : Position → Node → Bool) (bound : Nat) : Prop :=
  ∀ line target value, rule .operand (.assign line target value) = true → bound = 0

theorem shelteredAny : Sheltered rule 0 := fun _ _ _ _ => rfl

mutual

theorem Value.carriesObeys {g : Builtin → Prop} : ∀ v : Value,
    v.Carries (fun c => Node.obeyAll rule .statement c.body = true) g → v.obeys rule = true
  | .undefined, _ | .null, _ | .bool _, _ | .number _, _ | .text _, _ | .builtin _, _ => by
    simp only [Value.obeys]
  | .function _ c, h => by
    rw [Value.Carries] at h
    rw [Value.obeys, h]
  | .list _ items, h => by
    rw [Value.Carries] at h
    rw [Value.obeys, Value.carryObeyAll items h]

theorem Value.carryObeyAll {g : Builtin → Prop} : ∀ vs : List Value,
    Value.CarryAll (fun c => Node.obeyAll rule .statement c.body = true) g vs →
      Value.obeyAll rule vs = true
  | [], _ => by rw [Value.obeyAll]
  | v :: vs, h => by
    rw [Value.CarryAll] at h
    rw [Value.obeyAll, Value.carriesObeys v h.1, Value.carryObeyAll vs h.2, Bool.and_self]

end

theorem startObeys (rule : Position → Node → Bool) (answers : List (Option String))
    (patience : Nat) : (Machine.start answers patience).Obeys rule := by
  have initial : ∀ b ∈ Machine.initialBindings, b.2.obeys rule = true := fun b member =>
    Value.carriesObeys b.2 (initialCarries (g := fun _ => True) member fun _ _ => trivial)
  have held : (Machine.start answers patience).Contains (fun _ v => v.obeys rule = true)
      fun _ v => v.obeys rule = true := startContains initial answers patience
  exact ⟨held.store, held.registry, rfl⟩

namespace Store

variable {s : Store} {scope : Scope}

theorem growsHoistName (owns : Owns bound s scope) (name : String) :
    Grows bound s (s.hoist scope name) := by
  unfold Store.hoist
  simp only
  split
  · exact growsRefl
  · exact growsDefine (ownsNow owns) name .undefined

theorem growsHoistNames (owns : Owns bound s scope) (names : List String) :
    Grows bound s (names.foldl (fun s name => s.hoist scope name) s) := by
  induction names generalizing s with
  | nil => exact growsRefl
  | cons name names ih =>
    have first := growsHoistName owns name
    exact growsTrans first (ih (ownsLater owns first))

theorem growsHoist (above : bound ≤ scope.frame) (owns : Owns bound s scope) (es : List Node) :
    Grows bound s (Evaluation.hoist scope s es) := by
  unfold Evaluation.hoist
  induction es generalizing s with
  | nil => exact growsRefl
  | cons e es ih =>
    have first : Grows bound s (hoistNode scope s e) := by
      cases e with
      | function line name parameters body =>
        have made : Grows bound s (s.newFunction ⟨name, parameters, body, scope⟩).2 :=
          growsFrames rfl
        exact growsTrans made (growsDefine above name _)
      | _ => exact growsHoistNames owns _
    exact growsTrans first (ih (ownsLater owns first))

theorem growsParameters {frame : Nat} (above : bound ≤ frame) (names : List String)
    (values : List Value) : Grows bound s (bindParameters s frame names values) := by
  induction names generalizing s values with
  | nil => exact growsRefl
  | cons name names ih => exact growsTrans (growsDefine above name _) (ih _)

theorem growsFunction {name : String} {parameters : List String} {body : List Node}
    (owns : Owns bound m.store scope) :
    Grows bound m.store ((declareFunction scope name parameters body).leaves m).store := by
  have made : Grows bound m.store (m.store.newFunction ⟨name, parameters, body, scope⟩).2 :=
    growsFrames rfl
  exact growsTrans made (growsDefine (ownsNow (ownsLater owns made)) name _)

theorem growsTurn (within : bound ≤ m.store.frames.size) (name : String) (item : Value) :
    Grows bound m.store ((enterTurn scope name item).leaves m).store :=
  growsTrans (growsEnter within false scope.path) (growsDefine within name item)

end Store

namespace Closure

variable (c : Closure) (arguments : List Value)

theorem entryGrows (within : bound ≤ m.store.frames.size) :
    Grows bound m.store (c.entry arguments m).2.store ∧
      Owns bound (c.entry arguments m).2.store (c.entry arguments m).1 := by
  have entered := growsEnter within true c.scope.path
  have given : Grows bound (m.store.enter true c.scope.path).2
      (bindParameters (m.store.enter true c.scope.path).2 m.store.frames.size c.parameters arguments) :=
    growsParameters within c.parameters arguments
  have owns := ownsLater (ownsCall within c.scope.path) given
  have above : bound ≤ (c.entry arguments m).1.frame := within
  have hoisted := growsHoist above owns c.body
  exact ⟨growsTrans (growsTrans entered given) hoisted, ownsLater owns hoisted⟩

end Closure

theorem builtinUpkeep {arguments : List Value} (given : ∀ v ∈ arguments, v.obeys rule = true)
    (spoken : m.language.obeys rule = true) (left : BuiltinLeaves arguments m n) :
    n.language.obeys rule = true ∧ Grows bound m.store n.store := by
  cases left with
  | speaks => exact ⟨Value.headObeys given, growsRefl⟩
  | makes => exact ⟨spoken, growsFrames rfl⟩
  | _ => exact ⟨spoken, growsRefl⟩

namespace Regime

def upkeep (rule : Position → Node → Bool) (bound : Nat) : Regime where
  rule := rule
  Fit m := m.Fit rule bound
  Later m n := Grows bound m.store n.store
  Good v := v.obeys rule = true
  Within scope m := Owns bound m.store scope
  Binds _ _ _ := True
  Fires _ := True
  Extra _ := True
  Alike r q := q = r

theorem upkeepHolding :
    (upkeep rule bound).Holding (fun _ v => v.obeys rule = true) fun _ v => v.obeys rule = true where
  binds good := good
  listens good := good
  makes _ obeys _ _ _ := obeys
  undefined := rfl

theorem writesUpkeep (sheltered : Sheltered rule bound) {s : Moment} {given : List Value}
    {a b : Machine} (admits : (upkeep rule bound).Admits s)
    (kept : (upkeep rule bound).Kept s.machine a) (written : Writes s a given b) :
    b.language.obeys rule = true ∧ Grows bound a.store b.store := by
  have spoken := kept.fit.obeys.language
  cases written with
  | declares =>
    have owns := ownsLater admits.suits.2.1 kept.later
    exact ⟨spoken, growsDefine (ownsNow owns) _ _⟩
  | @assigns k line target value =>
    -- The only write that may reach a frame further out.
    have obeys := admits.suits.1
    simp only [Node.obeys, Bool.and_eq_true] at obeys
    have zero := sheltered line target value obeys.1
    exact ⟨spoken, growsDefine (by omega) _ _⟩
  | makes => exact ⟨spoken, growsFunction admits.suits.2.1⟩
  | listens => exact ⟨spoken, growsRefl⟩
  | opens before =>
    have placed : (upkeep rule bound).Placed _ _ _ := admits.suits
    exact ⟨spoken, growsFunction (ownsLater placed.within kept.later)⟩
  | turns => exact ⟨spoken, growsTurn kept.fit.size _ _⟩
  | answers => exact builtinUpkeep admits.suits.2 spoken (builtinLeaves _ _ a)
  | notifies => exact builtinUpkeep (List.forall_mem_nil _) spoken (builtinLeaves _ _ a)

theorem entryFit {k : Nat} {c : Closure} {arguments : List Value}
    (admits : (upkeep rule bound).Admits ⟨k, .closure c arguments, m⟩) :
    (c.entry arguments m).2.Fit rule bound := by
  obtain ⟨obeys, size⟩ := admits.fit
  obtain ⟨⟨_, body⟩, given⟩ := admits.suits
  obtain ⟨grows, owns⟩ := c.entryGrows arguments size
  have held : (c.entry arguments m).2.Contains _ _ :=
    entryContains (n := (c.entry arguments m).2) upkeepHolding ⟨obeys.store, obeys.registry⟩ given owns body
  exact ⟨⟨held.store, held.registry, obeys.language⟩, Nat.le_trans size grows.size⟩

theorem upkeepLawful (sheltered : Sheltered rule bound) : (upkeep rule bound).Lawful where
  refl := growsRefl
  trans := growsTrans
  within := ownsLater
  binds _ _ := trivial
  extra _ _ := trivial
  operand _ _ _ _ := trivial
  literal l := by cases l <;> rfl
  applied := BinaryOp.applyObeys
  undefined := rfl
  text _ := rfl
  items := Value.obeyAllIff.mp
  body good := good
  dispatches _ _ := trivial
  found fit _ _ _ found := getObeys fit.obeys.store found
  listeners fit _ := Registry.listenersObey fit.obeys.registry _
  answered other _ done := Value.carriesObeys _ (Value.carriesAnswer (g := fun _ => True) other done)
  writes admits kept good written := by
    obtain ⟨spoken, grows⟩ := writesUpkeep sheltered admits kept written
    obtain ⟨obeys, size⟩ := kept.fit
    have held := writesContain upkeepHolding admits good ⟨obeys.store, obeys.registry⟩ written
    exact ⟨⟨⟨held.store, held.registry, spoken⟩, Nat.le_trans size grows.size⟩, grows⟩
  turns owns _ done := by
    cases done
    exact ⟨ownsStill (ownsTurn owns) (growsDefine (Nat.zero_le _) _ _), fun _ _ => trivial⟩
  enters {_ c arguments _} admits := by
    obtain ⟨⟨_, body⟩, _⟩ := admits.suits
    exact ⟨entryFit admits, body, (c.entryGrows arguments admits.fit.size).2, fun _ _ => trivial⟩
  returns {_ c arguments _ _} admits _ kept := by
    obtain ⟨obeys, size⟩ := kept.fit
    have grows := (c.entryGrows arguments admits.fit.size).1
    exact ⟨⟨⟨obeys.store, obeys.registry, obeys.language⟩, size⟩, growsTrans grows kept.later⟩
  heard _ alike := by rw [alike]
  registers alike _ _ := by rw [alike]; rfl

end Regime

def Datum.obeys (rule : Position → Node → Bool) (d : Datum) : Bool :=
  d.value.obeys rule && d.frames.all fun frame => frame.bindings.all fun b => b.2.obeys rule

def Operation.obeys (rule : Position → Node → Bool) : Operation → Bool
  | .bind _ datum => datum.obeys rule
  | .load program => Node.obeyAll rule .statement program
  | _ => true

theorem Store.receiveObeys {s : Store} {d : Datum} (held : s.Obeys rule)
    (given : d.obeys rule = true) : (s.receive d).Obeys rule := by
  simp only [Datum.obeys, Bool.and_eq_true, Array.all_eq_true_iff_forall_mem, List.all_eq_true] at given
  exact eachReceive (P := fun _ v => v.obeys rule = true) held given.2

namespace Operation

variable {op : Operation} {first : Moment}

theorem beginsUpkeep (given : op.obeys rule = true) (obeys : m.Obeys rule) (begins : op.Begins m first) :
    (Regime.upkeep rule 0).Admits first ∧ Grows 0 m.store first.hoisted.machine.store := by
  cases begins with
  | @load program m legal =>
    have owns := ownsAll m.store Machine.globals
    have placed : (Regime.upkeep rule 0).Placed program Machine.globals m :=
      ⟨given, owns, fun _ _ => trivial⟩
    have grows := growsHoist (Nat.zero_le _) owns program
    have hoisted : (hoist Machine.globals m.store program).Obeys rule :=
      Regime.hoistEach Regime.upkeepHolding obeys.store placed.within given
    have fit : Machine.Fit rule 0 { m with store := hoist Machine.globals m.store program } :=
      fitAny ⟨hoisted, obeys.registry, obeys.language⟩
    exact ⟨⟨trivial, fit, given, ownsLater owns grows, fun _ _ => trivial⟩, grows⟩
  | dispatch | launch | pressKey => exact ⟨⟨trivial, fitAny obeys, trivial⟩, growsRefl⟩

theorem passesAdmitted {s : Moment} (given : op.obeys rule = true) (obeys : m.Obeys rule)
    (passes : op.Passes m s) : (Regime.upkeep rule 0).Admits s := by
  obtain ⟨first, begins, path⟩ := passes
  exact Regime.reached (Regime.upkeepLawful shelteredAny) (beginsUpkeep given obeys begins).1 path

theorem leavesObeys (given : op.obeys rule = true) (obeys : m.Obeys rule) :
    (op.run.leaves m).Obeys rule := by
  rcases op.beginsOrNot m with ⟨first, begins⟩ | ⟨name, datum, rfl⟩ | ⟨program, line, rfl, stray⟩
  · obtain ⟨admits, grows⟩ := beginsUpkeep given obeys begins
    exact (Regime.operationKeeps (Regime.upkeepLawful shelteredAny) begins admits grows).kept.fit.obeys
  · have received := receiveObeys obeys.store given
    have value : datum.value.obeys rule = true := (Bool.and_eq_true_iff.mp given).1
    exact ⟨defineObeys received value, obeys.registry, obeys.language⟩
  · rw [leavesError (loadRefused stray m)]
    exact obeys

end Operation

theorem Machine.afterObeys {ops : List Operation} (given : ∀ op ∈ ops, op.obeys rule = true)
    (obeys : m.Obeys rule) : (m.after ops).Obeys rule := by
  induction ops generalizing m with
  | nil => exact obeys
  | cons op ops ih =>
    obtain ⟨first, rest⟩ := List.forall_mem_cons.mp given
    exact ih rest (Operation.leavesObeys first obeys)

end EventScript
