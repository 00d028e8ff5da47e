import EventScript.Proofs.History
import EventScript.Proofs.Termination

/-! Limits only cut. A run with fewer calls to spare, or on a machine with less patience, does
what a run with more does, until a call or a dispatch is one too many: it stops there, and what
it has shown, asked and registered is what the other run begins with. -/
namespace EventScript

open Evaluation

mutual

theorem Value.mapBodiesId : ∀ v : Value, v.mapBodies id = v
  | .undefined | .null | .bool _ | .number _ | .text _ | .function .. | .builtin _ => by
    simp only [Value.mapBodies, id]
  | .list _ items => by rw [Value.mapBodies, Value.mapBodiesAllId items]

theorem Value.mapBodiesAllId : ∀ vs : List Value, Value.mapBodiesAll id vs = vs
  | [] => by rw [Value.mapBodiesAll]
  | v :: vs => by rw [Value.mapBodiesAll, Value.mapBodiesId v, Value.mapBodiesAllId vs]

end

inductive Answer where
  | flow (flow : Flow)
  | values (values : List Value)
  | value (value : Value)
  | count (count : Nat)
  | nothing

namespace Task

def run (allowed : Nat) : Task → Eval Answer
  | node position n scope => Answer.flow <$> perform (calling allowed) position n scope
  | operands ns scope => Answer.values <$> Evaluation.operands (calling allowed) ns scope
  | statements ns scope => Answer.flow <$> Evaluation.statements (calling allowed) ns scope
  | block ns scope => Answer.flow <$> Evaluation.block allowed ns scope
  | branches bs otherwise scope =>
    Answer.flow <$> choose (calling allowed) bs scope (Evaluation.block allowed otherwise scope)
  | turns name items ns scope => Answer.flow <$> forItems (turn allowed name ns scope) items
  | body ns scope => Answer.flow <$> runBody (calling allowed) ns scope
  | value name callee arguments => Answer.value <$> calling allowed name callee arguments
  | closure c arguments => Answer.value <$> call allowed c arguments
  | dispatch chances event => Answer.count <$> fire (call allowed) chances event
  | listeners chances ls =>
    (fun _ => .nothing) <$> ls.forM (notify (call allowed) (redispatch allowed chances))

/- A task with the calls that the machine allows. -/
def execute (task : Task) : Eval Answer := fun m => task.run m.allowed m

end Task

def Machine.atDepth (m : Machine) (depth : Nat) : Machine := { m with depth }

def Machine.withPatience (m : Machine) (patience : Nat) : Machine := { m with patience }

/- The error of too many calls, on any line. -/
def EvalError.AtLimit (e : EvalError) : Prop :=
  e.kind = EvalError.callLimit.kind ∧ e.message = EvalError.callLimit.message

/- The depths and the patience of the run that is cut off, beside those of the other one, and
with what it halts then. -/
structure Limits where
  Depths : Nat → Nat → Prop
  Patience : Nat → Nat → Prop
  Limit : Halt → Prop
  deeper : ∀ {d d'}, Depths d d' → Depths (d + 1) (d' + 1)
  back : ∀ {d d'}, Depths d d' → Depths (d - 1) (d' - 1)
  patient : ∀ c, Patience c c
  enough : ∀ {c c'}, Patience c c' → c' ≤ c
  spends : ∀ {c c'}, Patience (c + 1) (c' + 1) → Patience c c'
  exhausts : ∀ {c}, Patience (c + 1) 0 → Limit .overflow
  atLine : ∀ {e}, Limit (.error e) → ∀ l, Limit (.error (e.atLine l))

namespace Limits

def onCalls : Limits where
  Depths _ _ := True
  Patience c c' := c' = c
  Limit halt := ∃ e, halt = .error e ∧ e.AtLimit
  deeper _ := trivial
  back _ := trivial
  patient _ := rfl
  enough := Nat.le_of_eq
  spends := Nat.succ.inj
  exhausts := by
    rintro c ⟨⟩
  atLine := by
    rintro e ⟨_, ⟨⟩, limit⟩ l
    exact ⟨e.atLine l, rfl, limit⟩

def onPatience : Limits where
  Depths d d' := d' = d
  Patience c c' := c' ≤ c
  Limit halt := halt = .overflow
  deeper := congrArg (· + 1)
  back := congrArg (· - 1)
  patient := Nat.le_refl
  enough := id
  spends := Nat.le_of_succ_le_succ
  exhausts _ := rfl
  atLine := by
    rintro e ⟨⟩

variable (L : Limits)

/- Both runs have the same trees. Once the second one is cut off, the first one is further
than where both last agreed. -/
def lockstep : Lockstep where
  node := id
  body := id
  line := id
  Stores s s' := s' = s
  Depths := L.Depths
  Patience := L.Patience
  Later m n := History.Ordered m → History.Ordered n ∧ m.Continues n
  Limit := L.Limit
  Cut m n := ∃ o : Machine, o.console = n.console ∧ o.registry = n.registry ∧
    (History.Ordered o → History.Ordered m ∧ o.Continues m)

variable {L}

@[simp] theorem valueSame : L.lockstep.value = id := funext Value.mapBodiesId

@[simp] theorem flowSame : L.lockstep.flow = id := by
  funext flow
  cases flow <;> simp only [Lockstep.flow, valueSame, id]

theorem registrySame (r : Registry Value) : r.map L.lockstep.value = r := by
  rw [valueSame]
  simp [Registry.map]

theorem branchSame : Branch.map (L.lockstep.node) = id := by
  funext b
  simp [Branch.map, lockstep]

theorem continuesLater {l m n : Machine} (first : L.lockstep.Later l m)
    (second : L.lockstep.Later m n) : L.lockstep.Later l n := by
  intro sorted
  obtain ⟨sorted, before⟩ := first sorted
  obtain ⟨sorted, after⟩ := second sorted
  exact ⟨sorted, History.continuesTrans before after⟩

theorem storesSame : Store.Matching id fun s s' => s' = s where
  undefined := rfl
  locals := by
    rintro s _ rfl name i
    rw [Option.map_id, id]
  kinds := by
    rintro s _ rfl i
    rfl
  size := congrArg fun s : Store => s.frames.size
  fresh := congrArg Store.fresh
  defines := by
    rintro s _ rfl i name v
    rfl
  enters := by
    rintro s _ rfl isFunction outer
    rfl
  renews := congrArg fun s : Store => { s with fresh := s.fresh + 1 }

/- Where both runs stand together, the second one may be cut off. -/
theorem machinesCut {m n : Machine} (machines : L.lockstep.Machines m n) : L.lockstep.Cut m n := by
  refine ⟨m, machines.console.symm, ?_, fun sorted => ⟨sorted, History.continuesSame rfl rfl⟩⟩
  rw [machines.registry, registrySame]

theorem lawful : L.lockstep.Lawful where
  literal _ _ := rfl
  name _ _ := rfl
  binary _ _ _ _ := rfl
  assign _ _ _ := rfl
  call _ _ vs := by rw [lockstep, List.map_id]; rfl
  function _ _ _ _ := rfl
  loop _ _ _ b := by rw [lockstep, List.map_id]; rfl
  handler _ _ _ := rfl
  result _ _ := rfl
  cond _ _ b bs o := by
    rw [branchSame, List.map_id, lockstep, List.map_id, List.map_id]
    exact Node.alikeSelf _
  bodyRuns _ ns _ := by rw [lockstep, List.map_id]; rfl
  bodyStrays ns := by rw [lockstep, List.map_id]; rfl
  bodyHoists := by
    intro s s' scope ns stores
    rw [lockstep, List.map_id] at stores
    exact stores
  stores := by
    rw [valueSame]
    exact storesSame
  deeper := L.deeper
  back := L.back
  same := by
    intro m n console registry sorted
    refine ⟨?_, History.continuesSame console registry⟩
    rw [History.Ordered, registry]
    exact sorted
  trans := continuesLater
  tells m text sorted := ⟨sorted, History.continuesTell m text⟩
  asks m message sorted := ⟨sorted, History.continuesAsk m message⟩
  registers m event v sorted :=
    ⟨Registry.registerSorted sorted event v, History.continuesRegister sorted event v⟩
  cutLater := by
    rintro m m' n ⟨o, console, registry, later⟩ after
    exact ⟨o, console, registry, continuesLater later after⟩
  cutDepth := by
    rintro m n ⟨o, console, registry, later⟩ d
    exact ⟨o, console, registry, later⟩
  limitAtLine := L.atLine
  patient := L.patient
  enough := L.enough
  spends := L.spends
  exhausts patience machines := ⟨L.exhausts patience, machinesCut machines⟩

section Calls

/- The induction is on the calls that the second run may still make. -/
theorem callFollows {fewer more : Nat} (least : fewer ≤ more) (c : Closure) (arguments : List Value) :
    onCalls.lockstep.Follows onCalls.lockstep.value (call more c arguments)
      (call fewer { c with body := onCalls.lockstep.body c.body }
        (arguments.map onCalls.lockstep.value)) := by
  induction fewer generalizing more c arguments with
  | zero =>
    have grows := (Lockstep.callFollows (S := onCalls.lockstep) lawful more c arguments).grows
    refine ⟨?_, grows⟩
    intro m n machines
    exact .cut rfl ⟨_, rfl, rfl, rfl⟩ (lawful.cutLater (machinesCut machines) (grows m))
  | succ fewer ih =>
    obtain ⟨more, rfl⟩ : ∃ k, more = k + 1 := ⟨more - 1, by omega⟩
    exact Lockstep.enteredFollows lawful (ih (Nat.le_of_succ_le_succ least)) c arguments

theorem invokeFollows {fewer more : Nat} (least : fewer ≤ more) :
    onCalls.lockstep.CallsFollow (calling more) (calling fewer) :=
  Lockstep.invokeFollows lawful (callFollows least)

theorem answerFollows {α : Type} {x y : Eval α} (answer : α → Answer)
    (h : onCalls.lockstep.Follows id x y) : onCalls.lockstep.Follows id (answer <$> x) (answer <$> y) := by
  rw [map_eq_pure_bind, map_eq_pure_bind]
  exact Lockstep.followsBind lawful h fun a => Lockstep.followsPure lawful (answer a)

theorem taskFollows {fewer more : Nat} (least : fewer ≤ more) (task : Task) :
    onCalls.lockstep.Follows id (task.run more) (task.run fewer) := by
  have calls := invokeFollows least
  have run := Lockstep.statementsFollow lawful calls
  have blocks := fun ns scope => Lockstep.blockFollows lawful (run ns scope)
  have again := fun chances =>
    Lockstep.fireFollows lawful (callFollows least) (onCalls.patient chances) Value.undefined.toText
  simp only [flowSame, show onCalls.lockstep.node = id from rfl, List.map_id] at run blocks
  cases task with
  | node position n scope =>
    have follows := Lockstep.nodeFollows lawful calls n position scope
    rw [flowSame] at follows
    exact answerFollows _ follows
  | operands ns scope =>
    have follows := Lockstep.operandsFollow lawful calls ns scope
    simp only [valueSame, List.map_id_fun, show onCalls.lockstep.node = id from rfl, List.map_id] at follows
    exact answerFollows _ follows
  | statements ns scope => exact answerFollows _ (run ns scope)
  | block ns scope => exact answerFollows _ (blocks ns scope)
  | branches bs otherwise scope =>
    have last := blocks otherwise scope
    rw [← flowSame] at last
    have follows := Lockstep.branchesFollow lawful calls bs scope last
    rw [flowSame, branchSame, List.map_id] at follows
    exact answerFollows _ follows
  | turns name items ns scope =>
    have each : ∀ item, onCalls.lockstep.Follows onCalls.lockstep.flow (turn more name ns scope item)
        (turn fewer name ns scope (onCalls.lockstep.value item)) := by
      intro item
      rw [flowSame]
      exact Lockstep.followsBind lawful (Lockstep.enterTurnFollows lawful scope name item) fun inner =>
        blocks ns inner
    have follows := Lockstep.turnsFollow lawful each items
    rw [flowSame, valueSame, List.map_id] at follows
    exact answerFollows _ follows
  | body ns scope =>
    have follows := Lockstep.bodyFollows lawful calls ns scope
    rw [flowSame] at follows
    exact answerFollows _ follows
  | value name callee arguments =>
    have follows := calls name callee arguments
    rw [valueSame, List.map_id] at follows
    exact answerFollows _ follows
  | closure c arguments =>
    have follows := callFollows least c arguments
    rw [valueSame, List.map_id] at follows
    exact answerFollows _ follows
  | dispatch chances event =>
    exact answerFollows _ (Lockstep.fireFollows lawful (callFollows least) (onCalls.patient chances) event)
  | listeners chances ls =>
    have follows := Lockstep.listenersFollow lawful (callFollows least) (again chances) ls
    rw [valueSame, List.map_id] at follows
    exact answerFollows _ follows

theorem executeOrdered (task : Task) {m : Machine} (sorted : History.Ordered m) :
    History.Ordered (task.execute.leaves m) := by
  have same : task.execute.leaves m = (task.run m.allowed).leaves m := Eval.leavesSame rfl
  have grows := (taskFollows (Nat.le_refl m.allowed) task).grows m sorted
  rw [same]
  exact grows.1

end Calls

theorem machinesSame {m n : Machine} (machines : L.lockstep.Machines m n) :
    n = (m.atDepth n.depth).withPatience n.patience := by
  obtain ⟨store, registry, language, console, depth, patience⟩ := n
  obtain ⟨stores, registries, languages, consoles, _, _⟩ := machines
  rw [registrySame] at registries
  rw [valueSame] at languages
  cases stores
  cases registries
  cases languages
  cases consoles
  rfl

theorem machinesApart {m n : Machine} (store : n.store = m.store) (registry : n.registry = m.registry)
    (language : n.language = m.language) (console : n.console = m.console)
    (depth : L.Depths m.depth n.depth) (patience : L.Patience m.patience n.patience) :
    L.lockstep.Machines m n where
  stores := store
  registry := by rw [registrySame, registry]
  language := by rw [valueSame, language]; rfl
  console := console
  depth := depth
  patience := patience

theorem executeEnds (task : Task) (m : Machine) {d d' : Nat} (deeper : d ≤ d') :
    onCalls.lockstep.Ends id task.execute (m.atDepth d) task.execute (m.atDepth d') := by
  have fewer : (m.atDepth d').allowed ≤ (m.atDepth d).allowed := Nat.sub_le_sub_left deeper maxCalls
  have machines : onCalls.lockstep.Machines (m.atDepth d) (m.atDepth d') :=
    machinesApart rfl rfl rfl rfl trivial rfl
  refine Lockstep.endsSame ?_ ?_ ((taskFollows fewer task).ends machines) <;> rfl

theorem operationFollows (op : Operation) : onPatience.lockstep.Follows id op.run op.run := by
  cases op with
  | bind name d =>
    refine Lockstep.followsBind lawful (Lockstep.followsChangeStore lawful ?_) fun _ =>
      Lockstep.followsPure lawful none
    rintro s _ rfl
    rfl
  | load program => exact Lockstep.loadRunFollows lawful id program
  | dispatch | launch | pressKey => exact Lockstep.eventRunFollows lawful id rfl

/- Where the runs last agreed the listeners are in order, as they are where the cut one ends. -/
theorem cutPrefix {m n : Machine} (cut : L.lockstep.Cut m n) (ordered : History.Ordered n) :
    n.console.shown <+: m.console.shown ∧ n.console.asked <+: m.console.asked ∧
      ∀ event, n.registry.listeners event <+: m.registry.listeners event := by
  obtain ⟨o, console, registry, later⟩ := cut
  rw [History.Ordered, ← registry] at ordered
  obtain ⟨_, continues⟩ := later ordered
  rw [← console, ← registry]
  exact ⟨continues.shown, continues.asked, continues.listeners⟩

end Limits

theorem callLimitOnlyCuts (task : Task) (m : Machine) (sorted : Registry.Sorted m.registry.entries)
    (d d' : Nat) (deeper : d ≤ d') :
    (∃ a n depth, task.execute (m.atDepth d) = .ok a n ∧
        task.execute (m.atDepth d') = .ok a (n.atDepth depth)) ∨
      (∃ halt n depth, task.execute (m.atDepth d) = .error halt n ∧
        task.execute (m.atDepth d') = .error halt (n.atDepth depth)) ∨
      ∃ e n, task.execute (m.atDepth d') = .error (.error e) n ∧ e.kind = .range ∧
        e.message = "Maximum call stack size exceeded" ∧
        let o := task.execute.leaves (m.atDepth d)
        n.console.shown <+: o.console.shown ∧ n.console.asked <+: o.console.asked ∧
          ∀ event, n.registry.listeners event <+: o.registry.listeners event := by
  have level : ∀ {n n'}, Limits.onCalls.lockstep.Machines n n' → n' = n.atDepth n'.depth := by
    intro n n' machines
    have same := Limits.machinesSame machines
    rw [show n'.patience = n.patience from machines.patience] at same
    exact same
  cases Limits.executeEnds task m deeper with
  | @ok a n n' left right after =>
    rw [level after] at right
    exact .inl ⟨a, n, n'.depth, left, right⟩
  | @error halt n n' left right after =>
    have same : halt.reline Limits.onCalls.lockstep.line = halt := halt.relineId
    rw [level after, same] at right
    exact .inr (.inl ⟨halt, n, n'.depth, left, right⟩)
  | @cut halt n right limit cut =>
    obtain ⟨e, rfl, kind, message⟩ := limit
    have ordered := Limits.executeOrdered task (m := m.atDepth d') sorted
    rw [Eval.leavesError right] at ordered
    exact .inr (.inr ⟨e, n, right, kind, message, Limits.cutPrefix cut ordered⟩)

def nestedCalls : List Node :=
  [.function 1 "outer" [] [.call 2 "print" [.literal 2 (.text "outer")], .call 3 "inner" []],
    .function 4 "inner" [] [.call 5 "print" [.literal 5 (.text "inner")]]]

def nestedMachine : Machine := (Machine.start [] 1).after [.load nestedCalls]

def nestedTask : Task := .node .statement (.call 6 "outer" []) Machine.globals

theorem nestedCallIsCut :
    Registry.Sorted nestedMachine.registry.entries ∧
      (nestedTask.execute.leaves (nestedMachine.atDepth 0)).console.shown = ["outer", "inner"] ∧
      ∃ e n, nestedTask.execute (nestedMachine.atDepth 63) = .error (.error e) n ∧
        e.message = "Maximum call stack size exceeded" ∧ n.console.shown = ["outer"] ∧
        n.console.shown <+: (nestedTask.execute.leaves (nestedMachine.atDepth 0)).console.shown := by
  have sorted : Registry.Sorted nestedMachine.registry.entries := by
    have start : History.Ordered (Machine.start [] 1) := Registry.sortedEmpty
    exact (History.afterContinues [.load nestedCalls] start).1
  have long : (nestedTask.execute.leaves (nestedMachine.atDepth 0)).console.shown =
    ["outer", "inner"] := by decide +kernel
  have short : (nestedTask.execute.leaves (nestedMachine.atDepth 63)).console.shown = ["outer"] := by
    decide +kernel
  refine ⟨sorted, long, ?_⟩
  rcases callLimitOnlyCuts nestedTask nestedMachine sorted 0 63 (Nat.zero_le 63) with
    ⟨a, n, depth, first, second⟩ | ⟨halt, n, depth, first, second⟩ | ⟨e, n, second, _, message, shown, _⟩
  · rw [Eval.leavesOk first] at long
    rw [Eval.leavesOk second] at short
    exact absurd (long.symm.trans short) (by decide)
  · rw [Eval.leavesError first] at long
    rw [Eval.leavesError second] at short
    exact absurd (long.symm.trans short) (by decide)
  · rw [Eval.leavesError second] at short
    exact ⟨e, n, second, message, short, shown⟩

/- With less patience an operation ends as it does with more, or it is cut off. -/
theorem patienceOnlyCuts (op : Operation) (m : Machine) (sorted : Registry.Sorted m.registry.entries)
    {c c' : Nat} (less : c' ≤ c) :
    (∃ answer, ∃ n : Machine, op.run (m.withPatience c) = .ok answer (n.withPatience c) ∧
        op.run (m.withPatience c') = .ok answer (n.withPatience c')) ∨
      (∃ halt, ∃ n : Machine, op.run (m.withPatience c) = .error halt (n.withPatience c) ∧
        op.run (m.withPatience c') = .error halt (n.withPatience c')) ∨
      ∃ n, op.run (m.withPatience c') = .error .overflow n ∧
        let o := op.run.leaves (m.withPatience c)
        n.console.shown <+: o.console.shown ∧ n.console.asked <+: o.console.asked ∧
          ∀ event, n.registry.listeners event <+: o.registry.listeners event := by
  have machines : Limits.onPatience.lockstep.Machines (m.withPatience c) (m.withPatience c') :=
    Limits.machinesApart rfl rfl rfl rfl rfl less
  have level : ∀ {n n' : Machine}, op.run.leaves (m.withPatience c) = n → op.run.leaves (m.withPatience c') = n' →
      Limits.onPatience.lockstep.Machines n n' → n = n.withPatience c ∧ n' = n.withPatience c' := by
    rintro n n' rfl rfl after
    have same := Limits.machinesSame after
    rw [after.depth, op.leavesPatience] at same
    refine ⟨?_, same⟩
    have left := op.leavesPatience (m.withPatience c)
    generalize op.run.leaves (m.withPatience c) = n at *
    cases left
    rfl
  cases (Limits.operationFollows op).ends machines with
  | @ok answer n n' left right after =>
    obtain ⟨first, second⟩ := level (Eval.leavesOk left) (Eval.leavesOk right) after
    rw [first] at left
    rw [second] at right
    exact .inl ⟨answer, n, left, right⟩
  | @error halt n n' left right after =>
    obtain ⟨first, second⟩ := level (Eval.leavesError left) (Eval.leavesError right) after
    have same : halt.reline Limits.onPatience.lockstep.line = halt := halt.relineId
    rw [first] at left
    rw [second, same] at right
    exact .inr (.inl ⟨halt, n, left, right⟩)
  | @cut halt n right limit cut =>
    cases limit
    have ordered := (History.operationContinues op (m := m.withPatience c') sorted).1
    rw [Eval.leavesError right] at ordered
    exact .inr (.inr ⟨n, right, Limits.cutPrefix cut ordered⟩)

end EventScript
