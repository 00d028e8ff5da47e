import EventScript.Proofs.History
import EventScript.Proofs.Holding
import EventScript.Proofs.Sessions

/-! Handlers of other events do not interfere. Without the function that fires events a
program cannot tell which listeners one event has, unless the host fires that event:
two machines that differ in them alone go on in the same way. -/
namespace EventScript

open Evaluation Eval

/- The node does not read the name of the function that fires events. -/
def Node.firesNothing (_ : Position) (n : Node) : Bool := n.readName? != some Builtin.dispatch.name

theorem statementsAppend (invoke : Invoke) (ns ms : List Node) (scope : Scope) :
    statements invoke (ns ++ ms) scope = (do
      match ← statements invoke ns scope with
      | .returned value => pure (.returned value)
      | .next _ => statements invoke ms scope) := by
  induction ns with
  | nil => rfl
  | cons n ns ih =>
    rw [List.cons_append, statements, statements]
    cases n.isFunction with
    | true => exact ih
    | false =>
      simp only [Bool.false_eq_true, if_false, bind_assoc]
      congr 1
      funext flow
      cases flow with
      | returned value => rfl
      | next value => exact ih

theorem strayAppend (ns ms : List Node) :
    Node.strayIn (ns ++ ms) = (Node.strayIn ns <|> Node.strayIn ms) := by
  induction ns with
  | nil => rfl
  | cons n ns ih =>
    rw [List.cons_append, Node.strayIn, Node.strayIn, ih]
    cases Node.strayReturn n <;> rfl

namespace Handlers

variable {f : String} {m n : Machine}

def Silent : Value → Prop :=
  Value.Carries (fun c => Node.obeyAll Node.firesNothing .statement c.body = true) (· ≠ .dispatch)

structure Fit (f : String) (m : Machine) : Prop where
  contents : m.Contains (fun name v => name ≠ Builtin.dispatch.name → Silent v)
    (fun event v => event ≠ f → Silent v)
  ordered : History.Ordered m

structure Alike (f : String) (r q : Registry Value) : Prop where
  sorted : Registry.Sorted r.entries
  sortedToo : Registry.Sorted q.entries
  others : Registry.others f r.entries = Registry.others f q.entries

theorem alikeRegistered {r q : Registry Value} (alike : Alike f r q) (event : String) (v : Value) :
    Alike f (r.register event v) (q.register event v) where
  sorted := Registry.registerSorted alike.sorted event v
  sortedToo := Registry.registerSorted alike.sortedToo event v
  others := by
    simp only [Registry.register]
    by_cases here : event = f
    · subst here
      rw [Registry.othersInsertedHere, Registry.othersInsertedHere, alike.others]
    · rw [Registry.othersInserted alike.sorted here, Registry.othersInserted alike.sortedToo here,
        alike.others]

theorem alikeMore {r : Registry Value} (sorted : Registry.Sorted r.entries) (v : Value) :
    Alike f r (r.register f v) where
  sorted := sorted
  sortedToo := Registry.registerSorted sorted f v
  others := (Registry.othersInsertedHere f v r.entries).symm

def regime (f : String) : Regime where
  rule := Node.firesNothing
  Fit := Fit f
  Later _ _ := True
  Good := Silent
  Within _ _ := True
  Binds _ _ _ := True
  Fires event := event ≠ f
  Extra _ := True
  Alike := Alike f

theorem holding : (regime f).Holding (fun name v => name ≠ Builtin.dispatch.name → Silent v)
    (fun event v => event ≠ f → Silent v) where
  binds good _ := good
  listens good _ := good
  makes _ obeys _ _ _ := by
    simp only [regime, Silent, Value.Carries]
    exact obeys
  undefined := by simp only [regime, Silent, Value.Carries]

theorem lawful : (regime f).Lawful where
  refl := trivial
  trans _ _ := trivial
  within _ _ := trivial
  binds _ _ := trivial
  extra _ _ := trivial
  operand _ _ _ _ := trivial
  literal := Value.carriesLiteral
  applied := Value.carriesApplied
  undefined := holding.undefined
  text _ := by simp only [regime, Silent, Value.Carries]
  items := by
    intro identity vs good
    have listed : (Value.list identity vs).Carries _ _ := good
    exact Value.carriesList.mp listed
  body good := by
    simp only [regime, Silent, Value.Carries] at good
    exact good
  dispatches good _ := by
    simp only [regime, Silent, Value.Carries, ne_eq, not_true_eq_false] at good
  found fit _ quiet reads found := by
    refine Store.getEach fit.contents.store found ?_
    intro same
    simp only [regime, Node.firesNothing, reads, same, bne_self_eq_false, Bool.false_eq_true] at quiet
  listeners fit fires l member := Registry.listenersEach fit.contents.registry _ l member fires
  answered other _ done := Value.carriesAnswer other done
  writes admits kept good written := by
    refine ⟨⟨?_, ?_⟩, trivial⟩
    · exact Regime.writesContain holding admits good kept.fit.contents written
    · exact (History.writesContinue kept.fit.ordered written).1
  turns _ _ _ := ⟨trivial, fun _ _ => trivial⟩
  enters := by
    intro k c arguments m admits
    obtain ⟨⟨i, good⟩, given⟩ := admits.suits
    simp only [regime, Silent, Value.Carries] at good
    have entered := Regime.entryContains (n := m) holding admits.fit.contents given trivial good
    exact ⟨⟨entered, admits.fit.ordered⟩, good, trivial, fun _ _ => trivial⟩
  returns _ _ kept := ⟨⟨⟨kept.fit.contents.store, kept.fit.contents.registry⟩, kept.fit.ordered⟩, trivial⟩
  heard apart alike := Registry.othersListeners alike.others apart
  registers := alikeRegistered

theorem startFit (answers : List (Option String)) (patience : Nat) :
    Fit f (Machine.start answers patience) := by
  refine ⟨startContains ?_ answers patience, Registry.sortedEmpty⟩
  intro b member other
  refine initialCarries member ?_
  intro c same dispatch
  subst same dispatch
  exact other rfl

theorem hoistFit {ns : List Node} (fit : Fit f m)
    (obeys : Node.obeyAll Node.firesNothing .statement ns = true) (scope : Scope) :
    Fit f { m with store := hoist scope m.store ns } := by
  have each : Store.Each _ (hoist scope m.store ns) :=
    Regime.hoistEach (holding (f := f)) (n := m) fit.contents.store trivial obeys
  exact ⟨⟨each, fit.contents.registry⟩, fit.ordered⟩

/- The computation on the second machine ends as the other one does on the first, up to the
listeners of the event. -/
def Twins (f : String) {α : Type} (x : Eval α) (m : Machine) (y : Eval α) (n : Machine) : Prop :=
  ∃ q, Alike f (x.leaves m).registry q ∧ y n = match x m with
    | .ok a o => .ok a { o with registry := q }
    | .error e o => .error e { o with registry := q }

theorem twinsSame {α : Type} {x y : Eval α} (same : y n = x m)
    (ordered : History.Ordered (x.leaves m)) : Twins f x m y n := by
  refine ⟨(x.leaves m).registry, ⟨ordered, ordered, rfl⟩, ?_⟩
  rw [same]
  cases done : x m with
  | ok a o => simp only [leavesOk done]
  | error e o => simp only [leavesError done]

theorem twinsAfter {α β : Type} {x : Eval α} {g h : α → Eval β}
    (ordered : History.Ordered (x.leaves m))
    (next : ∀ a n, x m = .ok a n → Twins f (g a) n (h a) n) :
    Twins f (x >>= g) m (x >>= h) m := by
  cases done : x m with
  | ok a n =>
    obtain ⟨q, alike, same⟩ := next a n done
    refine ⟨q, ?_, ?_⟩
    · simpa only [leaves, bindOk done] using alike
    · rw [bindOk done, bindOk done]
      exact same
  | error e n =>
    have fails : ∀ k : α → Eval β, (x >>= k) m = .error e n := by
      intro k
      simp only [bind, EStateM.bind, done]
    refine twinsSame (by rw [fails, fails]) ?_
    rw [leavesError (fails g), ← leavesError done]
    exact ordered

theorem twinsThen {α β : Type} {x y : Eval α} (h : Twins f x m y n) (c : β) :
    Twins f (x >>= fun _ => pure c) m (y >>= fun _ => pure c) n := by
  obtain ⟨q, alike, same⟩ := h
  refine ⟨q, ?_, ?_⟩
  · rw [leavesBind fun _ _ => rfl]
    exact alike
  · simp only [bind, EStateM.bind, same]
    cases x m <;> rfl

theorem triggerTwins {op : Operation} {event : String} {r : Registry Value} (fit : Fit f m)
    (fires : op.event? = some event) (apart : event ≠ f) (alike : Alike f m.registry r) :
    Fit f (op.run.leaves m) ∧ Twins f op.run m op.run { m with registry := r } := by
  have keeps : (regime f).Keeps op.run m fun _ => True :=
    Regime.operationKeeps lawful (Operation.eventBegins fires m) ⟨trivial, fit, apart⟩ trivial
  exact ⟨keeps.kept.fit, keeps.echoes r alike⟩

section Loading

variable {a b : List Node} (quiet : Node.obeyAll Node.firesNothing .statement a = true)
  (quietToo : Node.obeyAll Node.firesNothing .statement b = true)
include quiet quietToo

theorem statementsTwins (k line : Nat) (body : List Node) (fit : Fit f m) (scope : Scope) :
    Twins f (statements (calling k) (a ++ b) scope) m
      (statements (calling k) (a ++ .handler line f body :: b) scope) m := by
  have runs : ∀ {ns n}, Node.obeyAll Node.firesNothing .statement ns = true → Fit f n →
      (regime f).Keeps (statements (calling k) ns scope) n (regime f).GoodFlow := by
    intro ns n obeys fit
    have admits : (regime f).Admits ⟨k, .statements ns scope, n⟩ :=
      ⟨trivial, fit, obeys, trivial, fun _ _ => trivial⟩
    exact Regime.holds lawful admits
  have first := runs quiet fit
  rw [statementsAppend, statementsAppend]
  refine twinsAfter first.kept.fit.ordered ?_
  intro flow n done
  have fit := (Regime.keepsOk first done).1.fit
  cases flow with
  | returned v => exact twinsSame rfl fit.ordered
  | next v =>
    have second := runs quietToo fit
    have registered : statements (calling k) (.handler line f body :: b) scope n =
        statements (calling k) b scope
          { n with registry := n.registry.register f (.function 0 ⟨"", [], body, scope⟩) } := by
      rw [statements]
      simp only [perform]
      rfl
    obtain ⟨q, alike, same⟩ := second.echoes _ (alikeMore fit.ordered (.function 0 ⟨"", [], body, scope⟩))
    exact ⟨q, alike, registered.trans same⟩

theorem loadTwins (line : Nat) (body : List Node) (fit : Fit f m) :
    Fit f ((Operation.load (a ++ b)).run.leaves m) ∧
      Twins f (Operation.load (a ++ b)).run m
        (Operation.load (a ++ .handler line f body :: b)).run m := by
  have obeys : Node.obeyAll Node.firesNothing .statement (a ++ b) = true := by
    rw [Node.obeyAllIff] at quiet quietToo ⊢
    exact List.forall_mem_append.mpr ⟨quiet, quietToo⟩
  have stray : Node.strayIn (a ++ .handler line f body :: b) = Node.strayIn (a ++ b) := by
    rw [strayAppend, strayAppend]
    rfl
  have hoisted : hoist Machine.globals m.store (a ++ .handler line f body :: b) =
      hoist Machine.globals m.store (a ++ b) := by
    rw [hoist, hoist, List.foldl_append, List.foldl_append]
    rfl
  cases found : Node.strayIn (a ++ b) with
  | some line =>
    rw [found] at stray
    have refused := Operation.loadRefused found m
    have left := leavesError refused
    refine ⟨by rw [left]; exact fit, twinsSame ?_ (by rw [left]; exact fit.ordered)⟩
    rw [refused, Operation.loadRefused stray m]
  | none =>
    rw [found] at stray
    have held := hoistFit fit obeys Machine.globals
    have admits : (regime f).Admits ⟨m.allowed, .body (a ++ b) Machine.globals, m⟩ :=
      ⟨trivial, held, obeys, trivial, fun _ _ => trivial⟩
    refine ⟨(Regime.operationKeeps lawful (.load found) admits trivial).kept.fit, ?_⟩
    have twins := twinsThen
      (statementsTwins quiet quietToo m.allowed line body held Machine.globals) (none : Option Nat)
    unfold Twins leaves at *
    rw [Operation.loadRuns found, Operation.loadRuns stray, hoisted]
    exact twins

end Loading

end Handlers

/- The machines differ at most in the listeners of one event. -/
structure Machine.SameBut (event : String) (m n : Machine) : Prop where
  store : n.store = m.store
  language : n.language = m.language
  console : n.console = m.console
  depth : n.depth = m.depth
  patience : n.patience = m.patience
  listeners : ∀ other, other ≠ event → n.registry.listeners other = m.registry.listeners other

def Observation.without (event : String) (o : Observation) : Observation :=
  { o with listeners := o.listeners.filter fun entry => entry.1 ≠ event }

namespace Handlers

open Operation (observations)

variable {f : String} {m n : Machine}

structure Agree (f : String) (ops qs : List Operation) (m n : Machine) : Prop where
  observed : (observations qs n).map (Observation.without f) = (observations ops m).map (Observation.without f)
  left : (m.after ops).SameBut f (n.after qs)

theorem alikeObserved {q : Registry Value} (alike : Alike f m.registry q)
    (answer : Except Halt (Option Nat)) :
    (Observation.ofMachine answer { m with registry := q }).without f =
      (Observation.ofMachine answer m).without f := by
  have listed : ∀ r : Registry Value,
      (r.entries.map fun e => (e.1, e.2.map Value.toText)).filter (fun entry => entry.1 ≠ f) =
        (Registry.others f r.entries).map fun e => (e.1, e.2.map Value.toText) := by
    intro r
    rw [List.filter_map]
    rfl
  simp only [Observation.without, Observation.ofMachine, listed, alike.others]

theorem alikeSame {q : Registry Value} (alike : Alike f m.registry q) :
    m.SameBut f { m with registry := q } :=
  ⟨rfl, rfl, rfl, rfl, rfl, fun _ apart => Registry.othersListeners alike.others apart⟩

theorem agreeStep {op qp : Operation} {ops : List Operation} (twins : Twins f op.run m qp.run n)
    (rest : ∀ q, Alike f (op.run.leaves m).registry q →
      Agree f ops ops (op.run.leaves m) { op.run.leaves m with registry := q }) :
    Agree f (op :: ops) (qp :: ops) m n := by
  obtain ⟨q, alike, same⟩ := twins
  have next := rest q alike
  cases done : op.run m with
  | ok answer o =>
    simp only [leavesOk done] at alike next
    simp only [done] at same
    refine ⟨?_, ?_⟩
    · simp only [observations, done, same, List.map_cons, alikeObserved alike, next.observed]
    · simp only [Machine.after, List.foldl_cons, leavesOk done, leavesOk same]
      exact next.left
  | error e o =>
    simp only [leavesError done] at alike next
    simp only [done] at same
    refine ⟨?_, ?_⟩
    · simp only [observations, done, same, List.map_cons, alikeObserved alike, next.observed]
    · simp only [Machine.after, List.foldl_cons, leavesError done, leavesError same]
      exact next.left

theorem triggersAgree {ops : List Operation} {q : Registry Value} (fit : Fit f m)
    (alike : Alike f m.registry q) (others : ∀ op ∈ ops, ∃ e, op.event? = some e ∧ e ≠ f) :
    Agree f ops ops m { m with registry := q } := by
  induction ops generalizing m q with
  | nil => exact ⟨rfl, alikeSame alike⟩
  | cons op ops ih =>
    obtain ⟨⟨event, fires, apart⟩, rest⟩ := List.forall_mem_cons.mp others
    obtain ⟨after, twins⟩ := triggerTwins fit fires apart alike
    refine agreeStep twins ?_
    intro r alike
    exact ih after alike rest

end Handlers

theorem handlersDoNotInterfere (f : String) (line : Nat) (body a b : List Node)
    (quiet : Node.obeyAll Node.firesNothing .statement a = true)
    (quietToo : Node.obeyAll Node.firesNothing .statement b = true) (answers : List (Option String))
    (patience : Nat) (triggers : List Operation)
    (others : ∀ op ∈ triggers, ∃ e, op.event? = some e ∧ e ≠ f) :
    let m := Machine.start answers patience
    let ops := Operation.load (a ++ b) :: triggers
    let more := Operation.load (a ++ [.handler line f body] ++ b) :: triggers
    (Operation.observations more m).map (Observation.without f) =
        (Operation.observations ops m).map (Observation.without f) ∧
      (m.after ops).SameBut f (m.after more) := by
  obtain ⟨fit, twins⟩ := Handlers.loadTwins quiet quietToo line body (Handlers.startFit answers patience)
  have agree := Handlers.agreeStep twins fun q alike => Handlers.triggersAgree fit alike others
  rw [List.append_assoc]
  exact ⟨agree.observed, agree.left⟩

def greeting : List Node := [.handler 1 "onLaunch" [.call 1 "print" [.literal 1 (.text "hello")]]]

def counted : List Node := [.assign 3 "n" (.literal 3 (.number (.ofNat 1)))]

theorem greetingUndisturbed :
    let again := Node.handler 2 "keypress_x" [.call 2 "__dispatch__" [.literal 2 (.text "onLaunch")]]
    let triggers := [Operation.launch, .pressKey "y", .dispatch "onLaunch"]
    Node.obeyAll Node.firesNothing .statement greeting = true ∧
      Node.obeyAll Node.firesNothing .statement counted = true ∧
      (∀ op ∈ triggers, ∃ e, op.event? = some e ∧ e ≠ "keypress_x") ∧
      ((Machine.start [] 2).after (.load (greeting ++ counted) :: triggers)).SameBut "keypress_x"
        ((Machine.start [] 2).after (.load (greeting ++ [again] ++ counted) :: triggers)) := by
  intro again triggers
  have quiet : Node.obeyAll Node.firesNothing .statement greeting = true := by decide
  have quietToo : Node.obeyAll Node.firesNothing .statement counted = true := by decide
  have others : ∀ op ∈ triggers, ∃ e, op.event? = some e ∧ e ≠ "keypress_x" := by
    simp only [triggers, List.forall_mem_cons, Operation.event?, Option.some.injEq, exists_eq_left']
    exact ⟨by decide, by decide, by decide, List.forall_mem_nil _⟩
  exact ⟨quiet, quietToo, others,
    (handlersDoNotInterfere "keypress_x" 2 _ greeting counted quiet quietToo [] 2 triggers others).2⟩

end EventScript
