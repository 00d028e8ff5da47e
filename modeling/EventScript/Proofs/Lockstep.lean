import EventScript.Proofs.Bodies
import EventScript.Proofs.Matching

/-! Runs in lockstep. A second run has trees that are made from those of the first one
constructor by constructor, with function bodies put in some other form. While stores
correspond the two runs do the same: the same values, listeners and console, the same failures
on corresponding lines. The second one may also be cut off, by a limit of its machine, where the
first one goes on. -/
namespace EventScript

open Evaluation

def EvalError.reline (f : Nat → Nat) (e : EvalError) : EvalError := { e with line := e.line.map f }

namespace Halt

def reline (f : Nat → Nat) : Halt → Halt
  | error e => error (e.reline f)
  | overflow => overflow

theorem relineId (halt : Halt) : halt.reline id = halt := by
  cases halt with
  | error e => simp [reline, EvalError.reline]
  | overflow => rfl

end Halt

def Branch.map {α β : Type} (f : α → β) (b : Branch α) : Branch β := ⟨f b.condition, b.body.map f⟩

/- Two nodes that nothing in a run tells apart. -/
structure Node.Alike (n o : Node) : Prop where
  function : n.isFunction = o.isFunction
  declared : n.declaredNames = o.declaredNames
  stray : n.strayReturn = o.strayReturn
  runs : ∀ invoke position scope, perform invoke position n scope = perform invoke position o scope

theorem Node.alikeSelf (n : Node) : Alike n n := ⟨rfl, rfl, rfl, fun _ _ _ => rfl⟩

namespace Evaluation

theorem declareFunctionsSkip {n : Node} (other : n.isFunction = false) (scope : Scope)
    (ns : List Node) : declareFunctions scope (n :: ns) = declareFunctions scope ns := by
  cases n with
  | function => contradiction
  | _ => rfl

end Evaluation

/- How the trees of the second run are made, which stores, depths and patience correspond, what
the first run may have done later, with what halt the second one may be cut off, and where,
given where the first one is. -/
structure Lockstep where
  node : Node → Node
  body : List Node → List Node
  line : Nat → Nat
  Stores : Store → Store → Prop
  Depths : Nat → Nat → Prop
  Patience : Nat → Nat → Prop
  Later : Machine → Machine → Prop
  Limit : Halt → Prop
  Cut : Machine → Machine → Prop

namespace Lockstep

def value (S : Lockstep) : Value → Value := Value.mapBodies S.body

def flow (S : Lockstep) : Flow → Flow
  | .next v => .next (S.value v)
  | .returned v => .returned (S.value v)

structure Machines (S : Lockstep) (m n : Machine) : Prop where
  stores : S.Stores m.store n.store
  registry : n.registry = m.registry.map S.value
  language : n.language = S.value m.language
  console : n.console = m.console
  depth : S.Depths m.depth n.depth
  patience : S.Patience m.patience n.patience

structure Lawful (S : Lockstep) : Prop where
  literal : ∀ l v, S.node (.literal l v) = .literal (S.line l) v
  name : ∀ l s, S.node (.name l s) = .name (S.line l) s
  binary : ∀ l op a b, S.node (.binary l op a b) = .binary (S.line l) op (S.node a) (S.node b)
  assign : ∀ l s v, S.node (.assign l s v) = .assign (S.line l) s (S.node v)
  call : ∀ l s vs, S.node (.call l s vs) = .call (S.line l) s (vs.map S.node)
  function : ∀ l s ps b, S.node (.function l s ps b) = .function (S.line l) s ps (S.body b)
  loop : ∀ l s i b, S.node (.loop l s i b) = .loop (S.line l) s (S.node i) (b.map S.node)
  handler : ∀ l e b, S.node (.handler l e b) = .handler (S.line l) e (S.body b)
  result : ∀ l v, S.node (.result l v) = .result (S.line l) (S.node v)
  cond : ∀ l c b bs o, Node.Alike (S.node (.cond l c b bs o))
    (.cond (S.line l) (S.node c) (b.map S.node) (bs.map (Branch.map S.node)) (o.map S.node))
  -- A body does what its nodes would do where they stand.
  bodyRuns : ∀ (i : Invoke) ns scope, statements i (S.body ns) scope = statements i (ns.map S.node) scope
  bodyStrays : ∀ ns, Node.strayIn (S.body ns) = Node.strayIn (ns.map S.node)
  bodyHoists : ∀ {s s' scope ns}, S.Stores s (hoist scope s' (ns.map S.node)) →
    S.Stores s (hoist scope s' (S.body ns))
  stores : Store.Matching S.value S.Stores
  deeper : ∀ {d d'}, S.Depths d d' → S.Depths (d + 1) (d' + 1)
  back : ∀ {d d'}, S.Depths d d' → S.Depths (d - 1) (d' - 1)
  same : ∀ {m n}, n.console = m.console → n.registry = m.registry → S.Later m n
  trans : ∀ {l m n}, S.Later l m → S.Later m n → S.Later l n
  tells : ∀ m text, S.Later m { m with console := m.console.tell text }
  asks : ∀ m message, S.Later m { m with console := (m.console.ask message).2 }
  registers : ∀ m event v, S.Later m { m with registry := m.registry.register event v }
  cutLater : ∀ {m m' n}, S.Cut m n → S.Later m m' → S.Cut m' n
  cutDepth : ∀ {m n}, S.Cut m n → ∀ d, S.Cut m { n with depth := d }
  limitAtLine : ∀ {e}, S.Limit (.error e) → ∀ l, S.Limit (.error (e.atLine l))
  patient : ∀ c, S.Patience c c
  enough : ∀ {c c'}, S.Patience c c' → c' ≤ c
  spends : ∀ {c c'}, S.Patience (c + 1) (c' + 1) → S.Patience c c'
  exhausts : ∀ {c m n}, S.Patience (c + 1) 0 → S.Machines m n → S.Limit .overflow ∧ S.Cut m n

/- How two computations end together. -/
inductive Ends {α β : Type} (S : Lockstep) (r : α → β) (x : Eval α) (m : Machine) (y : Eval β)
    (n : Machine) : Prop where
  | ok {a m' n'} (left : x m = .ok a m') (right : y n = .ok (r a) n') (machines : S.Machines m' n')
  | error {halt m' n'} (left : x m = .error halt m') (right : y n = .error (halt.reline S.line) n')
      (machines : S.Machines m' n')
  | cut {halt n'} (right : y n = .error halt n') (limit : S.Limit halt) (cut : S.Cut (x.leaves m) n')

structure Follows {α β : Type} (S : Lockstep) (r : α → β) (x : Eval α) (y : Eval β) : Prop where
  ends : ∀ {m n}, S.Machines m n → S.Ends r x m y n
  grows : ∀ m, S.Later m (x.leaves m)

@[simp] theorem flowOperand (S : Lockstep) (a : Flow) : (S.flow a).operand = S.value a.operand := by
  cases a <;> simp [flow, Flow.operand, value, Value.mapBodies]

@[simp] theorem flowResult (S : Lockstep) (a : Flow) : (S.flow a).result = S.value a.result := by
  cases a <;> simp [flow, Flow.result, value, Value.mapBodies]

theorem functionMapped {S : Lockstep} (identity : Nat) (c : Closure) :
    S.value (.function identity c) = .function identity { c with body := S.body c.body } := by
  rw [value, Value.mapBodies]

theorem endsSame {α β : Type} {S : Lockstep} {r : α → β} {x x' : Eval α} {y y' : Eval β}
    {m m' n n' : Machine} (left : x m = x' m') (right : y n = y' n') (h : S.Ends r x' m' y' n') :
    S.Ends r x m y n := by
  rcases h with ⟨first, second, after⟩ | ⟨first, second, after⟩ | ⟨second, limit, cut⟩
  · exact .ok (left.trans first) (right.trans second) after
  · exact .error (left.trans first) (right.trans second) after
  · rw [← Eval.leavesSame left] at cut
    exact .cut (right.trans second) limit cut

section Trees

variable {S : Lockstep}

open Node (declaredNames declaredIn declaredInBranches strayReturn strayIn strayInBranches)

theorem nodeFunction (lawful : S.Lawful) (n : Node) : (S.node n).isFunction = n.isFunction := by
  cases n with
  | cond => exact (lawful.cond ..).function
  | literal => rw [lawful.literal]; rfl
  | name => rw [lawful.name]; rfl
  | binary => rw [lawful.binary]; rfl
  | assign => rw [lawful.assign]; rfl
  | call => rw [lawful.call]; rfl
  | function => rw [lawful.function]; rfl
  | loop => rw [lawful.loop]; rfl
  | handler => rw [lawful.handler]; rfl
  | result => rw [lawful.result]; rfl

mutual

theorem nodeDeclares (lawful : S.Lawful) : ∀ n : Node, declaredNames (S.node n) = declaredNames n
  | .cond _ _ body branches otherwise => by
    rw [(lawful.cond ..).declared]
    simp only [declaredNames, bodyDeclares lawful body, branchesDeclare lawful branches,
      bodyDeclares lawful otherwise]
  | .loop _ _ _ body => by simp only [lawful.loop, declaredNames, bodyDeclares lawful body]
  | .literal .. => by simp only [lawful.literal, declaredNames]
  | .name .. => by simp only [lawful.name, declaredNames]
  | .binary .. => by simp only [lawful.binary, declaredNames]
  | .assign .. => by simp only [lawful.assign, declaredNames]
  | .call .. => by simp only [lawful.call, declaredNames]
  | .function .. => by simp only [lawful.function, declaredNames]
  | .handler .. => by simp only [lawful.handler, declaredNames]
  | .result .. => by simp only [lawful.result, declaredNames]

theorem bodyDeclares (lawful : S.Lawful) : ∀ ns : List Node, declaredIn (ns.map S.node) = declaredIn ns
  | [] => rfl
  | n :: ns => by simp only [List.map_cons, declaredIn, nodeDeclares lawful n, bodyDeclares lawful ns]

theorem branchesDeclare (lawful : S.Lawful) : ∀ bs : List (Branch Node),
    declaredInBranches (bs.map (Branch.map S.node)) = declaredInBranches bs
  | [] => rfl
  | ⟨_, body⟩ :: rest => by
    simp only [List.map_cons, Branch.map, declaredInBranches, bodyDeclares lawful body,
      branchesDeclare lawful rest]

end

mutual

theorem nodeStrays (lawful : S.Lawful) : ∀ n : Node, strayReturn (S.node n) = (strayReturn n).map S.line
  | .cond _ _ body branches otherwise => by
    rw [(lawful.cond ..).stray]
    simp only [strayReturn, listStrays lawful body, branchesStray lawful branches,
      listStrays lawful otherwise, Option.orElse_eq_orElse, Option.orElse_eq_or, Option.map_or]
  | .loop _ _ _ body => by simp only [lawful.loop, strayReturn, listStrays lawful body]
  | .literal .. => by simp only [lawful.literal, strayReturn, Option.map_none]
  | .name .. => by simp only [lawful.name, strayReturn, Option.map_none]
  | .binary .. => by simp only [lawful.binary, strayReturn, Option.map_none]
  | .assign .. => by simp only [lawful.assign, strayReturn, Option.map_none]
  | .call .. => by simp only [lawful.call, strayReturn, Option.map_none]
  | .function .. => by simp only [lawful.function, strayReturn, Option.map_none]
  | .handler .. => by simp only [lawful.handler, strayReturn, Option.map_none]
  | .result .. => by simp only [lawful.result, strayReturn, Option.map_some]

theorem listStrays (lawful : S.Lawful) :
    ∀ ns : List Node, strayIn (ns.map S.node) = (strayIn ns).map S.line
  | [] => rfl
  | n :: ns => by
    simp only [List.map_cons, strayIn, nodeStrays lawful n, listStrays lawful ns,
      Option.orElse_eq_orElse, Option.orElse_eq_or, Option.map_or]

theorem branchesStray (lawful : S.Lawful) : ∀ bs : List (Branch Node),
    strayInBranches (bs.map (Branch.map S.node)) = (strayInBranches bs).map S.line
  | [] => rfl
  | ⟨_, body⟩ :: rest => by
    simp only [List.map_cons, Branch.map, strayInBranches, listStrays lawful body,
      branchesStray lawful rest, Option.orElse_eq_orElse, Option.orElse_eq_or, Option.map_or]

end

end Trees

variable {S : Lockstep} (lawful : S.Lawful)
include lawful

theorem hoistNodeFollows (scope : Scope) (n : Node) {s s' : Store} (stores : S.Stores s s') :
    S.Stores (hoistNode scope s n) (hoistNode scope s' (S.node n)) := by
  cases function : n.isFunction with
  | true =>
    cases n with
    | function l name parameters body =>
      rw [lawful.function]
      exact lawful.stores.hoistsFunction stores fun i => functionMapped i _
    | _ => contradiction
  | false =>
    have other : (S.node n).isFunction = false := by rw [nodeFunction lawful, function]
    rw [hoistOther other, hoistOther function, nodeDeclares lawful]
    exact lawful.stores.hoistsNames scope _ stores

theorem hoistFollows (scope : Scope) (ns : List Node) {s s' : Store} (stores : S.Stores s s') :
    S.Stores (hoist scope s ns) (hoist scope s' (S.body ns)) := by
  refine lawful.bodyHoists ?_
  simp only [hoist]
  induction ns generalizing s s' with
  | nil => exact stores
  | cons n ns ih => exact ih (hoistNodeFollows lawful scope n stores)

section Computations

variable {α β γ δ : Type} {r : α → β} {q : γ → δ} {x x' : Eval α} {y y' : Eval β}

theorem followsPure (a : α) : S.Follows r (pure a) (pure (r a)) where
  ends machines := .ok rfl rfl machines
  grows _ := lawful.same rfl rfl

theorem bindLater {f : α → Eval γ} (next : ∀ a n, S.Later n ((f a).leaves n)) (m : Machine) :
    S.Later (x.leaves m) ((x >>= f).leaves m) := by
  cases done : x m with
  | ok a n =>
    rw [Eval.leavesOk done, Eval.leavesNext done]
    exact next a n
  | error halt n =>
    rw [Eval.leavesError done, Eval.leavesError (Eval.bindError done)]
    exact lawful.same rfl rfl

theorem followsBind {f : α → Eval γ} {g : β → Eval δ} (first : S.Follows r x y)
    (next : ∀ a, S.Follows q (f a) (g (r a))) : S.Follows q (x >>= f) (y >>= g) := by
  have later := bindLater lawful (x := x) fun a => (next a).grows
  refine ⟨?_, fun m => lawful.trans (first.grows m) (later m)⟩
  intro m n machines
  rcases first.ends machines with ⟨left, right, after⟩ | ⟨left, right, after⟩ | ⟨right, limit, cut⟩
  · exact endsSame (Eval.bindOk left) (Eval.bindOk right) ((next _).ends after)
  · exact .error (Eval.bindError left) (Eval.bindError right) after
  · exact .cut (Eval.bindError right) limit (lawful.cutLater cut (later m))

theorem followsFail {e : EvalError} (bare : e.line = none) :
    S.Follows r (Eval.fail e) (Eval.fail e) := by
  have same : e.reline S.line = e := by
    obtain ⟨kind, message, line⟩ := e
    cases bare
    rfl
  refine ⟨?_, fun _ => lawful.same rfl rfl⟩
  intro m n machines
  refine .error rfl ?_ machines
  rw [Halt.reline, same]
  rfl

theorem endsAtLine {m n : Machine} (h : S.Ends r x m y n) (l : Nat) :
    S.Ends r (Eval.atLine l x) m (Eval.atLine (S.line l) y) n := by
  cases h with
  | @ok a m' n' left right after =>
    have first : Eval.atLine l x m = .ok a m' := by simp only [Eval.atLine, left]
    have second : Eval.atLine (S.line l) y n = .ok (r a) n' := by simp only [Eval.atLine, right]
    exact .ok first second after
  | @error halt m' n' left right after =>
    cases halt with
    | overflow =>
      have first : Eval.atLine l x m = .error .overflow m' := by simp only [Eval.atLine, left]
      have second : Eval.atLine (S.line l) y n = .error .overflow n' := by
        simp only [Eval.atLine, right, Halt.reline]
      exact .error first second after
    | error e =>
      have first : Eval.atLine l x m = .error (.error (e.atLine l)) m' := by
        simp only [Eval.atLine, left]
      refine .error first ?_ after
      obtain ⟨kind, message, line⟩ := e
      simp only [Eval.atLine, right, Halt.reline]
      cases line <;> rfl
  | @cut halt n' right limit cut =>
    rw [← Eval.leavesAtLine l] at cut
    cases halt with
    | overflow =>
      have second : Eval.atLine (S.line l) y n = .error .overflow n' := by
        simp only [Eval.atLine, right]
      exact .cut second limit cut
    | error e =>
      have second : Eval.atLine (S.line l) y n = .error (.error (e.atLine (S.line l))) n' := by
        simp only [Eval.atLine, right]
      exact .cut second (lawful.limitAtLine limit _) cut

theorem followsAtLine (h : S.Follows r x y) (l : Nat) :
    S.Follows r (Eval.atLine l x) (Eval.atLine (S.line l) y) := by
  refine ⟨fun machines => endsAtLine lawful (h.ends machines) l, ?_⟩
  intro m
  rw [Eval.leavesAtLine]
  exact h.grows m

theorem followsLocated (h : S.Follows r x y) (position : Position) (l : Nat) :
    S.Follows r (located position l x) (located position (S.line l) y) := by
  cases position with
  | statement => exact followsAtLine lawful h l
  | operand => exact h

omit lawful in
theorem leavesDeeper (x : Eval α) (m : Machine) :
    (Eval.deeper x).leaves m = { x.leaves { m with depth := m.depth + 1 } with
      depth := (x.leaves { m with depth := m.depth + 1 }).depth - 1 } := by
  simp only [Eval.leaves, Eval.deeper]
  cases x { m with depth := m.depth + 1 } <;> rfl

theorem followsDeeper (h : S.Follows r x y) : S.Follows r (Eval.deeper x) (Eval.deeper y) := by
  have later : ∀ m, S.Later (x.leaves { m with depth := m.depth + 1 }) ((Eval.deeper x).leaves m) := by
    intro m
    rw [leavesDeeper]
    exact lawful.same rfl rfl
  have back : ∀ {m n}, S.Machines m n →
      S.Machines { m with depth := m.depth - 1 } { n with depth := n.depth - 1 } :=
    fun h => ⟨h.stores, h.registry, h.language, h.console, lawful.back h.depth, h.patience⟩
  refine ⟨?_, ?_⟩
  · intro m n machines
    have inner : S.Machines { m with depth := m.depth + 1 } { n with depth := n.depth + 1 } :=
      ⟨machines.stores, machines.registry, machines.language, machines.console,
        lawful.deeper machines.depth, machines.patience⟩
    cases h.ends inner with
    | @ok a m' n' left right after =>
      have first : Eval.deeper x m = .ok a { m' with depth := m'.depth - 1 } := by
        simp only [Eval.deeper, left]
      have second : Eval.deeper y n = .ok (r a) { n' with depth := n'.depth - 1 } := by
        simp only [Eval.deeper, right]
      exact .ok first second (back after)
    | @error halt m' n' left right after =>
      have first : Eval.deeper x m = .error halt { m' with depth := m'.depth - 1 } := by
        simp only [Eval.deeper, left]
      have second : Eval.deeper y n = .error (halt.reline S.line) { n' with depth := n'.depth - 1 } := by
        simp only [Eval.deeper, right]
      exact .error first second (back after)
    | @cut halt n' right limit cut =>
      have second : Eval.deeper y n = .error halt { n' with depth := n'.depth - 1 } := by
        simp only [Eval.deeper, right]
      exact .cut second limit (lawful.cutLater (lawful.cutDepth cut _) (later m))
  · intro m
    have entered : S.Later m { m with depth := m.depth + 1 } := lawful.same rfl rfl
    exact lawful.trans (lawful.trans entered (h.grows _)) (later m)

omit lawful in
theorem followsGet {f : Machine → Eval α} {g : Machine → Eval β}
    (each : ∀ {m n}, S.Machines m n → S.Follows r (f m) (g n))
    (grows : ∀ m, S.Later m ((f m).leaves m)) : S.Follows r (get >>= f) (get >>= g) := by
  refine ⟨?_, ?_⟩
  · intro m n machines
    exact endsSame (Eval.getBind f m) (Eval.getBind g n) ((each machines).ends machines)
  · intro m
    rw [Eval.leavesSame (Eval.getBind f m)]
    exact grows m

theorem followsWithStore {f : Store → α × Store} {g : Store → β × Store}
    (h : ∀ s s', S.Stores s s' → (g s').1 = r (f s).1 ∧ S.Stores (f s).2 (g s').2) :
    S.Follows r (Eval.withStore f) (Eval.withStore g) := by
  refine ⟨?_, fun _ => lawful.same rfl rfl⟩
  intro m n machines
  obtain ⟨result, stores⟩ := h _ _ machines.stores
  have first : Eval.withStore f m = .ok (f m.store).1 { m with store := (f m.store).2 } := rfl
  have second : Eval.withStore g n = .ok (r (f m.store).1) { n with store := (g n.store).2 } := by
    rw [← result]
    rfl
  exact .ok first second ⟨stores, machines.registry, machines.language, machines.console,
    machines.depth, machines.patience⟩

theorem followsChangeStore {f g : Store → Store}
    (h : ∀ s s', S.Stores s s' → S.Stores (f s) (g s')) :
    S.Follows id (Eval.changeStore f) (Eval.changeStore g) := by
  refine ⟨?_, fun _ => lawful.same rfl rfl⟩
  intro m n machines
  exact .ok rfl rfl ⟨h _ _ machines.stores, machines.registry, machines.language, machines.console,
    machines.depth, machines.patience⟩

theorem followsLookup (scope : Scope) (name : String) :
    S.Follows S.value (Eval.lookup scope name) (Eval.lookup scope name) := by
  have nothing : ∀ m, (Eval.lookup scope name).leaves m = m := by
    intro m
    simp only [Eval.leaves, Eval.lookup]
    cases m.store.get? scope name <;> rfl
  refine ⟨?_, ?_⟩
  · intro m n machines
    have same := lawful.stores.gets machines.stores scope name
    cases found : m.store.get? scope name with
    | none =>
      rw [found, Option.map_none] at same
      have first : Eval.lookup scope name m = .error (.error (.notDefined name)) m := by
        simp only [Eval.lookup, found]
      have second : Eval.lookup scope name n = .error (.error (.notDefined name)) n := by
        simp only [Eval.lookup, same]
      exact .error first second machines
    | some v =>
      rw [found, Option.map_some] at same
      have first : Eval.lookup scope name m = .ok v m := by simp only [Eval.lookup, found]
      have second : Eval.lookup scope name n = .ok (S.value v) n := by simp only [Eval.lookup, same]
      exact .ok first second machines
  · intro m
    rw [nothing]
    exact lawful.same rfl rfl

theorem followsRegister (event : String) (listener : Value) :
    S.Follows id (Eval.register event listener) (Eval.register event (S.value listener)) := by
  refine ⟨?_, fun m => lawful.registers m event listener⟩
  intro m n machines
  refine .ok rfl rfl ⟨machines.stores, ?_, machines.language, machines.console, machines.depth,
    machines.patience⟩
  rw [Registry.registerMapped, machines.registry]

omit lawful in
theorem followsIf {b : Bool} (yes : S.Follows r x y) (no : S.Follows r x' y') :
    S.Follows r (if b then x else x') (if b then y else y') := by
  cases b with
  | true => exact yes
  | false => exact no

end Computations

section Evaluations

variable {i j : Invoke}

theorem followsNext (v : Value) : S.Follows S.flow (pure (.next v)) (pure (.next (S.value v))) :=
  followsPure lawful _

theorem followsReturned (v : Value) :
    S.Follows S.flow (pure (.returned v)) (pure (.returned (S.value v))) := followsPure lawful _

theorem itemsFollow (v : Value) :
    S.Follows (List.map S.value) (itemsOf v) (itemsOf (S.value v)) := by
  cases v with
  | list identity items =>
    simp only [value, Value.mapBodies, Value.mapBodiesAllMap]
    exact followsPure lawful items
  | text s =>
    have same : (s.toList.map fun c => Value.text c.toString).map S.value =
        s.toList.map fun c => Value.text c.toString := by
      simp [value, Value.mapBodies]
    have done := followsPure lawful (r := List.map S.value)
      (s.toList.map fun c => Value.text c.toString)
    rw [same] at done
    exact done
  | _ =>
    simp only [itemsOf, value, Value.mapBodies, Value.toText]
    exact followsFail lawful rfl

theorem turnsFollow {run run' : Value → Eval Flow}
    (h : ∀ item, S.Follows S.flow (run item) (run' (S.value item))) (items : List Value) :
    S.Follows S.flow (forItems run items) (forItems run' (items.map S.value)) := by
  induction items with
  | nil => exact followsNext lawful .undefined
  | cons item items ih =>
    refine followsBind lawful (h item) ?_
    intro a
    cases a with
    | returned v => exact followsReturned lawful v
    | next v => exact ih

theorem declareFunctionFollows (scope : Scope) (name : String) (parameters : List String)
    (body : List Node) :
    S.Follows id (declareFunction scope name parameters body)
      (declareFunction scope name parameters (S.body body)) := by
  refine followsChangeStore lawful ?_
  intro s s' stores
  obtain ⟨made, after⟩ := lawful.stores.makesFunction stores
    (c := ⟨name, parameters, body, scope⟩) fun i => functionMapped i _
  simp only [made]
  exact lawful.stores.declares after scope name _

theorem declareFunctionsFollow (scope : Scope) (ns : List Node) :
    S.Follows id (declareFunctions scope ns) (declareFunctions scope (ns.map S.node)) := by
  induction ns with
  | nil => exact followsPure lawful _
  | cons n ns ih =>
    cases function : n.isFunction with
    | true =>
      cases n with
      | function l name parameters body =>
        rw [List.map_cons, lawful.function]
        exact followsBind lawful (declareFunctionFollows lawful scope name parameters body) fun _ => ih
      | _ => contradiction
    | false =>
      have other : (S.node n).isFunction = false := by rw [nodeFunction lawful, function]
      rw [List.map_cons, declareFunctionsSkip function, declareFunctionsSkip other]
      exact ih

theorem enterTurnFollows (scope : Scope) (name : String) (item : Value) :
    S.Follows id (enterTurn scope name item) (enterTurn scope name (S.value item)) := by
  refine followsWithStore lawful ?_
  intro s s' stores
  have entered := lawful.stores.entersAlike stores false scope.path
  simp only [entered]
  exact ⟨rfl, lawful.stores.defines (lawful.stores.enters stores false scope.path) _ name item⟩

theorem blockFollows {ns : List Node} {scope : Scope}
    (h : S.Follows S.flow (statements i ns scope) (statements j (ns.map S.node) scope)) :
    S.Follows S.flow (do declareFunctions scope ns; statements i ns scope)
      (do declareFunctions scope (ns.map S.node); statements j (ns.map S.node) scope) :=
  followsBind lawful (declareFunctionsFollow lawful scope ns) fun _ => h

omit lawful in
def CallsFollow (S : Lockstep) (i j : Invoke) : Prop :=
  ∀ name callee arguments,
    S.Follows S.value (i name callee arguments) (j name (S.value callee) (arguments.map S.value))

mutual

theorem nodeFollows (calls : S.CallsFollow i j) : ∀ (n : Node) (position : Position) (scope : Scope),
    S.Follows S.flow (perform i position n scope) (perform j position (S.node n) scope)
  | .literal l v, position, scope => by
    rw [lawful.literal, perform, perform]
    have same : S.value (.ofLiteral v) = .ofLiteral v := Value.mapBodiesLiteral _ v
    have done := followsNext lawful (.ofLiteral v)
    rw [same] at done
    exact done
  | .name l s, position, scope => by
    rw [lawful.name, perform, perform]
    exact followsLocated lawful (followsBind lawful (followsLookup lawful scope s) (followsNext lawful))
      position l
  | .binary l op a b, position, scope => by
    rw [lawful.binary, perform, perform]
    refine followsLocated lawful (followsBind lawful (nodeFollows calls a .operand scope) ?_) position l
    intro x
    refine followsBind lawful (nodeFollows calls b .operand scope) ?_
    intro y
    have same := BinaryOp.applyMapped S.body op x.operand y.operand
    simp only [flowOperand, value, same]
    exact followsNext lawful _
  | .assign l s v, position, scope => by
    rw [lawful.assign, perform, perform]
    refine followsLocated lawful (followsBind lawful (nodeFollows calls v .operand scope) ?_) position l
    intro x
    rw [flowOperand]
    cases position with
    | statement =>
      refine followsBind lawful (followsChangeStore lawful ?_) fun _ => followsNext lawful _
      exact fun _ _ stores => lawful.stores.declares stores scope s _
    | operand =>
      refine followsBind lawful (followsChangeStore lawful ?_) fun _ => followsNext lawful _
      exact fun _ _ stores => lawful.stores.assigns stores scope s _
  | .call l s vs, position, scope => by
    rw [lawful.call, perform, perform]
    refine followsLocated lawful (followsBind lawful (followsLookup lawful scope s) ?_) position l
    intro callee
    refine followsBind lawful (operandsFollow calls vs scope) ?_
    intro arguments
    exact followsBind lawful (calls s callee arguments) (followsNext lawful)
  | .function l s ps b, position, scope => by
    rw [lawful.function, perform, perform]
    exact followsAtLine lawful (followsBind lawful (declareFunctionFollows lawful scope s ps b) fun _ =>
      followsNext lawful .undefined) l
  | .cond l c b bs o, position, scope => by
    rw [(lawful.cond ..).runs, perform, perform]
    refine followsAtLine lawful (followsBind lawful (nodeFollows calls c .operand scope) ?_) l
    intro x
    simp only [flowOperand, value, Value.mapBodiesTruthy]
    exact followsIf (blockFollows lawful (statementsFollow calls b scope))
      (branchesFollow calls bs scope (blockFollows lawful (statementsFollow calls o scope)))
  | .loop l s n b, position, scope => by
    rw [lawful.loop, perform, perform]
    refine followsAtLine lawful (followsBind lawful (nodeFollows calls n .operand scope) ?_) l
    intro x
    rw [flowOperand]
    refine followsBind lawful (itemsFollow lawful x.operand) ?_
    intro items
    refine turnsFollow lawful ?_ items
    intro item
    exact followsBind lawful (enterTurnFollows lawful scope s item) fun turn =>
      blockFollows lawful (statementsFollow calls b turn)
  | .handler l e b, position, scope => by
    rw [lawful.handler, perform, perform]
    have registered := followsRegister lawful e (.function 0 ⟨"", [], b, scope⟩)
    exact followsAtLine lawful (followsBind lawful registered fun _ => followsNext lawful .undefined) l
  | .result l v, position, scope => by
    rw [lawful.result, perform, perform]
    refine followsAtLine lawful (followsBind lawful (nodeFollows calls v .operand scope) ?_) l
    intro x
    rw [flowOperand]
    exact followsReturned lawful x.operand

theorem operandsFollow (calls : S.CallsFollow i j) : ∀ (ns : List Node) (scope : Scope),
    S.Follows (List.map S.value) (operands i ns scope) (operands j (ns.map S.node) scope)
  | [], scope => by
    rw [List.map_nil, operands, operands]
    exact followsPure lawful []
  | n :: ns, scope => by
    rw [List.map_cons, operands, operands]
    refine followsBind lawful (nodeFollows calls n .operand scope) ?_
    intro x
    refine followsBind lawful (operandsFollow calls ns scope) ?_
    intro values
    rw [flowOperand]
    exact followsPure lawful (x.operand :: values)

theorem statementsFollow (calls : S.CallsFollow i j) : ∀ (ns : List Node) (scope : Scope),
    S.Follows S.flow (statements i ns scope) (statements j (ns.map S.node) scope)
  | [], scope => by
    rw [List.map_nil, statements, statements]
    exact followsNext lawful .undefined
  | n :: ns, scope => by
    rw [List.map_cons, statements, statements, nodeFunction lawful]
    refine followsIf (statementsFollow calls ns scope) ?_
    refine followsBind lawful (nodeFollows calls n .statement scope) ?_
    intro x
    cases x with
    | returned v => exact followsReturned lawful v
    | next v => exact statementsFollow calls ns scope

theorem branchesFollow (calls : S.CallsFollow i j) : ∀ (bs : List (Branch Node)) (scope : Scope)
    {x y : Eval Flow}, S.Follows S.flow x y →
      S.Follows S.flow (choose i bs scope x) (choose j (bs.map (Branch.map S.node)) scope y)
  | [], scope, x, y, last => by
    rw [List.map_nil, choose, choose]
    exact last
  | ⟨c, b⟩ :: bs, scope, x, y, last => by
    rw [List.map_cons, Branch.map, choose, choose]
    refine followsBind lawful (nodeFollows calls c .operand scope) ?_
    intro a
    simp only [flowOperand, value, Value.mapBodiesTruthy]
    exact followsIf (blockFollows lawful (statementsFollow calls b scope))
      (branchesFollow calls bs scope last)

end

theorem bodyFollows (calls : S.CallsFollow i j) (body : List Node) (scope : Scope) :
    S.Follows S.flow (runBody i body scope) (runBody j (S.body body) scope) := by
  refine followsBind lawful (followsChangeStore lawful ?_) ?_
  · exact fun _ _ stores => hoistFollows lawful scope body stores
  · intro _
    rw [lawful.bodyRuns]
    exact statementsFollow lawful calls body scope

omit lawful in
theorem headFollows (values : List Value) :
    (values.map S.value).headD .undefined = S.value (values.headD .undefined) := by
  cases values <;> simp [value, Value.mapBodies]

theorem enterCallFollows (closure : Closure) (arguments : List Value) :
    S.Follows id (enterCall closure arguments)
      (enterCall { closure with body := S.body closure.body } (arguments.map S.value)) := by
  refine followsWithStore lawful ?_
  intro s s' stores
  have entered := lawful.stores.entersAlike stores true closure.scope.path
  have inside := lawful.stores.enters stores true closure.scope.path
  simp only [entered]
  exact ⟨rfl, lawful.stores.bindsParameters _ _ arguments inside⟩

omit lawful in
theorem rangeItemsMapped (v : Value) : Builtin.rangeItems (S.value v) = Builtin.rangeItems v := by
  cases v <;> rfl

omit lawful in
theorem rangeItemsPlain {v : Value} {items : List Value} (h : Builtin.rangeItems v = .ok items) :
    items.map S.value = items := by
  have plain : ∀ n, S.value (.number n) = .number n := fun n => rfl
  unfold Builtin.rangeItems at h
  split at h
  · split at h
    · contradiction
    · cases h
      simp [plain]
  · cases h
    simp [plain]

omit lawful in
theorem rangeItemsBare {v : Value} {e : EvalError} (h : Builtin.rangeItems v = .error e) :
    e.line = none := by
  unfold Builtin.rangeItems at h
  split at h
  · split at h <;> cases h
    rfl
  · contradiction

theorem showFollows (text : String) :
    S.Follows id (Builtin.showText text) (Builtin.showText text) := by
  refine ⟨?_, fun m => lawful.tells m text⟩
  intro m n machines
  refine .ok rfl rfl ⟨machines.stores, machines.registry, machines.language, ?_, machines.depth,
    machines.patience⟩
  rw [machines.console]

theorem askFollows (message : String) :
    S.Follows id (Builtin.askText message) (Builtin.askText message) := by
  refine ⟨?_, fun m => lawful.asks m message⟩
  intro m n machines
  have second : Builtin.askText message n =
      .ok (m.console.ask message).1 { n with console := (m.console.ask message).2 } := by
    rw [← machines.console]
    rfl
  exact .ok rfl second ⟨machines.stores, machines.registry, machines.language, rfl, machines.depth,
    machines.patience⟩

theorem languageFollows (v : Value) :
    S.Follows id (Builtin.setLanguage v) (Builtin.setLanguage (S.value v)) := by
  refine ⟨?_, fun _ => lawful.same rfl rfl⟩
  intro m n machines
  exact .ok rfl rfl ⟨machines.stores, machines.registry, rfl, machines.console, machines.depth,
    machines.patience⟩

theorem builtinFollows (b : Builtin) (arguments : List Value) :
    S.Follows S.value (b.call arguments) (b.call (arguments.map S.value)) := by
  have text : (S.value (arguments.headD .undefined)).toText = (arguments.headD .undefined).toText :=
    Value.mapBodiesText ..
  have nothing : S.Follows S.value (pure .undefined) (pure .undefined) :=
    followsPure lawful Value.undefined
  cases b with
  | print | commandPrint =>
    simp only [Builtin.call, headFollows, text]
    exact followsBind lawful (showFollows lawful _) fun _ => nothing
  | lang =>
    simp only [Builtin.call, headFollows]
    exact followsBind lawful (languageFollows lawful _) fun _ => nothing
  | input =>
    simp only [Builtin.call, headFollows]
    refine followsBind lawful (r := id) ?_ ?_
    · cases first : arguments.headD .undefined with
      | undefined => exact askFollows lawful ""
      | list identity items =>
        rw [first] at text
        simp only [value, Value.mapBodies] at text ⊢
        rw [text]
        exact askFollows lawful _
      | _ => exact askFollows lawful _
    · intro answer
      cases answer with
      | some answer => exact followsPure lawful (Value.text answer)
      | none => exact followsPure lawful Value.null
  | int =>
    have number : (S.value (arguments.headD .undefined)).toNumber =
      (arguments.headD .undefined).toNumber := Value.mapBodiesNumber ..
    simp only [Builtin.call, headFollows, text, number]
    exact followsIf (followsPure lawful (Value.number _)) (followsFail lawful rfl)
  | range =>
    simp only [Builtin.call, headFollows, rangeItemsMapped]
    cases items : Builtin.rangeItems (arguments.headD .undefined) with
    | error e => exact followsFail lawful (rangeItemsBare items)
    | ok made =>
      refine followsWithStore lawful ?_
      intro s s' stores
      refine lawful.stores.makesList stores ?_
      intro i
      rw [value, Value.mapBodies, Value.mapBodiesAllMap]
      exact congrArg (Value.list i) (rangeItemsPlain items)
  | register =>
    have second : (arguments.map S.value).getD 1 .undefined =
        S.value (arguments.getD 1 .undefined) := by
      simp only [List.getD_eq_getElem?_getD, List.getElem?_map]
      cases arguments[1]? <;> rfl
    simp only [Builtin.call, headFollows, text, second]
    exact followsBind lawful (followsRegister lawful _ _) fun _ => nothing
  | dispatch => exact followsFail lawful rfl

section Calls

variable {call call' : Closure → List Value → Eval Value}
  (calls : ∀ closure arguments, S.Follows S.value (call closure arguments)
    (call' { closure with body := S.body closure.body } (arguments.map S.value)))
include calls

theorem notifyFollows {again again' : Eval Nat} (redispatches : S.Follows id again again')
    (listener : Value) :
    S.Follows id (notify call again listener) (notify call' again' (S.value listener)) := by
  cases listener with
  | builtin b =>
    cases b with
    | dispatch => exact followsBind lawful redispatches fun _ => followsPure lawful ()
    | _ => exact followsBind lawful (builtinFollows lawful _ []) fun _ => followsPure lawful ()
  | function identity closure =>
    exact followsBind lawful (calls closure []) fun _ => followsPure lawful ()
  | _ => exact followsFail lawful rfl

theorem listenersFollow {again again' : Eval Nat} (redispatches : S.Follows id again again')
    (listeners : List Value) :
    S.Follows id (listeners.forM (notify call again))
      ((listeners.map S.value).forM (notify call' again')) := by
  induction listeners with
  | nil => exact followsPure lawful ()
  | cons listener listeners ih =>
    exact followsBind lawful (notifyFollows lawful calls redispatches listener) fun _ => ih

/- The induction is on the chances of the first run, which are no fewer. -/
theorem fireFollows {chances chances' : Nat} (patience : S.Patience chances chances') (event : String) :
    S.Follows id (fire call chances event) (fire call' chances' event) := by
  induction chances generalizing chances' event with
  | zero =>
    cases Nat.le_zero.mp (lawful.enough patience)
    exact ⟨fun machines => .error rfl rfl machines, fun _ => lawful.same rfl rfl⟩
  | succ chances ih =>
    have each : ∀ {chances'}, S.Patience chances chances' → ∀ listeners : List Value,
        S.Follows id (listeners.forM (notify call (fire call chances Value.undefined.toText)) >>=
            fun _ => pure listeners.length)
          ((listeners.map S.value).forM (notify call' (fire call' chances' Value.undefined.toText)) >>=
            fun _ => pure listeners.length) := by
      intro chances' patience listeners
      exact followsBind lawful (listenersFollow lawful calls (ih patience _) listeners) fun _ =>
        followsPure lawful _
    have grows : ∀ m, S.Later m ((fire call (chances + 1) event).leaves m) := by
      intro m
      rw [Eval.leavesSame (fireOpens call chances event m)]
      exact (each (lawful.patient chances) _).grows m
    refine ⟨?_, grows⟩
    intro m n machines
    cases chances' with
    | zero =>
      obtain ⟨limit, cut⟩ := lawful.exhausts patience machines
      exact .cut rfl limit (lawful.cutLater cut (grows m))
    | succ chances' =>
      refine endsSame (fireOpens call chances event m) ?_ ((each (lawful.spends patience) _).ends machines)
      rw [fireOpens, machines.registry, Registry.listenersMapped, List.length_map]

theorem invokeFollows : S.CallsFollow (invoke call) (invoke call') := by
  intro name callee arguments
  cases callee with
  | builtin b =>
    by_cases dispatches : b = .dispatch
    · subst dispatches
      have event : ((arguments.map S.value).headD .undefined).toText =
          (arguments.headD .undefined).toText := by
        rw [headFollows]
        exact Value.mapBodiesText ..
      have fires : ∀ {c c'}, S.Patience c c' → S.Follows S.value
          (fire call c (arguments.headD .undefined).toText >>= fun _ => pure .undefined)
          (fire call' c' ((arguments.map S.value).headD .undefined).toText >>= fun _ =>
            pure .undefined) := by
        intro c c' patience
        rw [event]
        exact followsBind lawful (fireFollows lawful calls patience _) fun _ =>
          followsPure lawful Value.undefined
      exact followsGet (fun machines => fires machines.patience) fun m =>
        (fires (lawful.patient m.patience)).grows m
    · simp only [value, Value.mapBodies, invokeBuiltin dispatches]
      exact builtinFollows lawful b arguments
  | function identity closure => exact calls closure arguments
  | _ => exact followsFail lawful rfl

theorem enteredFollows (closure : Closure) (arguments : List Value) :
    S.Follows S.value
      (do
        let scope ← enterCall closure arguments
        let flow ← Eval.deeper (runBody (invoke call) closure.body scope)
        pure flow.result)
      (do
        let scope ← enterCall { closure with body := S.body closure.body } (arguments.map S.value)
        let flow ← Eval.deeper (runBody (invoke call') (S.body closure.body) scope)
        pure flow.result) := by
  refine followsBind lawful (enterCallFollows lawful closure arguments) ?_
  intro scope
  refine followsBind lawful
    (followsDeeper lawful (bodyFollows lawful (invokeFollows lawful calls) closure.body scope)) ?_
  intro x
  rw [flowResult]
  exact followsPure lawful _

end Calls

theorem callFollows (allowed : Nat) (closure : Closure) (arguments : List Value) :
    S.Follows S.value (Evaluation.call allowed closure arguments)
      (Evaluation.call allowed { closure with body := S.body closure.body } (arguments.map S.value)) := by
  induction allowed generalizing closure arguments with
  | zero => exact followsFail lawful rfl
  | succ allowed ih => exact enteredFollows lawful ih closure arguments

end Evaluations

section Operations

variable (level : ∀ {d d'}, S.Depths d d' → d' = d)
include level

omit lawful in
theorem allowedSame {m n : Machine} (machines : S.Machines m n) : n.allowed = m.allowed := by
  rw [Machine.allowed, Machine.allowed, level machines.depth]

theorem loadFollows (program : List Node) :
    S.Follows id (Machine.load program) (Machine.load (S.body program)) := by
  simp only [Machine.load, lawful.bodyStrays, listStrays lawful]
  cases Node.strayIn program with
  | some line => exact ⟨fun machines => .error rfl rfl machines, fun _ => lawful.same rfl rfl⟩
  | none =>
    have runs : ∀ allowed, S.Follows id (do let _ ← runBody (calling allowed) program Machine.globals)
        (do let _ ← runBody (calling allowed) (S.body program) Machine.globals) := by
      intro allowed
      exact followsBind lawful (bodyFollows lawful (invokeFollows lawful (callFollows lawful allowed))
        program Machine.globals) fun _ => followsPure lawful ()
    refine followsGet ?_ fun m => (runs m.allowed).grows m
    intro m n machines
    rw [allowedSame level machines]
    exact runs m.allowed

theorem dispatchFollows (event : String) :
    S.Follows id (Machine.dispatch event) (Machine.dispatch event) := by
  have fires : ∀ allowed {c c'}, S.Patience c c' →
      S.Follows id (fire (call allowed) c event) (fire (call allowed) c' event) :=
    fun allowed _ _ patience => fireFollows lawful (callFollows lawful allowed) patience event
  refine followsGet ?_ fun m => (fires m.allowed (lawful.patient m.patience)).grows m
  intro m n machines
  rw [allowedSame level machines]
  exact fires m.allowed machines.patience

theorem loadRunFollows (program : List Node) :
    S.Follows id (Operation.load program).run (Operation.load (S.body program)).run :=
  followsBind lawful (loadFollows lawful level program) fun _ => followsPure lawful none

theorem eventRunFollows {op : Operation} (fires : op.event?.isSome = true) :
    S.Follows id op.run op.run := by
  have counted : ∀ event, S.Follows id (some <$> Machine.dispatch event)
      (some <$> Machine.dispatch event) := by
    intro event
    rw [map_eq_pure_bind]
    exact followsBind lawful (dispatchFollows lawful level event) fun count =>
      followsPure lawful (some count)
  cases op with
  | bind | load => contradiction
  | dispatch event => exact counted event
  | launch => exact counted launchEvent
  | pressKey key => exact counted (keyEvent key)

end Operations

end Lockstep

end EventScript
