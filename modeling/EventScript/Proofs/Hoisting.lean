import EventScript.Proofs.ElseIf
import EventScript.Proofs.Holding
import EventScript.Proofs.Leaving
import EventScript.Proofs.Names
import EventScript.Proofs.WellFormed

/-! Hoisting is complete. What the statements of a parsed body declare is bound before they
run, in the frame of their call; after that no frame gets another name, except that an
assignment inside an expression may make a global one. -/
namespace EventScript

open Evaluation Eval

namespace Operation

/- Programs come from the parser, and what the host binds holds no functions. -/
def FromSource : Operation → Prop
  | load program => ∃ source, parse source = .ok program
  | op => op.bindsPlain = true

/- The machine once the operation has bound its name or hoisted its program. -/
def opened (op : Operation) (m : Machine) : Machine :=
  match op with
  | load program =>
    if Node.strayIn program = none then
      { m with store := hoist Machine.globals m.store program }
    else m
  | bind .. => op.run.leaves m
  | dispatch _ | launch | pressKey _ => m

/- A machine that the run of the operation comes by. -/
def Sees (op : Operation) (m a : Machine) : Prop :=
  a = op.run.leaves m ∨ ∃ s, op.Passes m s ∧ a = s.hoisted.machine

/- An assignment inside an expression finds the name in no frame of its scope. -/
def Introduces (op : Operation) (m : Machine) (x : String) : Prop :=
  ∃ k line value scope l flow n, op.Passes m ⟨k, .node .operand (.assign line x value) scope, l⟩ ∧
    perform (calling k) .operand value scope l = .ok flow n ∧ n.store.get? scope x = none

end Operation

namespace Hoisting

variable {new : String → Prop} {s t : Store} {f : Nat} {path : List Nat} {scope : Scope} {x : String}

/- The nearest function frame of a path. The frames before it are blocks and exist, so no
frame that is made later can come between. -/
inductive Anchors (s : Store) (f : Nat) : List Nat → Prop where
  | here {rest} (function : s.isFunction f = true) : Anchors s f (f :: rest)
  | block {b rest} (inside : b < s.frames.size) (block : s.isFunction b = false)
      (outer : Anchors s f rest) : Anchors s f (b :: rest)

theorem anchorsFunction (h : Anchors s f path) : s.isFunction f = true := by
  induction h with
  | here function => exact function
  | block _ _ _ ih => exact ih

theorem anchorsFind (h : Anchors s f path) : path.find? s.isFunction = some f := by
  induction h with
  | here function => rw [List.find?_cons_of_pos function]
  | block inside block outer ih => rw [List.find?_cons_of_neg (by simp [block]), ih]

theorem anchorsLater (h : Anchors s f path) (later : s.Extends new t) : Anchors t f path := by
  induction h with
  | here function =>
    exact .here ((later.kinds _ (Store.functionInside function)).trans function)
  | block inside block _ ih =>
    exact .block (Nat.lt_of_lt_of_le inside later.size) ((later.kinds _ inside).trans block) ih

def Binds (s : Store) (scope : Scope) (x : String) : Prop :=
  ∃ f, Anchors s f scope.path ∧ s.Named f x

theorem bindsLater (h : Binds s scope x) (later : s.Extends new t) : Binds t scope x := by
  obtain ⟨f, anchors, named⟩ := h
  have inside := Store.functionInside (anchorsFunction anchors)
  exact ⟨f, anchorsLater anchors later, later.kept f inside x named⟩

theorem declareExtends (h : Binds s scope x) (v : Value) : s.Extends new (s.declare scope x v) := by
  obtain ⟨f, anchors, named⟩ := h
  have inside := Store.functionInside (anchorsFunction anchors)
  have found : s.functionFrame scope = f := by rw [Store.functionFrame, anchorsFind anchors]; rfl
  rw [Store.declare, found]
  refine Store.extendsAdds (Store.extendsFrames rfl) (Store.addsDefine inside x v) ?_
  intro y member
  rw [List.mem_singleton.mp member]
  exact .inr (.inl named)

theorem functionExtends (h : Binds s scope x) (parameters : List String) (body : List Node) :
    let (value, t) := s.newFunction ⟨x, parameters, body, scope⟩
    s.Extends new (t.declare scope x value) := by
  have made : s.Extends new (s.newFunction ⟨x, parameters, body, scope⟩).2 := Store.extendsFrames rfl
  exact Store.extendsTrans made (declareExtends (bindsLater h made) _)

theorem assignExtends (function : s.isFunction 0 = true) (root : scope.root = 0)
    (fresh : s.get? scope x = none → new x) (v : Value) : s.Extends new (s.assign scope x v) := by
  rw [Store.assign]
  cases found : scope.path.find? fun f => (s.local? x f).isSome with
  | some f =>
    have named : s.Named f x := by
      have bound := List.find?_some found
      exact bound
    refine Store.extendsAdds (Store.extendsFrames rfl) (Store.addsDefine (Store.namedInside named) x v) ?_
    intro y member
    rw [List.mem_singleton.mp member]
    exact .inr (.inl named)
  | none =>
    have absent : s.get? scope x = none := by
      rw [Store.get?, List.findSome?_eq_none_iff]
      intro f member
      simpa using List.find?_eq_none.mp found f member
    refine Store.extendsAdds (Store.extendsFrames rfl)
      (Store.addsDefine (Store.functionInside (i := scope.root) (by rw [root]; exact function)) x v) ?_
    intro y member
    rw [List.mem_singleton.mp member]
    exact .inr (.inr ⟨root, fresh absent⟩)

section Entry

variable (c : Closure) (arguments : List Value) (m : Machine)

theorem entryAdds :
    (m.store.enter true c.scope.path).2.Adds m.store.frames.size (c.parameters ++ Node.declaredIn c.body)
      (c.entry arguments m).2.store := by
  have inside : m.store.frames.size < (m.store.enter true c.scope.path).2.frames.size := by
    simp [Store.enter]
  have bound := Store.addsParameters inside c.parameters arguments
  have function : (m.store.enter true c.scope.path).2.isFunction m.store.frames.size = true := by
    simp [Store.enter, Store.isFunction]
  have still : Store.isFunction _ (c.entry arguments m).1.frame = true := (bound.kinds _).trans function
  exact Store.addsTrans bound (Store.addsHoist still c.body)

theorem entryExtends : m.store.Extends new (c.entry arguments m).2.store :=
  Store.extendsAdds (Store.extendsEnter true c.scope.path) (entryAdds c arguments m)
    fun _ _ => .inl (Nat.le_refl _)

theorem entryAnchors :
    Anchors (c.entry arguments m).2.store m.store.frames.size (c.entry arguments m).1.path := by
  refine .here ?_
  rw [(entryAdds c arguments m).kinds]
  simp [Store.enter, Store.isFunction]

theorem entryNames (x : String) :
    (c.entry arguments m).2.store.Named m.store.frames.size x ↔
      x ∈ c.parameters ++ Node.declaredIn c.body := by
  have blank : ¬ (m.store.enter true c.scope.path).2.Named m.store.frames.size x := by
    simp [Store.enter, Store.Named, Store.local?]
  rw [(entryAdds c arguments m).names]
  simp [blank]

end Entry

theorem turnAdds (s : Store) (scope : Scope) (name : String) (item : Value) :
    (s.enter false scope.path).2.Adds s.frames.size [name]
      ((s.enter false scope.path).2.define s.frames.size name item) :=
  Store.addsDefine (by simp [Store.enter]) name item

theorem turnExtends (s : Store) (scope : Scope) (name : String) (item : Value) :
    s.Extends new ((s.enter false scope.path).2.define s.frames.size name item) :=
  Store.extendsAdds (Store.extendsEnter false scope.path) (turnAdds s scope name item)
    fun _ _ => .inl (Nat.le_refl _)

theorem turnAnchors (s : Store) (scope : Scope) (name : String) (item : Value)
    (h : Anchors s f scope.path) :
    Anchors ((s.enter false scope.path).2.define s.frames.size name item) f
      (s.frames.size :: scope.path) := by
  have adds := turnAdds s scope name item
  have later : s.Extends (fun _ => False) _ := turnExtends s scope name item
  refine .block ?_ ?_ (anchorsLater h later)
  · rw [adds.size]
    simp [Store.enter]
  · rw [adds.kinds]
    simp [Store.enter, Store.isFunction]

def Rooted : Value → Prop :=
  Value.Carries (fun c => Node.obeyAll Node.wellFormed .statement c.body = true ∧ c.scope.root = 0)
    fun _ => True

structure Ready (m : Machine) : Prop where
  contents : m.Contains (fun _ => Rooted) fun _ => Rooted
  globals : m.store.isFunction 0 = true

section Runs

variable {op : Operation} {m : Machine}

def regime (op : Operation) (m : Machine) : Regime where
  rule := Node.wellFormed
  Fit n := Ready n ∧ (op.opened m).store.Extends (op.Introduces m) n.store
  Later a b := a.store.Extends (op.Introduces m) b.store
  Good := Rooted
  Within scope n := scope.root = 0 ∧ ∃ f, Anchors n.store f scope.path
  Binds scope x n := Binds n.store scope x
  Fires _ := True
  Extra := op.Passes m
  Alike r q := q = r

theorem holding : (regime op m).Holding (fun _ => Rooted) fun _ => Rooted where
  binds good := good
  listens good := good
  makes within obeys _ _ _ := by
    simp only [regime, Rooted, Value.Carries]
    exact ⟨obeys, within.1⟩
  undefined := by simp only [regime, Rooted, Value.Carries]

theorem operandDeclares {e : Node} (obeys : e.obeys Node.wellFormed .operand = true) :
    e.declaresAt .operand = [] := by
  cases e with
  | literal | name | binary | assign | call => rfl
  | function | cond | loop | handler | result =>
    simp only [Node.obeys, Node.wellFormed, Bool.false_and, Bool.false_eq_true] at obeys

theorem builtinFrames {arguments : List Value} {a b : Machine} (left : BuiltinLeaves arguments a b) :
    b.store.frames = a.store.frames := by
  cases left <;> rfl

theorem declaredInside {n : Node} {ns : List Node} {x : String} (member : n ∈ ns)
    (declares : x ∈ n.declaredNames) : x ∈ Node.declaredIn ns := by
  induction ns with
  | nil => contradiction
  | cons e ns ih =>
    rw [Node.declaredIn, List.mem_append]
    rcases List.mem_cons.mp member with rfl | member
    · exact .inl declares
    · exact .inr (ih member)

theorem writesExtend {s : Moment} {a b : Machine} {given : List Value}
    (admits : (regime op m).Admits s) (kept : (regime op m).Kept s.machine a)
    (written : Writes s a given b) : a.store.Extends (op.Introduces m) b.store := by
  cases written with
  | declares before =>
    have bound := admits.suits.2.2 _ List.mem_cons_self
    exact declareExtends (bindsLater bound kept.later) _
  | assigns before =>
    obtain ⟨_, ⟨root, _⟩, _⟩ := admits.suits
    refine assignExtends kept.fit.1.globals root ?_ _
    intro absent
    exact ⟨_, _, _, _, _, _, _, admits.extra, before, absent⟩
  | @makes k position line name parameters body scope =>
    have declares : name ∈ Node.declaresAt position (.function line name parameters body) := by
      cases position <;> exact List.mem_cons_self
    exact functionExtends (admits.suits.2.2 name declares) parameters body
  | listens => exact Store.extendsFrames rfl
  | @opens k es line name parameters body ns scope m n before =>
    have inside : name ∈ Node.declaredIn (es ++ .function line name parameters body :: ns) :=
      declaredInside (List.mem_append_right _ List.mem_cons_self) List.mem_cons_self
    have bound := admits.suits.bound name inside
    exact functionExtends (bindsLater bound kept.later) parameters body
  | @turns k name item items body scope => exact turnExtends a.store scope name item
  | answers | notifies => exact Store.extendsFrames (builtinFrames (builtinLeaves _ _ a))

theorem readyLater {a b : Machine} (ready : Ready a)
    (later : a.store.Extends (op.Introduces m) b.store)
    (held : b.Contains (fun _ => Rooted) fun _ => Rooted) : Ready b := by
  have inside := Store.functionInside ready.globals
  exact ⟨held, (later.kinds 0 inside).trans ready.globals⟩

theorem keptLater {a b : Machine} (kept : (regime op m).Fit a)
    (later : a.store.Extends (op.Introduces m) b.store)
    (held : b.Contains (fun _ => Rooted) fun _ => Rooted) : (regime op m).Kept a b :=
  ⟨⟨readyLater kept.1 later held, Store.extendsTrans kept.2 later⟩, later⟩

theorem lawful : (regime op m).Lawful where
  refl := Store.extendsFrames rfl
  trans := Store.extendsTrans
  within := by
    intro scope a b within later
    obtain ⟨root, f, anchors⟩ := within
    exact ⟨root, f, anchorsLater anchors later⟩
  binds := bindsLater
  extra := by
    intro s t passes starts
    obtain ⟨first, begins, path⟩ := passes
    exact ⟨first, begins, path.tail starts⟩
  operand := by
    intro e scope n obeys _ x member
    rw [operandDeclares obeys] at member
    contradiction
  literal := Value.carriesLiteral
  applied := Value.carriesApplied
  undefined := by simp only [regime, Rooted, Value.Carries]
  text _ := by simp only [regime, Rooted, Value.Carries]
  items := by
    intro identity vs good
    have listed : (Value.list identity vs).Carries _ _ := good
    exact Value.carriesList.mp listed
  body good := by
    simp only [regime, Rooted, Value.Carries] at good
    exact good.1
  dispatches _ _ := trivial
  found fit _ _ _ found := Store.getEach fit.1.contents.store found
  listeners fit _ l member := Registry.listenersEach fit.1.contents.registry _ l member
  answered other _ done := Value.carriesAnswer other done
  writes := by
    intro s given a b admits kept good written
    exact keptLater kept.fit (writesExtend admits kept written)
      (Regime.writesContain holding admits good kept.fit.1.contents written)
  turns := by
    intro scope name item inner a b within kept before
    cases before
    obtain ⟨root, f, anchors⟩ := within
    refine ⟨⟨(Scope.rootOuter _ scope).trans root, f, turnAnchors _ scope name item anchors⟩, ?_⟩
    intro x bound
    obtain ⟨f, anchors, named⟩ := bound
    have inside := Store.functionInside (anchorsFunction anchors)
    exact ⟨f, turnAnchors _ scope name item anchors, kept.later.kept f inside x named⟩
  enters := by
    intro k c arguments a admits
    obtain ⟨⟨i, good⟩, given⟩ := admits.suits
    simp only [regime, Rooted, Value.Carries] at good
    obtain ⟨obeys, root⟩ := good
    have anchors := entryAnchors c arguments a
    have within : (regime op m).Within (c.entry arguments a).1 (c.entry arguments a).2 :=
      ⟨(Scope.rootOuter _ c.scope).trans root, _, anchors⟩
    have held := Regime.entryContains holding admits.fit.1.contents given within obeys
    refine ⟨(keptLater admits.fit (entryExtends c arguments a) held).fit, obeys, within, ?_⟩
    intro x member
    refine ⟨_, anchors, ((entryAdds c arguments a).names _ x).mpr (.inr ⟨rfl, ?_⟩)⟩
    exact List.mem_append_right _ member
  returns := by
    intro k c arguments a b admits _ kept
    have later := Store.extendsTrans (entryExtends c arguments a) kept.later
    obtain ⟨⟨held, globals⟩, base⟩ := kept.fit
    exact ⟨⟨⟨⟨held.store, held.registry⟩, globals⟩, base⟩, later⟩
  heard _ alike := by rw [alike]
  registers alike _ _ := by rw [alike]; rfl

theorem globalsAnchored {s : Store} (function : s.isFunction 0 = true) :
    Anchors s 0 Machine.globals.path := .here function

theorem loadAdds (ready : Ready m) (program : List Node) :
    m.store.Adds 0 (Node.declaredIn program) (hoist Machine.globals m.store program) := by
  have own : m.store.isFunction Machine.globals.frame = true := ready.globals
  exact Store.addsHoist own program

theorem beginsAdmitted {first : Moment} (given : op.FromSource) (ready : Ready m)
    (begins : op.Begins m first) :
    (regime op m).Admits first ∧ first.hoisted.machine = op.opened m := by
  have extra : op.Passes m first := ⟨first, begins, .refl⟩
  cases begins with
  | @load program _ legal =>
    have opened : (Operation.load program).opened m =
        { m with store := hoist Machine.globals m.store program } := if_pos legal
    obtain ⟨source, parsed⟩ := given
    have obeys := parseWellFormed parsed
    have adds := loadAdds ready program
    have globals := (adds.kinds 0).trans ready.globals
    have within : (regime (.load program) m).Within Machine.globals
        { m with store := hoist Machine.globals m.store program } :=
      ⟨rfl, 0, globalsAnchored globals⟩
    have held := Regime.hoistEach holding ready.contents.store within obeys
    refine ⟨⟨extra, ⟨⟨⟨held, ready.contents.registry⟩, globals⟩, ?_⟩, obeys, within, ?_⟩, opened.symm⟩
    · rw [opened]
      exact Store.extendsFrames rfl
    · intro x member
      exact ⟨0, globalsAnchored globals, (adds.names 0 x).mpr (.inr ⟨rfl, member⟩)⟩
  | dispatch | launch | pressKey =>
    exact ⟨⟨extra, ⟨ready, Store.extendsFrames rfl⟩, trivial⟩, rfl⟩

theorem bindReady {name : String} {d : Datum} (plain : d.isPlain = true) (ready : Ready m) :
    Ready ((Operation.bind name d).run.leaves m) ∧
      (m.store.receive d).Adds 0 [name] ((Operation.bind name d).run.leaves m).store := by
  obtain ⟨value, inside⟩ := Datum.plainParts plain
  have received : m.store.Extends (fun _ => False) (m.store.receive d) := Store.extendsReceive d
  have globals := (received.kinds 0 (Store.functionInside ready.globals)).trans ready.globals
  have adds := Store.addsDefine (Store.functionInside globals) name d.value
  have held : (m.store.receive d).Each fun _ => Rooted :=
    Store.eachReceive ready.contents.store fun frame member b bound =>
      Value.plainCarries b.2 (inside frame member b bound)
  refine ⟨⟨⟨Store.eachDefine held (Value.plainCarries d.value value), ready.contents.registry⟩, ?_⟩, adds⟩
  exact (adds.kinds 0).trans globals

theorem operationReady (given : op.FromSource) (ready : Ready m) :
    Ready (op.run.leaves m) ∧
      (op.opened m).store.Extends (op.Introduces m) (op.run.leaves m).store := by
  rcases op.beginsOrNot m with ⟨first, begins⟩ | ⟨name, datum, rfl⟩ | ⟨program, line, rfl, stray⟩
  · have admits := (beginsAdmitted given ready begins).1
    have fit := (Regime.holdsKept (Regime.holds lawful admits)).fit
    rw [Regime.beginsLeaves begins]
    exact fit
  · exact ⟨(bindReady given ready).1, Store.extendsFrames rfl⟩
  · have illegal : ¬ Node.strayIn program = none := by simp [stray]
    have opened : (Operation.load program).opened m = m := if_neg illegal
    rw [leavesError (Operation.loadRefused stray m), opened]
    exact ⟨ready, Store.extendsFrames rfl⟩

theorem seenBetween {a : Machine} (given : op.FromSource) (ready : Ready m) (seen : op.Sees m a) :
    (op.opened m).store.Extends (op.Introduces m) a.store ∧
      a.store.Extends (op.Introduces m) (op.run.leaves m).store := by
  rcases seen with rfl | ⟨s, ⟨first, begins, path⟩, rfl⟩
  · exact ⟨(operationReady given ready).2, Store.extendsFrames rfl⟩
  · have admits := (beginsAdmitted given ready begins).1
    have fit := (Regime.reached lawful admits path).fit
    have returning : ∀ n, (regime op m).Later n { n with depth := n.depth - 1 } :=
      fun _ => Store.extendsFrames rfl
    exact ⟨fit.2, Regime.passedLater lawful returning begins admits path⟩

/- An operation may bind any global name at first, but no other. -/
theorem openedExtends (given : op.FromSource) (ready : Ready m) :
    m.store.Extends (fun _ => True) (op.opened m).store := by
  cases op with
  | bind name d =>
    refine Store.extendsAdds (Store.extendsReceive d) (bindReady given ready).2 ?_
    exact fun _ _ => .inr (.inr ⟨rfl, trivial⟩)
  | load program =>
    rw [Operation.opened]
    split
    · refine Store.extendsAdds (Store.extendsFrames rfl) (loadAdds ready program) ?_
      exact fun _ _ => .inr (.inr ⟨rfl, trivial⟩)
    · exact Store.extendsFrames rfl
  | dispatch | launch | pressKey => exact Store.extendsFrames rfl

theorem openedFunction (given : op.FromSource) (ready : Ready m) :
    (op.opened m).store.isFunction 0 = true := by
  have inside := Store.functionInside ready.globals
  exact ((openedExtends given ready).kinds 0 inside).trans ready.globals

/- A call's frame once its body is hoisted, and from then on to the end. -/
theorem callBefore {k : Nat} {c : Closure} {arguments : List Value} {n : Machine} (given : op.FromSource)
    (ready : Ready m) (passes : op.Passes m ⟨k + 1, .closure c arguments, n⟩) :
    n.store.frames.size ≠ 0 ∧ n.store.frames.size < (c.entry arguments n).2.store.frames.size ∧
      (c.entry arguments n).2.store.Extends (op.Introduces m) (op.run.leaves m).store := by
  obtain ⟨first, begins, path⟩ := passes
  have admits := (beginsAdmitted given ready begins).1
  have globals := (Regime.reached lawful admits path).fit.1.globals
  have entered : op.Passes m ⟨k, .body c.body (c.entry arguments n).1, _⟩ :=
    ⟨first, begins, path.tail (.entered rfl)⟩
  have seen : op.Sees m (c.entry arguments n).2 := .inr ⟨_, entered, rfl⟩
  refine ⟨Nat.ne_of_gt (Store.functionInside globals), ?_, (seenBetween given ready seen).2⟩
  exact Store.functionInside (anchorsFunction (entryAnchors c arguments n))

theorem afterExtends {more : List Operation} (sourced : ∀ op ∈ more, op.FromSource) (ready : Ready m) :
    Ready (m.after more) ∧ m.store.Extends (fun _ => True) (m.after more).store := by
  induction more generalizing m with
  | nil => exact ⟨ready, Store.extendsFrames rfl⟩
  | cons op more ih =>
    obtain ⟨given, rest⟩ := List.forall_mem_cons.mp sourced
    obtain ⟨after, ran⟩ := operationReady given ready
    obtain ⟨last, later⟩ := ih rest after
    have first := Store.extendsTrans (openedExtends given ready) (Store.extendsMore ran)
    exact ⟨last, Store.extendsTrans first later⟩

end Runs

theorem startReady (answers : List (Option String)) (patience : Nat) :
    Ready (Machine.start answers patience) :=
  ⟨startContains (fun _ member => initialCarries member fun _ _ => trivial) answers patience, rfl⟩

end Hoisting

theorem hoistingIsComplete (answers : List (Option String)) (patience : Nat) (ops : List Operation)
    (sourced : ∀ op ∈ ops, op.FromSource) (op : Operation) (given : op.FromSource) :
    let m := (Machine.start answers patience).after ops
    let left := (op.run.leaves m).store
    (∀ k c arguments n, op.Passes m ⟨k + 1, .closure c arguments, n⟩ → ∀ x,
      left.Named n.store.frames.size x ↔ x ∈ c.parameters ++ Node.declaredIn c.body) ∧
    (∀ a, op.Sees m a →
      (∀ i, i ≠ 0 → i < a.store.frames.size → ∀ x, left.Named i x ↔ a.store.Named i x) ∧
      (∀ x, (op.opened m).store.Named 0 x → a.store.Named 0 x) ∧
      ∀ x, a.store.Named 0 x →
        left.Named 0 x ∧ ((op.opened m).store.Named 0 x ∨ op.Introduces m x)) ∧
    ∀ more, (∀ op ∈ more, op.FromSource) → ∀ i, i ≠ 0 → i < m.store.frames.size → ∀ x,
      (m.after more).store.Named i x ↔ m.store.Named i x := by
  intro m left
  have ready := (Hoisting.afterExtends sourced (Hoisting.startReady answers patience)).1
  refine ⟨?_, ?_, ?_⟩
  · intro k c arguments n passes x
    obtain ⟨inner, inside, last⟩ := Hoisting.callBefore given ready passes
    rw [Store.extendsSame last inside inner, Hoisting.entryNames]
  · intro a seen
    obtain ⟨first, last⟩ := Hoisting.seenBetween given ready seen
    have inside := Store.functionInside (Hoisting.openedFunction given ready)
    refine ⟨fun i inner within => Store.extendsSame last within inner, first.kept 0 inside, ?_⟩
    intro x named
    refine ⟨last.kept 0 (Nat.lt_of_lt_of_le inside first.size) x named, ?_⟩
    exact (first.fresh 0 inside x named).imp_right fun made => made.2
  · intro more rest i inner inside
    exact Store.extendsSame (Hoisting.afterExtends rest ready).2 inside inner

def keepingBinds : List Operation :=
  [.bind "k" ⟨#[], 1, .list 1 [.null]⟩, .bind "l" ⟨#[], 0, .list 1 [.null]⟩]

def keepingBefore : Machine := (Machine.start [] 1).after keepingBinds

def keepingAfter : Store := ((Operation.load keepingTree).run.leaves keepingBefore).store

theorem keepingHoisted :
    (∀ op ∈ keepingBinds, op.FromSource) ∧
      (Operation.load keepingTree).FromSource ∧
      (keepingAfter.Named 1 "a" ∧ keepingAfter.Named 1 "g" ∧ keepingAfter.Named 0 "h") ∧
      ∀ a, (Operation.load keepingTree).Sees keepingBefore a →
        ∀ i, i ≠ 0 → i < a.store.frames.size → ∀ x, keepingAfter.Named i x ↔ a.store.Named i x := by
  have sourced : ∀ op ∈ keepingBinds, op.FromSource := by
    simp [keepingBinds, Operation.FromSource, Operation.bindsPlain, Datum.isPlain, Value.isPlain,
      Value.allPlain]
  have given : (Operation.load keepingTree).FromSource := ⟨_, keepingParses⟩
  have parameter : (keepingAfter.local? "a" 1).isSome = true := by decide +kernel
  have declared : (keepingAfter.local? "g" 1).isSome = true := by decide +kernel
  have introduced : (keepingAfter.local? "h" 0).isSome = true := by decide +kernel
  refine ⟨sourced, given, ⟨parameter, declared, introduced⟩, ?_⟩
  intro a seen
  exact ((hoistingIsComplete [] 1 _ sourced _ given).2.1 a seen).1

end EventScript
