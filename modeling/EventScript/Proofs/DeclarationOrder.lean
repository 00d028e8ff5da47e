import EventScript.Proofs.Sessions

/-! Where functions are declared. Before a body runs its functions are bound and the other names
that it declares get a place, unless they have one; so a function may be declared anywhere among
the statements of its body. With all functions put first, in every body, a program runs as it
does. -/
namespace EventScript

open Evaluation

namespace Node

def isOther (n : Node) : Bool := !n.isFunction

/- The functions first, then the other statements. -/
def front (ns : List Node) : List Node := ns.filter isFunction ++ ns.filter isOther

/- The same functions in the same order, and so the other statements. -/
structure Moved (ns ms : List Node) : Prop where
  functions : ns.filter isFunction = ms.filter isFunction
  others : ns.filter isOther = ms.filter isOther

mutual

def arrange : Node → Node
  | literal line value => literal line value
  | name line s => name line s
  | binary line op left right => binary line op (arrange left) (arrange right)
  | assign line target value => assign line target (arrange value)
  | call line callee arguments => call line callee (arrangeAll arguments)
  | function line s parameters body => function line s parameters (front (arrangeAll body))
  | cond line condition body branches otherwise =>
    cond line (arrange condition) (arrangeAll body) (arrangeBranches branches) (arrangeAll otherwise)
  | loop line s items body => loop line s (arrange items) (arrangeAll body)
  | handler line event body => handler line event (front (arrangeAll body))
  | result line value => result line (arrange value)

def arrangeAll : List Node → List Node
  | [] => []
  | n :: ns => arrange n :: arrangeAll ns

def arrangeBranches : List (Branch Node) → List (Branch Node)
  | [] => []
  | ⟨condition, body⟩ :: rest => ⟨arrange condition, arrangeAll body⟩ :: arrangeBranches rest

end

theorem arrangeAllMap (ns : List Node) : arrangeAll ns = ns.map arrange := by
  induction ns with
  | nil => rfl
  | cons n ns ih => rw [arrangeAll, ih, List.map_cons]

theorem arrangeBranchesMap (bs : List (Branch Node)) :
    arrangeBranches bs = bs.map (Branch.map arrange) := by
  induction bs with
  | nil => rfl
  | cons b bs ih => rw [arrangeBranches, ih, List.map_cons, arrangeAllMap, Branch.map]

theorem arrangeFunction (n : Node) : (arrange n).isFunction = n.isFunction := by
  cases n <;> rfl

theorem frontOthers (ns : List Node) : (front ns).filter isOther = ns.filter isOther := by
  have none : (ns.filter isFunction).filter isOther = [] := by
    rw [List.filter_filter, List.filter_eq_nil_iff]
    intro n _
    simp [isOther]
  rw [front, List.filter_append, none, List.nil_append, List.filter_filter]
  simp

theorem frontMoved {ns ms : List Node} (moved : Moved ns ms) : front ns = front ms := by
  rw [front, front, moved.functions, moved.others]

theorem movedArranged {ns ms : List Node} (moved : Moved ns ms) :
    Moved (arrangeAll ns) (arrangeAll ms) := by
  have functions : isFunction ∘ arrange = isFunction := funext arrangeFunction
  have others : isOther ∘ arrange = isOther := by
    funext n
    simp [isOther, arrangeFunction]
  refine ⟨?_, ?_⟩
  · rw [arrangeAllMap, arrangeAllMap, List.filter_map, List.filter_map, functions, moved.functions]
  · rw [arrangeAllMap, arrangeAllMap, List.filter_map, List.filter_map, others, moved.others]

/- Functions are declared elsewhere in bodies that a node has inside. -/
mutual

inductive Rearranged : Node → Node → Prop where
  | same (n) : Rearranged n n
  | binary {line op a a' b b'} (left : Rearranged a a') (right : Rearranged b b') :
      Rearranged (.binary line op a b) (.binary line op a' b')
  | assign {line target v v'} (value : Rearranged v v') :
      Rearranged (.assign line target v) (.assign line target v')
  | call {line callee vs vs'} (arguments : RearrangedAll vs vs') :
      Rearranged (.call line callee vs) (.call line callee vs')
  | function {line s parameters ns ns'} (body : RearrangedBody ns ns') :
      Rearranged (.function line s parameters ns) (.function line s parameters ns')
  | cond {line c c' ns ns' bs bs' os os'} (condition : Rearranged c c') (body : RearrangedAll ns ns')
      (branches : RearrangedBranches bs bs') (otherwise : RearrangedAll os os') :
      Rearranged (.cond line c ns bs os) (.cond line c' ns' bs' os')
  | loop {line s v v' ns ns'} (items : Rearranged v v') (body : RearrangedAll ns ns') :
      Rearranged (.loop line s v ns) (.loop line s v' ns')
  | handler {line event ns ns'} (body : RearrangedBody ns ns') :
      Rearranged (.handler line event ns) (.handler line event ns')
  | result {line v v'} (value : Rearranged v v') : Rearranged (.result line v) (.result line v')

inductive RearrangedAll : List Node → List Node → Prop where
  | nil : RearrangedAll [] []
  | cons {n n' ns ns'} (first : Rearranged n n') (rest : RearrangedAll ns ns') :
      RearrangedAll (n :: ns) (n' :: ns')

inductive RearrangedBranches : List (Branch Node) → List (Branch Node) → Prop where
  | nil : RearrangedBranches [] []
  | cons {c c' ns ns' bs bs'} (condition : Rearranged c c') (body : RearrangedAll ns ns')
      (rest : RearrangedBranches bs bs') :
      RearrangedBranches (⟨c, ns⟩ :: bs) (⟨c', ns'⟩ :: bs')

inductive RearrangedBody : List Node → List Node → Prop where
  | moved {ns ms ms'} (inside : RearrangedAll ns ms) (moved : Moved ms ms') : RearrangedBody ns ms'

end

mutual

theorem rearrangedSame : ∀ {n n' : Node}, Rearranged n n' → arrange n = arrange n'
  | _, _, .same n => rfl
  | _, _, .binary left right => by rw [arrange, arrange, rearrangedSame left, rearrangedSame right]
  | _, _, .assign value => by rw [arrange, arrange, rearrangedSame value]
  | _, _, .call arguments => by rw [arrange, arrange, allSame arguments]
  | _, _, .function body => by rw [arrange, arrange, bodySame body]
  | _, _, .cond condition body branches otherwise => by
    rw [arrange, arrange, rearrangedSame condition, allSame body, branchesSame branches,
      allSame otherwise]
  | _, _, .loop items body => by rw [arrange, arrange, rearrangedSame items, allSame body]
  | _, _, .handler body => by rw [arrange, arrange, bodySame body]
  | _, _, .result value => by rw [arrange, arrange, rearrangedSame value]

theorem allSame : ∀ {ns ns' : List Node}, RearrangedAll ns ns' → arrangeAll ns = arrangeAll ns'
  | _, _, .nil => rfl
  | _, _, .cons first rest => by rw [arrangeAll, arrangeAll, rearrangedSame first, allSame rest]

theorem branchesSame : ∀ {bs bs' : List (Branch Node)}, RearrangedBranches bs bs' →
    arrangeBranches bs = arrangeBranches bs'
  | _, _, .nil => rfl
  | _, _, .cons condition body rest => by
    rw [arrangeBranches, arrangeBranches, rearrangedSame condition, allSame body, branchesSame rest]

theorem bodySame : ∀ {ns ns' : List Node}, RearrangedBody ns ns' →
    front (arrangeAll ns) = front (arrangeAll ns')
  | _, _, .moved inside moved => by rw [allSame inside, frontMoved (movedArranged moved)]

end

end Node

namespace Evaluation

theorem statementsOthers (i : Invoke) (ns : List Node) (scope : Scope) :
    statements i (ns.filter Node.isOther) scope = statements i ns scope := by
  induction ns with
  | nil => rfl
  | cons n ns ih =>
    cases function : n.isFunction with
    | true =>
      rw [List.filter_cons_of_neg (by simp [Node.isOther, function]), statements, if_pos function]
      exact ih
    | false =>
      rw [List.filter_cons_of_pos (by simp [Node.isOther, function]), statements, statements, ih]

theorem straysOthers (ns : List Node) : Node.strayIn (ns.filter Node.isOther) = Node.strayIn ns := by
  induction ns with
  | nil => rfl
  | cons n ns ih =>
    cases n with
    | function => exact ih
    | _ =>
      rw [List.filter_cons_of_pos rfl, Node.strayIn, Node.strayIn, ih]

end Evaluation

namespace Store

/- No difference that evaluation could tell. -/
abbrev Same : Store → Store → Prop := Corresponds id

theorem sameMatch : Matching id Same := correspondsMatch rfl

theorem sameRefl (s : Store) : Same s s := ⟨fun _ _ => by rw [Option.map_id, id], fun _ => rfl, rfl, rfl⟩

theorem correspondsTrans {g : Value → Value} {s t u : Store} (first : Corresponds g s t)
    (second : Same t u) : Corresponds g s u where
  locals name i := by rw [second.locals, Option.map_id, id, first.locals]
  kinds i := (second.kinds i).trans (first.kinds i)
  size := second.size.trans first.size
  fresh := second.fresh.trans first.fresh

theorem hoistNodeSame {s s' : Store} (same : Same s s') (scope : Scope) (n : Node) :
    Same (hoistNode scope s n) (hoistNode scope s' n) := by
  cases function : n.isFunction with
  | true =>
    cases n with
    | function => exact sameMatch.hoistsFunction same fun _ => rfl
    | _ => contradiction
  | false =>
    rw [hoistOther function, hoistOther function]
    exact sameMatch.hoistsNames scope _ same

theorem hoistSame {s s' : Store} (same : Same s s') (scope : Scope) (ns : List Node) :
    Same (Evaluation.hoist scope s ns) (Evaluation.hoist scope s' ns) := by
  simp only [Evaluation.hoist]
  induction ns generalizing s s' with
  | nil => exact same
  | cons n ns ih => exact ih (hoistNodeSame same scope n)

section Hoisted

variable (s : Store) (scope : Scope) (name : String)

theorem localHoisted (x : String) (j : Nat) :
    (s.hoist scope name).local? x j =
      if s.functionFrame scope = j ∧ j < s.frames.size ∧ x = name then
        some ((s.local? name j).getD .undefined)
      else s.local? x j := by
  simp only [Store.hoist]
  split
  · rename_i bound
    split
    · rename_i here
      obtain ⟨rfl, _, rfl⟩ := here
      obtain ⟨v, found⟩ := Option.isSome_iff_exists.mp bound
      rw [found, Option.getD_some]
    · rfl
  · rename_i free
    rw [localDefined]
    split
    · rename_i here
      obtain ⟨rfl, _, rfl⟩ := here
      rw [Option.not_isSome_iff_eq_none.mp free, Option.getD_none]
    · rfl

theorem kindHoisted (j : Nat) : (s.hoist scope name).isFunction j = s.isFunction j := by
  simp only [Store.hoist]
  split
  · rfl
  · rw [kindDefined]

theorem sizeHoisted : (s.hoist scope name).frames.size = s.frames.size := by
  simp only [Store.hoist]
  split
  · rfl
  · rw [sizeDefined]

theorem freshHoisted : (s.hoist scope name).fresh = s.fresh := by
  simp only [Store.hoist]
  split <;> rfl

/- A definition leaves a name the place that it gets before or after it. -/
theorem hoistDefine (i : Nat) (other : String) (v : Value) :
    Same ((s.hoist scope name).define i other v) ((s.define i other v).hoist scope name) := by
  have frame : (s.define i other v).functionFrame scope = s.functionFrame scope := by
    have kinds : (s.define i other v).isFunction = s.isFunction := funext (kindDefined s i other v)
    simp only [functionFrame, kinds]
  refine ⟨?_, ?_, ?_, ?_⟩
  · intro x j
    rw [Option.map_id, id, localHoisted, localDefined, localDefined, localDefined, localHoisted, frame,
      sizeDefined, sizeHoisted]
    grind
  · intro j
    rw [kindHoisted, kindDefined, kindDefined, kindHoisted]
  · rw [sizeHoisted, sizeDefined, sizeDefined, sizeHoisted]
  · rw [freshHoisted]
    exact (freshHoisted s scope name).symm

end Hoisted

variable (scope : Scope) {f n : Node}

theorem hoistNameFunction (function : f.isFunction = true) (s : Store) (name : String) :
    Same (hoistNode scope (s.hoist scope name) f) ((hoistNode scope s f).hoist scope name) := by
  cases f with
  | function line g parameters body =>
    have renewed : ({ s.hoist scope name with fresh := s.fresh + 1 } : Store) =
        ({ s with fresh := s.fresh + 1 } : Store).hoist scope name :=
      apply_ite (fun t : Store => { t with fresh := s.fresh + 1 }) _ _ _
    simp only [hoistNode, newFunction, freshHoisted, renewed]
    exact hoistDefine { s with fresh := s.fresh + 1 } scope name _ g _
  | _ => contradiction

theorem hoistNamesFunction (function : f.isFunction = true) (s : Store) (names : List String) :
    Same (hoistNode scope (names.foldl (fun s name => s.hoist scope name) s) f)
      (names.foldl (fun s name => s.hoist scope name) (hoistNode scope s f)) := by
  induction names generalizing s with
  | nil => exact sameRefl _
  | cons name names ih =>
    have first := ih (s.hoist scope name)
    exact correspondsTrans first
      (sameMatch.hoistsNames scope names (hoistNameFunction scope function s name))

theorem hoistSwap (other : n.isFunction = false) (function : f.isFunction = true) (s : Store) :
    Same (hoistNode scope (hoistNode scope s n) f) (hoistNode scope (hoistNode scope s f) n) := by
  rw [hoistOther other, hoistOther other]
  exact hoistNamesFunction scope function s n.declaredNames

theorem hoistPast (other : n.isFunction = false) {fs : List Node}
    (functions : ∀ f ∈ fs, f.isFunction = true) (s : Store) :
    Same (Evaluation.hoist scope (hoistNode scope s n) fs)
      (hoistNode scope (Evaluation.hoist scope s fs) n) := by
  induction fs generalizing s with
  | nil => exact sameRefl _
  | cons f fs ih =>
    obtain ⟨first, rest⟩ := List.forall_mem_cons.mp functions
    have swapped := hoistSame (hoistSwap scope other first s) scope fs
    exact correspondsTrans swapped (ih rest (hoistNode scope s f))

theorem hoistAppend (s : Store) (ns ms : List Node) :
    Evaluation.hoist scope s (ns ++ ms) = Evaluation.hoist scope (Evaluation.hoist scope s ns) ms := by
  simp only [Evaluation.hoist, List.foldl_append]

theorem hoistFront (s : Store) (ns : List Node) :
    Same (Evaluation.hoist scope s ns) (Evaluation.hoist scope s (Node.front ns)) := by
  induction ns generalizing s with
  | nil => exact sameRefl _
  | cons n ns ih =>
    cases function : n.isFunction with
    | true =>
      have shape : Node.front (n :: ns) = n :: Node.front ns := by
        simp [Node.front, Node.isOther, function]
      rw [shape]
      exact ih (hoistNode scope s n)
    | false =>
      have shape : Node.front (n :: ns) = ns.filter Node.isFunction ++ n :: ns.filter Node.isOther := by
        simp [Node.front, Node.isOther, function]
      have functions : ∀ f ∈ ns.filter Node.isFunction, f.isFunction = true :=
        fun f member => (List.mem_filter.mp member).2
      have past := hoistSame (hoistPast scope function functions s) scope (ns.filter Node.isOther)
      have first := ih (hoistNode scope s n)
      rw [Node.front, hoistAppend] at first
      rw [shape, hoistAppend]
      exact correspondsTrans first past

end Store

namespace DeclarationOrder

def lockstep : Lockstep where
  node := Node.arrange
  body ns := Node.front (ns.map Node.arrange)
  line := id
  Stores := Store.Corresponds (Value.mapBodies fun ns => Node.front (ns.map Node.arrange))
  Depths d d' := d' = d
  Patience c c' := c' = c
  Later _ _ := True
  Limit _ := False
  Cut _ _ := False

theorem lawful : lockstep.Lawful where
  literal _ _ := by simp only [lockstep, Node.arrange, id]
  name _ _ := by simp only [lockstep, Node.arrange, id]
  binary _ _ _ _ := by simp only [lockstep, Node.arrange, id]
  assign _ _ _ := by simp only [lockstep, Node.arrange, id]
  call _ _ _ := by simp only [lockstep, Node.arrange, Node.arrangeAllMap, id]
  function _ _ _ _ := by simp only [lockstep, Node.arrange, Node.arrangeAllMap, id]
  loop _ _ _ _ := by simp only [lockstep, Node.arrange, Node.arrangeAllMap, id]
  handler _ _ _ := by simp only [lockstep, Node.arrange, Node.arrangeAllMap, id]
  result _ _ := by simp only [lockstep, Node.arrange, id]
  cond _ _ _ _ _ := by
    simp only [lockstep, Node.arrange, Node.arrangeAllMap, Node.arrangeBranchesMap]
    exact Node.alikeSelf _
  bodyRuns i ns scope := by
    rw [← statementsOthers]
    simp only [lockstep, Node.frontOthers, statementsOthers]
  bodyStrays ns := by
    rw [← straysOthers]
    simp only [lockstep, Node.frontOthers, straysOthers]
  bodyHoists stores := Store.correspondsTrans stores (Store.hoistFront _ _ _)
  stores := Store.correspondsMatch rfl
  deeper := congrArg (· + 1)
  back := congrArg (· - 1)
  same _ _ := trivial
  trans _ _ := trivial
  tells _ _ := trivial
  asks _ _ := trivial
  registers _ _ _ := trivial
  cutLater := False.elim
  cutDepth := False.elim
  limitAtLine := False.elim
  patient _ := rfl
  enough := Nat.le_of_eq
  spends := Nat.succ.inj
  exhausts := by
    rintro c m n ⟨⟩

theorem machinesMapped (m : Machine) : lockstep.Machines m (m.mapBodies lockstep.body) where
  stores := ⟨fun name i => Store.localMapped _ m.store name i,
    fun i => Store.isFunctionMapped _ m.store i, Array.size_map, rfl⟩
  registry := rfl
  language := rfl
  console := rfl
  depth := rfl
  patience := rfl

theorem observationsArranged (p : List Node) (answers : List (Option String)) (patience : Nat)
    {triggers : List Operation} (fires : ∀ op ∈ triggers, op.event?.isSome = true) :
    Operation.observations (.load (lockstep.body p) :: triggers) (Machine.start answers patience) =
      Operation.observations (.load p :: triggers) (Machine.start answers patience) := by
  have machines := machinesMapped (Machine.start answers patience)
  rw [Machine.startMapped] at machines
  have follows := Lockstep.observationsFollow (S := lockstep) id
    (.cons (Lockstep.loadRunFollows lawful id p)
      (List.forall₂_same.mpr fun op member => Lockstep.eventRunFollows lawful id (fires op member)))
    machines
  have lines : Observation.reline lockstep.line = id := funext Observation.relineId
  rw [follows, lines, List.map_id]

end DeclarationOrder

theorem declarationOrderIsImmaterial {p q : List Node} (rearranged : Node.RearrangedBody p q)
    (answers : List (Option String)) (patience : Nat) (triggers : List Operation)
    (fires : ∀ op ∈ triggers, op.event?.isSome = true) :
    Operation.observations (.load q :: triggers) (Machine.start answers patience) =
      Operation.observations (.load p :: triggers) (Machine.start answers patience) := by
  have same : DeclarationOrder.lockstep.body p = DeclarationOrder.lockstep.body q := by
    have bodies := Node.bodySame rearranged
    rw [Node.arrangeAllMap, Node.arrangeAllMap] at bodies
    exact bodies
  rw [← DeclarationOrder.observationsArranged p answers patience fires, same,
    DeclarationOrder.observationsArranged q answers patience fires]

/- A name that is assigned and declared as a function, in the program and in the function. -/
def functionsLast : List Node :=
  [.assign 1 "f" (.literal 1 (.text "a")), .handler 2 "go" [.call 2 "print" [.name 2 "f"]],
    .function 3 "f" ["g"] [.assign 4 "g" (.literal 4 (.text "b")), .function 5 "g" [] []]]

def functionsFirst : List Node :=
  [.function 3 "f" ["g"] [.function 5 "g" [] [], .assign 4 "g" (.literal 4 (.text "b"))],
    .assign 1 "f" (.literal 1 (.text "a")), .handler 2 "go" [.call 2 "print" [.name 2 "f"]]]

theorem functionsMayStandLast :
    Node.RearrangedBody functionsLast functionsFirst ∧
      Operation.observations [.load functionsFirst, .launch, .dispatch "go"] (Machine.start [] 2) =
        Operation.observations [.load functionsLast, .launch, .dispatch "go"] (Machine.start [] 2) := by
  have inner : Node.RearrangedBody
      [.assign 4 "g" (.literal 4 (.text "b")), .function 5 "g" [] []]
      [.function 5 "g" [] [], .assign 4 "g" (.literal 4 (.text "b"))] :=
    .moved (.cons (.same _) (.cons (.same _) .nil)) ⟨rfl, rfl⟩
  have inside : Node.RearrangedAll functionsLast _ :=
    .cons (.same _) (.cons (.same _) (.cons (.function inner) .nil))
  have rearranged : Node.RearrangedBody functionsLast functionsFirst := .moved inside ⟨rfl, rfl⟩
  refine ⟨rearranged, declarationOrderIsImmaterial rearranged [] 2 [.launch, .dispatch "go"] ?_⟩
  intro op member
  rcases List.mem_pair.mp member with rfl | rfl <;> rfl

end EventScript
