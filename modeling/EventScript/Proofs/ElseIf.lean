import EventScript.Proofs.Sessions

/-! A conditional with further branches is one whose other case is a conditional on
the next branch. Written so at every depth, a program runs as before. -/
namespace EventScript

namespace Node

/- The other case of a conditional on the given line, with its further branches nested. -/
def elseIfs (line : Nat) : List (Branch Node) → List Node → List Node
  | [], otherwise => otherwise
  | ⟨condition, body⟩ :: rest, otherwise => [cond line condition body [] (elseIfs line rest otherwise)]

mutual

def desugar : Node → Node
  | literal line value => literal line value
  | name line s => name line s
  | binary line op left right => binary line op (desugar left) (desugar right)
  | assign line target value => assign line target (desugar value)
  | call line callee arguments => call line callee (desugarAll arguments)
  | function line s parameters body => function line s parameters (desugarAll body)
  | cond line condition body branches otherwise =>
    cond line (desugar condition) (desugarAll body) []
      (elseIfs line (desugarBranches branches) (desugarAll otherwise))
  | loop line s items body => loop line s (desugar items) (desugarAll body)
  | handler line event body => handler line event (desugarAll body)
  | result line value => result line (desugar value)

def desugarAll : List Node → List Node
  | [] => []
  | n :: ns => desugar n :: desugarAll ns

def desugarBranches : List (Branch Node) → List (Branch Node)
  | [] => []
  | ⟨condition, body⟩ :: rest => ⟨desugar condition, desugarAll body⟩ :: desugarBranches rest

end

theorem desugarAllMap (ns : List Node) : desugarAll ns = ns.map desugar := by
  induction ns with
  | nil => rfl
  | cons n ns ih => rw [desugarAll, ih, List.map_cons]

theorem desugarBranchesMap (bs : List (Branch Node)) :
    desugarBranches bs = bs.map (Branch.map desugar) := by
  induction bs with
  | nil => rfl
  | cons b bs ih => rw [desugarBranches, ih, List.map_cons, desugarAllMap, Branch.map]

theorem elseIfsDeclare (line : Nat) (bs : List (Branch Node)) (o : List Node) :
    declaredIn (elseIfs line bs o) = declaredInBranches bs ++ declaredIn o := by
  induction bs with
  | nil => rfl
  | cons b bs ih =>
    simp [elseIfs, declaredIn, declaredNames, declaredInBranches, ih]

theorem elseIfsStray (line : Nat) (bs : List (Branch Node)) (o : List Node) :
    strayIn (elseIfs line bs o) = (strayInBranches bs <|> strayIn o) := by
  induction bs with
  | nil => simp [elseIfs, strayInBranches]
  | cons b bs ih =>
    simp [elseIfs, strayIn, strayReturn, strayInBranches, ih, Option.or_assoc]

end Node

namespace Eval

variable {α β : Type}

theorem atLineTwice (line : Nat) (x : Eval α) : atLine line (atLine line x) = atLine line x := by
  funext m
  simp only [atLine]
  cases x m with
  | ok a n => rfl
  | error halt n =>
    cases halt with
    | overflow => rfl
    | error e =>
      obtain ⟨kind, message, l⟩ := e
      cases l <;> rfl

theorem atLineBind (line : Nat) (x : Eval α) (f : α → Eval β) :
    atLine line (x >>= f) = atLine line x >>= fun a => atLine line (f a) := by
  funext m
  simp only [atLine, bind, EStateM.bind]
  cases x m with
  | ok a n => rfl
  | error halt n => cases halt <;> rfl

end Eval

namespace Evaluation

variable {i : Invoke}

/- A body that goes on gives no value. -/
def Valueless (x : Eval Flow) : Prop := ∀ m v n, x m = .ok (.next v) n → v = .undefined

theorem valuelessBind {α : Type} {x : Eval α} {f : α → Eval Flow} (h : ∀ a, Valueless (f a)) :
    Valueless (x >>= f) := by
  intro m v n run
  simp only [bind, EStateM.bind] at run
  cases first : x m with
  | ok a k =>
    rw [first] at run
    exact h a k v n run
  | error e k =>
    rw [first] at run
    contradiction

theorem valuelessReturned (v : Value) : Valueless (pure (.returned v)) := by
  intro m w n run
  cases run

theorem valuelessAtLine {x : Eval Flow} (h : Valueless x) (line : Nat) :
    Valueless (Eval.atLine line x) := by
  intro m v n run
  simp only [Eval.atLine] at run
  split at run
  · contradiction
  · exact h m v n run

theorem statementsValueless (ns : List Node) (scope : Scope) : Valueless (statements i ns scope) := by
  induction ns with
  | nil =>
    intro m v n run
    rw [statements] at run
    cases run
    rfl
  | cons e ns ih =>
    rw [statements]
    split
    · exact ih
    · apply valuelessBind
      intro a
      cases a with
      | returned v => exact valuelessReturned v
      | next v => exact ih

theorem branchesValueless (bs : List (Branch Node)) (scope : Scope) {x : Eval Flow}
    (last : Valueless x) : Valueless (choose i bs scope x) := by
  induction bs with
  | nil =>
    rw [choose]
    exact last
  | cons b bs ih =>
    rw [choose]
    apply valuelessBind
    intro a
    split
    · exact valuelessBind fun _ => statementsValueless b.body scope
    · exact ih

theorem onlyStatement {n : Node} {scope : Scope} (other : n.isFunction = false)
    (h : Valueless (perform i .statement n scope)) :
    statements i [n] scope = perform i .statement n scope := by
  funext m
  rw [statements, other]
  simp only [Bool.false_eq_true, if_false, bind, EStateM.bind]
  cases run : perform i .statement n scope m with
  | error e k => rfl
  | ok a k =>
    cases a with
    | returned v => rfl
    | next v =>
      rw [h m v k run, statements]
      rfl

theorem condFirst (position : Position) (line : Nat) (c : Node) (b : List Node)
    (bs : List (Branch Node)) (o : List Node) (scope : Scope) :
    perform i position (.cond line c b bs o) scope =
      Eval.atLine line (choose i (⟨c, b⟩ :: bs) scope do
        declareFunctions scope o
        statements i o scope) := by
  rw [perform, choose]

theorem elseIfsRun (line : Nat) (bs : List (Branch Node)) (o : List Node) (position : Position)
    (c : Node) (b : List Node) (scope : Scope) :
    perform i position (.cond line c b [] (Node.elseIfs line bs o)) scope =
      perform i position (.cond line c b bs o) scope := by
  induction bs generalizing position c b with
  | nil => rfl
  | cons first rest ih =>
    obtain ⟨d, e⟩ := first
    have valueless : Valueless (perform i .statement (.cond line d e rest o) scope) := by
      rw [condFirst]
      exact valuelessAtLine (branchesValueless _ scope
        (valuelessBind fun _ => statementsValueless o scope)) line
    have head : ∀ bs x, choose i (⟨c, b⟩ :: bs) scope x =
        (perform i .operand c scope >>= fun test =>
          if test.operand.isTruthy then do
            declareFunctions scope b
            statements i b scope
          else choose i bs scope x) := by
      intro bs x
      rw [choose]
    rw [condFirst, condFirst, head, head, Eval.atLineBind, Eval.atLineBind]
    congr 1
    funext test
    split
    · rfl
    · rw [choose, Node.elseIfs, declareFunctionsSkip rfl, onlyStatement rfl (by rwa [ih]), ih,
        condFirst]
      -- The nested conditional has the outer one's line, so both give a failure the same one.
      exact Eval.atLineTwice ..

end Evaluation

theorem Node.elseIfsAlike (line : Nat) (c : Node) (b : List Node) (bs : List (Branch Node))
    (o : List Node) :
    Alike (.cond line c b [] (elseIfs line bs o)) (.cond line c b bs o) where
  function := rfl
  declared := by simp [declaredNames, declaredInBranches, elseIfsDeclare]
  stray := by simp [strayReturn, strayInBranches, elseIfsStray]
  runs _ position scope := Evaluation.elseIfsRun line bs o position c b scope

def Translation.desugaring : Translation where
  node := Node.desugar
  line := id
  literal _ _ := by rw [Node.desugar]; rfl
  name _ _ := by rw [Node.desugar]; rfl
  binary _ _ _ _ := by rw [Node.desugar]; rfl
  assign _ _ _ := by rw [Node.desugar]; rfl
  call _ _ _ := by rw [Node.desugar, Node.desugarAllMap]; rfl
  function _ _ _ _ := by rw [Node.desugar, Node.desugarAllMap]; rfl
  loop _ _ _ _ := by rw [Node.desugar, Node.desugarAllMap]; rfl
  handler _ _ _ := by rw [Node.desugar, Node.desugarAllMap]; rfl
  result _ _ := by rw [Node.desugar]; rfl
  cond line c b bs o := by
    simp only [Node.desugar, Node.desugarAllMap, Node.desugarBranchesMap]
    exact Node.elseIfsAlike ..

mutual

def Value.isPlain : Value → Bool
  | .list _ items => Value.allPlain items
  | .function .. => false
  | .undefined | .null | .bool _ | .number _ | .text _ | .builtin _ => true

def Value.allPlain : List Value → Bool
  | [] => true
  | v :: vs => Value.isPlain v && Value.allPlain vs

end

/- There is no function in what the host hands over. -/
def Datum.isPlain (d : Datum) : Bool :=
  d.value.isPlain && d.frames.all fun frame => frame.bindings.all fun b => b.2.isPlain

mutual

theorem Value.plainCarries {f : Closure → Prop} : ∀ v : Value, v.isPlain = true →
    v.Carries f fun _ => True
  | .list _ items, h => by
    rw [isPlain] at h
    rw [Carries]
    exact plainCarryAll items h
  | .undefined, _ | .null, _ | .bool _, _ | .number _, _ | .text _, _ | .builtin _, _ => by
    simp only [Carries]

theorem Value.plainCarryAll {f : Closure → Prop} : ∀ vs : List Value, Value.allPlain vs = true →
    Value.CarryAll f (fun _ => True) vs
  | [], _ => by simp only [CarryAll]
  | v :: vs, h => by
    rw [allPlain, Bool.and_eq_true] at h
    rw [CarryAll]
    exact ⟨plainCarries v h.1, plainCarryAll vs h.2⟩

end

theorem Datum.plainParts {d : Datum} (plain : d.isPlain = true) :
    d.value.isPlain = true ∧ ∀ frame ∈ d.frames, ∀ b ∈ frame.bindings, b.2.isPlain = true := by
  simpa only [isPlain, Bool.and_eq_true, Array.all_eq_true_iff_forall_mem, List.all_eq_true] using plain

section Plain

variable (f : List Node → List Node)

mutual

theorem Value.plainUnchanged : ∀ v : Value, v.isPlain = true → v.mapBodies f = v
  | .list _ items, h => by
    rw [isPlain] at h
    rw [mapBodies, allPlainUnchanged items h]
  | .undefined, _ | .null, _ | .bool _, _ | .number _, _ | .text _, _ | .builtin _, _ => by
    simp only [mapBodies]

theorem Value.allPlainUnchanged : ∀ vs : List Value, Value.allPlain vs = true →
    Value.mapBodiesAll f vs = vs
  | [], _ => by rw [mapBodiesAll]
  | v :: vs, h => by
    rw [allPlain, Bool.and_eq_true] at h
    rw [mapBodiesAll, plainUnchanged v h.1, allPlainUnchanged vs h.2]

end

theorem Frame.plainUnchanged {frame : Frame} (plain : ∀ b ∈ frame.bindings, b.2.isPlain = true) :
    frame.mapBodies f = frame := by
  have same : ∀ b ∈ frame.bindings, (b.1, b.2.mapBodies f) = b := by
    intro b member
    rw [Value.plainUnchanged f b.2 (plain b member)]
  rw [mapBodies, List.map_congr_left same, List.map_id']

theorem Datum.plainUnchanged {d : Datum} (plain : d.isPlain = true) : d.mapBodies f = d := by
  obtain ⟨value, inside⟩ := plainParts plain
  have same : ∀ frame ∈ d.frames, frame.mapBodies f = frame := fun frame member =>
    Frame.plainUnchanged f (inside frame member)
  rw [mapBodies, Array.map_congr_left same, Array.map_id', Value.plainUnchanged f d.value value]

end Plain

namespace Operation

def mapPrograms (f : Node → Node) : Operation → Operation
  | bind name d => bind name d
  | load program => load (program.map f)
  | dispatch event => dispatch event
  | launch => launch
  | pressKey key => pressKey key

def bindsPlain : Operation → Bool
  | bind _ d => d.isPlain
  | load _ | dispatch _ | launch | pressKey _ => true

theorem translatedPlain (t : Translation) {op : Operation} (plain : op.bindsPlain) :
    t.operation op = op.mapPrograms t.node := by
  cases op with
  | bind name d => rw [Translation.operation, Datum.plainUnchanged _ plain, mapPrograms]
  | _ => rfl

end Operation

theorem elifIsElseIf (answers : List (Option String)) (patience : Nat) (ops : List Operation)
    (plain : ∀ op ∈ ops, op.bindsPlain) :
    Operation.observations (ops.map (Operation.mapPrograms Node.desugar))
        (Machine.start answers patience) =
      Operation.observations ops (Machine.start answers patience) := by
  have same : ops.map (Operation.mapPrograms Node.desugar) =
      ops.map Translation.desugaring.operation :=
    List.map_congr_left fun op member =>
      (Operation.translatedPlain Translation.desugaring (plain op member)).symm
  have start : Translation.desugaring.machine (Machine.start answers patience) =
      Machine.start answers patience := Machine.startMapped _ answers patience
  have follows := Translation.desugaring.observationsFollow ops (Machine.start answers patience)
  have lines : Observation.reline Translation.desugaring.line = id := funext Observation.relineId
  rw [start, lines, List.map_id] at follows
  rw [same, follows]

/- A function that picks by two conditions, the second on a line of its own, and the
same function with the second conditional nested on the line of the first. -/
def picking : List Node :=
  [.function 1 "pick" ["x"]
    [.cond 2 (.binary 2 .same (.name 2 "x") (.literal 2 (.text "a")))
      [.result 3 (.literal 3 (.text "first"))]
      [⟨.binary 4 .same (.name 4 "x") (.name 4 "other"), [.result 5 (.name 5 "missing")]⟩]
      [.result 6 (.literal 6 (.text "third"))]],
    .handler 7 "onLaunch" [.call 8 "print" [.call 8 "pick" [.name 8 "same"]]]]

def pickingNested : List Node :=
  [.function 1 "pick" ["x"]
    [.cond 2 (.binary 2 .same (.name 2 "x") (.literal 2 (.text "a")))
      [.result 3 (.literal 3 (.text "first"))]
      []
      [.cond 2 (.binary 4 .same (.name 4 "x") (.name 4 "other")) [.result 5 (.name 5 "missing")]
        [] [.result 6 (.literal 6 (.text "third"))]]],
    .handler 7 "onLaunch" [.call 8 "print" [.call 8 "pick" [.name 8 "same"]]]]

/- One list under two names. -/
def pickingBinds : List Operation :=
  [.bind "other" ⟨#[], 1, .list 1 [.text "b"]⟩, .bind "same" ⟨#[], 0, .list 1 [.text "b"]⟩]

theorem pickingObserved :
    (∀ op ∈ pickingBinds ++ [.load picking, .launch], op.bindsPlain) ∧
      Operation.observations (pickingBinds ++ [.load pickingNested, .launch]) (Machine.start [] 2) =
        Operation.observations (pickingBinds ++ [.load picking, .launch]) (Machine.start [] 2) := by
  have plain : ∀ op ∈ pickingBinds ++ [.load picking, .launch], op.bindsPlain := by
    simp [pickingBinds, Operation.bindsPlain, Datum.isPlain, Value.isPlain, Value.allPlain]
  exact ⟨plain, elifIsElseIf [] 2 _ plain⟩

end EventScript
