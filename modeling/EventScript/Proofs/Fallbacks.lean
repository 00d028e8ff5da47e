import EventScript.Emit
import EventScript.Proofs.Parts
import EventScript.Proofs.Upkeep

/-! What is written and done for a statement where a value is used, left open. The own
ways of the emitter and of evaluation are one choice. On trees that keep statements
out of such places every choice gives the same text and the same runs. -/
namespace EventScript

/- The second one is for a statement where a value is used. -/
def inPlace {α : Type} (position : Position) (alone instead : α) : α :=
  match position with
  | .statement => alone
  | .operand => instead

namespace Emit

variable (fallback : Node → List Char) (indent : Nat)

mutual

def nodeOr (position : Position) : Node → List Char
  | n@(.literal ..) | n@(.name ..) => node indent position n
  | .binary _ op l r =>
    let left := grouped (l.isComparison && !op.isComparison) (nodeOr .operand l)
    let right := grouped r.isComparison (nodeOr .operand r)
    ended position (grouped (!op.isComparison) (left ++ operator op ++ right))
  | .assign _ target value =>
    let text := target.toList ++ spelled " = " ++ nodeOr .operand value
    match position with
    | .statement => spelled "var " ++ text ++ [';']
    | .operand => grouped true text
  | .call _ callee arguments =>
    ended position (callee.toList ++ grouped true (separated (operandsOr arguments)))
  | n@(.function _ name parameters body) =>
    inPlace position (spelled "function " ++ name.toList ++
      grouped true (separated (parameters.map String.toList)) ++ [' '] ++ braced (blockOr body))
      (fallback n)
  | n@(.cond _ condition body branches otherwise) =>
    inPlace position (spelled "if (" ++ nodeOr .operand condition ++ spelled ") " ++
      braced (blockOr body) ++ armsOr branches ++
      (if otherwise.isEmpty then [] else spelled " else " ++ braced (blockOr otherwise)))
      (fallback n)
  | n@(.loop _ name items body) =>
    inPlace position (spelled "for (let " ++ name.toList ++ spelled " of " ++ nodeOr .operand items ++
      spelled ") " ++ braced (blockOr body)) (fallback n)
  | n@(.handler _ event body) =>
    inPlace position (spelled "__register__(" ++ quoteChars event.toList ++ spelled ", function() " ++
      braced (blockOr body) ++ spelled ");") (fallback n)
  | n@(.result _ value) =>
    inPlace position (spelled "return " ++ nodeOr .operand value ++ [';']) (fallback n)

def operandsOr : List Node → List (List Char)
  | [] => []
  | n :: ns => nodeOr .operand n :: operandsOr ns

def blockOr : List Node → List Char
  | [] => []
  | n :: ns => indented indent (nodeOr .statement n) ++ blockOr ns

def armsOr : List (Branch Node) → List Char
  | [] => []
  | ⟨condition, body⟩ :: rest =>
    spelled " else if (" ++ nodeOr .operand condition ++ spelled ") " ++ braced (blockOr body) ++
      armsOr rest

end

def programOr (options : EmitOptions) (program : List Node) : String :=
  (if options.preamble then Preamble.text else "") ++
    String.ofList (program.flatMap fun n => nodeOr fallback options.indent .statement n ++ ['\n'])

variable {fallback indent} {rule : Position → Node → Bool}

/- Where the rule lets a statement stand for a value, the fallback writes what is written. -/
def StandIn (rule : Position → Node → Bool) (fallback : Node → List Char) (indent : Nat) : Prop :=
  ∀ n, rule .operand n = true → n.isExpression = true ∨ fallback n = node indent .operand n

theorem standsIn (stand : StandIn rule fallback indent) {n : Node} {text : List Char}
    {position : Position} (h : rule position n = true) (other : n.isExpression = false)
    (alone : text = node indent position n) :
    inPlace position text (fallback n) = node indent position n := by
  cases position with
  | statement => exact alone
  | operand => exact (stand n h).resolve_left (by simp [other])

mutual

theorem nodeOrSame (stand : StandIn rule fallback indent) (position : Position) : ∀ n : Node,
    n.obeys rule position = true → nodeOr fallback indent position n = node indent position n
  | .literal .., _ | .name .., _ => by rw [nodeOr]
  | .binary _ op l r, h => by
    simp only [Node.obeys, Bool.and_eq_true] at h
    simp only [nodeOr, node, nodeOrSame stand .operand l h.1.2, nodeOrSame stand .operand r h.2]
  | .assign _ _ value, h => by
    simp only [Node.obeys, Bool.and_eq_true] at h
    cases position <;> simp only [nodeOr, node, nodeOrSame stand .operand value h.2]
  | .call _ _ arguments, h => by
    simp only [Node.obeys, Bool.and_eq_true] at h
    simp only [nodeOr, node, operandsOrSame stand arguments h.2]
  | .function _ _ _ body, h => by
    simp only [Node.obeys, Bool.and_eq_true] at h
    rw [nodeOr]
    exact standsIn stand h.1 rfl (by simp only [node, blockOrSame stand body h.2])
  | .cond _ condition body branches otherwise, h => by
    simp only [Node.obeys, Bool.and_eq_true] at h
    rw [nodeOr]
    refine standsIn stand h.1.1.1.1 rfl ?_
    simp only [node, nodeOrSame stand .operand condition h.1.1.1.2, blockOrSame stand body h.1.1.2,
      armsOrSame stand branches h.1.2, blockOrSame stand otherwise h.2]
  | .loop _ _ items body, h => by
    simp only [Node.obeys, Bool.and_eq_true] at h
    rw [nodeOr]
    refine standsIn stand h.1.1 rfl ?_
    simp only [node, nodeOrSame stand .operand items h.1.2, blockOrSame stand body h.2]
  | .handler _ _ body, h => by
    simp only [Node.obeys, Bool.and_eq_true] at h
    rw [nodeOr]
    exact standsIn stand h.1 rfl (by simp only [node, blockOrSame stand body h.2])
  | .result _ value, h => by
    simp only [Node.obeys, Bool.and_eq_true] at h
    rw [nodeOr]
    exact standsIn stand h.1 rfl (by simp only [node, nodeOrSame stand .operand value h.2])

theorem operandsOrSame (stand : StandIn rule fallback indent) : ∀ ns : List Node,
    Node.obeyAll rule .operand ns = true → operandsOr fallback indent ns = operands indent ns
  | [], _ => by rw [operandsOr, operands]
  | n :: ns, h => by
    simp only [Node.obeyAll, Bool.and_eq_true] at h
    rw [operandsOr, operands, nodeOrSame stand .operand n h.1, operandsOrSame stand ns h.2]

theorem blockOrSame (stand : StandIn rule fallback indent) : ∀ ns : List Node,
    Node.obeyAll rule .statement ns = true → blockOr fallback indent ns = block indent ns
  | [], _ => by rw [blockOr, block]
  | n :: ns, h => by
    simp only [Node.obeyAll, Bool.and_eq_true] at h
    rw [blockOr, block, nodeOrSame stand .statement n h.1, blockOrSame stand ns h.2]

theorem armsOrSame (stand : StandIn rule fallback indent) : ∀ bs : List (Branch Node),
    Node.obeyBranches rule bs = true → armsOr fallback indent bs = arms indent bs
  | [], _ => by rw [armsOr, arms]
  | ⟨condition, body⟩ :: bs, h => by
    simp only [Node.obeyBranches, Bool.and_eq_true] at h
    rw [armsOr, arms, nodeOrSame stand .operand condition h.1.1, blockOrSame stand body h.1.2,
      armsOrSame stand bs h.2]

end

theorem programOrSame {options : EmitOptions} (stand : StandIn rule fallback options.indent)
    {p : List Node} (h : Node.obeyAll rule .statement p = true) :
    programOr fallback options p = program options p := by
  have each : ∀ n ∈ p, nodeOr fallback options.indent .statement n ++ ['\n'] =
      node options.indent .statement n ++ ['\n'] := by
    intro n member
    rw [nodeOrSame stand .statement n (Node.obeyAllIff.mp h n member)]
  rw [programOr, program, declarations, List.flatMap_def, List.flatMap_def,
    List.map_congr_left each]

/- The emitter writes a statement there as it is. -/
theorem ownStandIn (rule : Position → Node → Bool) (indent : Nat) :
    StandIn rule (node indent .statement) indent := by
  intro n _
  cases n with
  | literal | name | binary | assign | call => exact .inl rfl
  | function | cond | loop | handler | result => exact .inr (by simp only [node])

theorem programOwn (options : EmitOptions) (p : List Node) :
    programOr (node options.indent .statement) options p = program options p :=
  programOrSame (ownStandIn (fun _ _ => true) _) (Node.obeyEveryAll (fun _ _ => rfl) p .statement)

end Emit

open Evaluation Store

namespace Evaluation

abbrev Fallback := Invoke → Node → Scope → Eval Flow

section Definitions

variable (fallback : Fallback) (invoke : Invoke)

mutual

def performOr (position : Position) : Node → Scope → Eval Flow
  | n@(.literal ..), scope | n@(.name ..), scope => perform invoke position n scope
  | .binary line op left right, scope => located position line do
    let a ← performOr .operand left scope
    let b ← performOr .operand right scope
    pure (.next (op.apply a.operand b.operand))
  | .assign line target value, scope => located position line do
    let flow ← performOr .operand value scope
    match position with
    | .statement => Eval.changeStore (·.declare scope target flow.operand)
    | .operand => Eval.changeStore (·.assign scope target flow.operand)
    pure (.next flow.operand)
  | .call line callee arguments, scope => located position line do
    let target ← Eval.lookup scope callee
    let values ← operandsOr arguments scope
    let value ← invoke callee target values
    pure (.next value)
  | n@(.function ..), scope | n@(.handler ..), scope =>
    inPlace position (perform invoke position n scope) (fallback invoke n scope)
  | n@(.cond line condition body branches otherwise), scope =>
    inPlace position (Eval.atLine line do
      let test ← performOr .operand condition scope
      if test.operand.isTruthy then do
        declareFunctions scope body
        statementsOr body scope
      else
        chooseOr branches scope do
          declareFunctions scope otherwise
          statementsOr otherwise scope) (fallback invoke n scope)
  | n@(.loop line name source body), scope =>
    inPlace position (Eval.atLine line do
      let flow ← performOr .operand source scope
      let items ← itemsOf flow.operand
      forItems (fun item => do
        let turn ← enterTurn scope name item
        declareFunctions turn body
        statementsOr body turn) items) (fallback invoke n scope)
  | n@(.result line value), scope =>
    inPlace position (Eval.atLine line do
      let flow ← performOr .operand value scope
      pure (.returned flow.operand)) (fallback invoke n scope)

def operandsOr : List Node → Scope → Eval (List Value)
  | [], _ => pure []
  | n :: ns, scope => do
    let flow ← performOr .operand n scope
    let values ← operandsOr ns scope
    pure (flow.operand :: values)

def statementsOr : List Node → Scope → Eval Flow
  | [], _ => pure (.next .undefined)
  | n :: ns, scope =>
    if n.isFunction then statementsOr ns scope
    else do
      match ← performOr .statement n scope with
      | .returned value => pure (.returned value)
      | .next _ => statementsOr ns scope

def chooseOr : List (Branch Node) → Scope → Eval Flow → Eval Flow
  | [], _, otherwise => otherwise
  | ⟨condition, body⟩ :: rest, scope, otherwise => do
    let test ← performOr .operand condition scope
    if test.operand.isTruthy then do
      declareFunctions scope body
      statementsOr body scope
    else chooseOr rest scope otherwise

end

def runBodyOr (body : List Node) (scope : Scope) : Eval Flow := do
  Eval.changeStore (hoist scope · body)
  statementsOr fallback invoke body scope

def callOr : (allowed : Nat) → Closure → List Value → Eval Value
  | 0, _, _ => .fail .callLimit
  | allowed + 1, closure, arguments => do
    let scope ← enterCall closure arguments
    let flow ← Eval.deeper
      (runBodyOr fallback (Evaluation.invoke (callOr allowed)) closure.body scope)
    pure flow.result

end Definitions

end Evaluation

def Machine.loadOr (fallback : Fallback) (program : List Node) : Eval Unit := do
  match Node.strayIn program with
  | some line => .fail (EvalError.illegalReturn.atLine line)
  | none =>
    let allowed := (← get).allowed
    let _ ← runBodyOr fallback (invoke (callOr fallback allowed)) program globals

def Machine.dispatchOr (fallback : Fallback) (event : String) : Eval Nat := do
  let m ← get
  fire (callOr fallback m.allowed) m.patience event

def Operation.runOr (fallback : Fallback) : Operation → Eval (Option Nat)
  | op@(bind ..) => op.run
  | load program => do
    Machine.loadOr fallback program
    pure none
  | dispatch event => some <$> Machine.dispatchOr fallback event
  | launch => some <$> Machine.dispatchOr fallback launchEvent
  | pressKey key => some <$> Machine.dispatchOr fallback (keyEvent key)

namespace Evaluation

variable {rule : Position → Node → Bool} {fallback : Fallback} {α β : Type} {m : Machine}

section Computations

variable {x y : Eval α}

theorem sameBind {f g : α → Eval β} (first : x m = y m)
    (next : ∀ a n, y m = .ok a n → f a n = g a n) : (x >>= f) m = (y >>= g) m := by
  simp only [bind, EStateM.bind, first]
  cases done : y m with
  | error e n => rfl
  | ok a n => exact next a n done

theorem sameThen (h : x m = y m) (f : α → Eval β) : (x >>= f) m = (y >>= f) m :=
  sameBind h fun _ _ _ => rfl

theorem sameAtLine (h : x m = y m) (line : Nat) : Eval.atLine line x m = Eval.atLine line y m := by
  simp only [Eval.atLine, h]

theorem sameLocated (h : x m = y m) (position : Position) (line : Nat) :
    located position line x m = located position line y m := by
  cases position with
  | statement => exact sameAtLine h line
  | operand => exact h

theorem sameDeeper (h : x { m with depth := m.depth + 1 } = y { m with depth := m.depth + 1 }) :
    Eval.deeper x m = Eval.deeper y m := by
  simp only [Eval.deeper, h]

theorem sameIf {b : Bool} {x' y' : Eval α} (yes : b = true → x m = y m)
    (no : b = false → x' m = y' m) : (if b then x else x') m = (if b then y else y') m := by
  cases b with
  | true => exact yes rfl
  | false => exact no rfl

end Computations

abbrev callingOr (fallback : Fallback) (allowed : Nat) : Invoke := invoke (callOr fallback allowed)

def blockOr (fallback : Fallback) (allowed : Nat) (ns : List Node) (scope : Scope) : Eval Flow := do
  declareFunctions scope ns
  statementsOr fallback (callingOr fallback allowed) ns scope

def turnOr (fallback : Fallback) (allowed : Nat) (name : String) (body : List Node) (scope : Scope)
    (item : Value) : Eval Flow := do
  let inner ← enterTurn scope name item
  blockOr fallback allowed body inner

/- Two ways to call a value that agree wherever everything obeys the rule. -/
def Agree (rule : Position → Node → Bool) (i j : Invoke) : Prop :=
  ∀ name callee arguments m, m.Fit rule 0 → callee.obeys rule = true →
    (∀ a ∈ arguments, a.obeys rule = true) → i name callee arguments m = j name callee arguments m

def StandIn (rule : Position → Node → Bool) (fallback : Fallback) : Prop :=
  ∀ n, rule .operand n = true → n.isExpression = true ∨
    ∀ i j scope m, Agree rule i j → m.Fit rule 0 →
      fallback i n scope m = perform j .operand n scope m

end Evaluation

/- The task comes to the same with the fallback. -/
def Moment.Same (fallback : Fallback) : Moment → Prop
  | ⟨k, .node position e scope, m⟩ =>
    performOr fallback (callingOr fallback k) position e scope m = perform (calling k) position e scope m
  | ⟨k, .operands es scope, m⟩ =>
    operandsOr fallback (callingOr fallback k) es scope m = operands (calling k) es scope m
  | ⟨k, .statements ns scope, m⟩ =>
    statementsOr fallback (callingOr fallback k) ns scope m = statements (calling k) ns scope m
  | ⟨k, .block ns scope, m⟩ => blockOr fallback k ns scope m = block k ns scope m
  | ⟨k, .branches bs otherwise scope, m⟩ =>
    chooseOr fallback (callingOr fallback k) bs scope (blockOr fallback k otherwise scope) m =
      choose (calling k) bs scope (block k otherwise scope) m
  | ⟨k, .turns name items body scope, m⟩ =>
    forItems (turnOr fallback k name body scope) items m = forItems (turn k name body scope) items m
  | ⟨k, .body ns scope, m⟩ =>
    runBodyOr fallback (callingOr fallback k) ns scope m = runBody (calling k) ns scope m
  | ⟨k, .value name callee arguments, m⟩ =>
    callingOr fallback k name callee arguments m = calling k name callee arguments m
  | ⟨k, .closure c arguments, m⟩ => callOr fallback k c arguments m = call k c arguments m
  | ⟨k, .dispatch chances event, m⟩ =>
    fire (callOr fallback k) chances event m = fire (call k) chances event m
  | ⟨k, .listeners chances ls, m⟩ =>
    ls.forM (notify (callOr fallback k) (fire (callOr fallback k) chances Value.undefined.toText)) m =
      ls.forM (notify (call k) (redispatch k chances)) m

namespace Evaluation

variable {rule : Position → Node → Bool} {fallback : Fallback} {k : Nat} {m : Machine}

theorem standsIn (stand : StandIn rule fallback) (agree : Agree rule (callingOr fallback k) (calling k))
    {n : Node} {scope : Scope} {x : Eval Flow} {position : Position} (fit : m.Fit rule 0)
    (h : rule position n = true) (other : n.isExpression = false)
    (alone : x m = perform (calling k) position n scope m) :
    inPlace position x (fallback (callingOr fallback k) n scope) m =
      perform (calling k) position n scope m := by
  cases position with
  | statement => exact alone
  | operand => exact (stand n h).resolve_left (by simp [other]) _ _ scope m agree fit

theorem nodeSame (stand : StandIn rule fallback) (agree : Agree rule (callingOr fallback k) (calling k))
    {position : Position} {e : Node} {scope : Scope}
    (admits : (Regime.upkeep rule 0).Admits ⟨k, .node position e scope, m⟩)
    (starts : ∀ {t}, Starts ⟨k, .node position e scope, m⟩ t → t.Same fallback) :
    performOr fallback (callingOr fallback k) position e scope m =
      perform (calling k) position e scope m := by
  have fit : m.Fit rule 0 := admits.fit
  have here : rule position e = true := Node.obeysHere admits.suits.1
  cases e with
  | literal | name => simp only [performOr, perform]
  | binary line op left right =>
    rw [performOr, perform]
    refine sameLocated (sameBind (starts .left) ?_) position line
    intro a n before
    exact sameThen (starts (.right before)) _
  | assign line target value =>
    rw [performOr, perform]
    exact sameLocated (sameThen (starts .assigned) _) position line
  | call line callee arguments =>
    rw [performOr, perform]
    refine sameLocated (sameBind rfl ?_) position line
    intro target n looked
    obtain ⟨found, rfl⟩ := Eval.lookupOk looked
    refine sameBind (starts (.arguments found)) ?_
    intro values n before
    exact sameThen (starts (.called found before)) _
  | function | handler =>
    rw [performOr]
    exact standsIn stand agree fit here rfl (by simp only [perform])
  | cond line condition body branches otherwise =>
    rw [performOr]
    refine standsIn stand agree fit here rfl ?_
    rw [perform]
    refine sameAtLine (sameBind (starts .test) ?_) line
    intro flow n before
    refine sameIf ?_ ?_
    · intro holds
      exact starts (.held before holds)
    · intro fails
      exact starts (.failed before fails)
  | loop line name source body =>
    rw [performOr]
    refine standsIn stand agree fit here rfl ?_
    rw [perform]
    refine sameAtLine (sameBind (starts .source) ?_) line
    intro flow n before
    refine sameBind rfl ?_
    intro items o listed
    cases itemsOk listed
    exact starts (.turns before listed)
  | result line value =>
    rw [performOr]
    refine standsIn stand agree fit here rfl ?_
    rw [perform]
    exact sameAtLine (sameThen (starts .result) _) line

theorem notifySame {chances : Nat} {l : Value} {ls : List Value}
    (starts : ∀ {t}, Starts ⟨k, .listeners chances (l :: ls), m⟩ t → t.Same fallback) :
    notify (callOr fallback k) (fire (callOr fallback k) chances Value.undefined.toText) l m =
      notify (call k) (redispatch k chances) l m := by
  cases l with
  | builtin b =>
    by_cases dispatch : b = .dispatch
    · subst dispatch
      exact sameThen (starts .redispatched) _
    · rw [notifyBuiltin dispatch, notifyBuiltin dispatch]
  | function identity c => exact sameThen (starts .listener) _
  | _ => simp only [notify]

theorem taskSame {s : Moment} (stand : StandIn rule fallback)
    (admits : (Regime.upkeep rule 0).Admits s)
    (below : ∀ t, Moment.Lower t.rank s.rank → (Regime.upkeep rule 0).Admits t → t.Same fallback) :
    s.Same fallback := by
  have lawful : (Regime.upkeep rule 0).Lawful := Regime.upkeepLawful shelteredAny
  have starts : ∀ {t}, Starts s t → t.Same fallback := fun h =>
    below _ (Moment.startsLower h)
      (Regime.startsAdmitted lawful admits (fun _ _ admitted => Regime.holds lawful admitted) h)
  obtain ⟨k, task, m⟩ := s
  cases task with
  | node position e scope =>
    refine nodeSame stand ?_ admits starts
    intro name callee arguments n fit callable given
    have lower : Moment.Lower (Moment.rank ⟨k, .value name callee arguments, n⟩)
        (Moment.rank ⟨k, .node position e scope, m⟩) := .right _ (.left _ _ (Nat.lt_succ_self 2))
    exact below _ lower ⟨trivial, fit, callable, given⟩
  | operands es scope =>
    cases es with
    | nil => simp only [Moment.Same, operandsOr, operands]
    | cons e es =>
      simp only [Moment.Same, operandsOr, operands]
      refine sameBind (starts .operand) ?_
      intro flow n before
      exact sameThen (starts (.nextOperand before)) _
  | statements ns scope =>
    cases ns with
    | nil => simp only [Moment.Same, statementsOr, statements]
    | cons e es =>
      simp only [Moment.Same, statementsOr, statements]
      refine sameIf ?_ ?_
      · intro function
        exact starts (.declared function)
      · intro runs
        refine sameBind (starts (.statement runs)) ?_
        intro flow n before
        cases flow with
        | returned v => rfl
        | next v => exact starts (.nextStatement runs before)
  | block ns scope => exact sameBind rfl fun _ n before => starts (.block before)
  | branches bs otherwise scope =>
    cases bs with
    | nil =>
      simp only [Moment.Same, chooseOr, choose]
      exact starts .otherwise
    | cons b bs =>
      simp only [Moment.Same, chooseOr, choose]
      refine sameBind (starts .branchTest) ?_
      intro flow n before
      refine sameIf ?_ ?_
      · intro holds
        exact starts (.branchHeld before holds)
      · intro fails
        exact starts (.branchFailed before fails)
  | turns name items body scope =>
    cases items with
    | nil => simp only [Moment.Same, forItems]
    | cons item items =>
      refine sameBind (sameBind rfl fun inner n before => starts (.turn before)) ?_
      intro flow n before
      cases flow with
      | returned v => rfl
      | next v => exact starts (.nextTurn before)
  | body ns scope =>
    have held := starts .body
    exact held
  | value name callee arguments =>
    cases callee with
    | builtin b =>
      by_cases dispatch : b = .dispatch
      · subst dispatch
        simp only [Moment.Same, invokeDispatch]
        exact sameThen (starts .dispatched) _
      · simp only [Moment.Same, invokeBuiltin dispatch]
    | function identity c =>
      have held := starts .function
      exact held
    | _ => simp only [Moment.Same, invoke]
  | closure c arguments =>
    cases k with
    | zero => simp only [Moment.Same, callOr, call]
    | succ k =>
      refine sameBind rfl ?_
      intro scope n before
      exact sameThen (sameDeeper (starts (.entered before))) _
  | dispatch chances event =>
    cases chances with
    | zero => simp only [Moment.Same, fire]
    | succ chances =>
      simp only [Moment.Same, fireOpens]
      exact sameThen (starts .listeners) _
  | listeners chances ls =>
    cases ls with
    | nil => simp only [Moment.Same, List.forM_eq_forM, List.forM_nil]
    | cons l ls => exact sameBind (notifySame starts) fun _ n before => starts (.nextListener before)

theorem momentSame {s : Moment} (stand : StandIn rule fallback)
    (admits : (Regime.upkeep rule 0).Admits s) : s.Same fallback := by
  induction s using (InvImage.wf Moment.rank Moment.lowerWellFounded).induction with
  | h s ih => exact taskSame stand admits ih

end Evaluation

theorem Operation.runOrSame {rule : Position → Node → Bool} {fallback : Fallback} {op : Operation}
    {m : Machine} (stand : StandIn rule fallback) (h : op.obeys rule = true) (obeys : m.Obeys rule) :
    op.runOr fallback m = op.run m := by
  have dispatches : ∀ event,
      (some <$> Machine.dispatchOr fallback event) m = (some <$> Machine.dispatch event) m := by
    intro event
    have fired : Machine.dispatchOr fallback event m = Machine.dispatch event m :=
      momentSame (s := ⟨m.allowed, .dispatch m.patience event, m⟩) stand ⟨trivial, fitAny obeys, trivial⟩
    simp only [Functor.map, EStateM.map, fired]
  cases op with
  | bind name datum => rfl
  | load program =>
    have loaded : Machine.loadOr fallback program m = Machine.load program m := by
      unfold Machine.loadOr Machine.load
      cases legal : Node.strayIn program with
      | some line => rfl
      | none =>
        have ran : Moment.Same fallback ⟨m.allowed, .body program Machine.globals, m⟩ :=
          momentSame stand (Operation.beginsUpkeep h obeys (.load legal)).1
        exact sameThen ran _
    exact sameThen loaded _
  | dispatch event => exact dispatches event
  | launch => exact dispatches launchEvent
  | pressKey key => exact dispatches (keyEvent key)

namespace Evaluation

/- Evaluation does a statement there as it is. -/
def asStatement : Fallback := fun invoke n scope => perform invoke .statement n scope

mutual

theorem valueObeysEvery : ∀ v : Value, v.obeys (fun _ _ => true) = true
  | .undefined | .null | .bool _ | .number _ | .text _ | .builtin _ => by simp only [Value.obeys]
  | .function _ closure => by simp only [Value.obeys, Node.obeyEveryAll fun _ _ => rfl]
  | .list _ items => by simp only [Value.obeys, valuesObeyEvery items]

theorem valuesObeyEvery : ∀ vs : List Value, Value.obeyAll (fun _ _ => true) vs = true
  | [] => by rw [Value.obeyAll]
  | v :: vs => by simp only [Value.obeyAll, valueObeysEvery v, valuesObeyEvery vs, Bool.and_self]

end

theorem machineObeysEvery (m : Machine) : m.Obeys fun _ _ => true :=
  ⟨fun _ _ _ b _ => valueObeysEvery b.2, fun _ _ l _ => valueObeysEvery l, valueObeysEvery _⟩

theorem ownStandIn : StandIn (fun _ _ => true) asStatement := by
  intro n _
  have same : ∀ {i j}, Agree (fun _ _ => true) i j → i = j := by
    intro i j agree
    funext name callee arguments m
    exact agree name callee arguments m (fitAny (machineObeysEvery m)) (valueObeysEvery callee)
      fun a _ => valueObeysEvery a
  cases n with
  | literal | name | binary | assign | call => exact .inl rfl
  | function | cond | loop | handler | result =>
    refine .inr ?_
    intro i j scope m agree _
    rw [asStatement, same agree]
    simp only [perform]

end Evaluation

theorem Operation.runOwn (op : Operation) (m : Machine) : op.runOr asStatement m = op.run m := by
  have obeys := machineObeysEvery m
  cases op with
  | bind name datum => rfl
  | load program =>
    exact runOrSame ownStandIn (Node.obeyEveryAll (fun _ _ => rfl) program .statement) obeys
  | dispatch | launch | pressKey => exact runOrSame ownStandIn rfl obeys

end EventScript
