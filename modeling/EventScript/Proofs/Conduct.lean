import EventScript.Proofs.Regimes

/-! Every run keeps to a lawful regime. The tasks that an admitted task starts are
admitted, and if they all hold, so does the task; a task starts only lower ones. -/
namespace EventScript

open Evaluation Eval

namespace Regime

variable {R : Regime} {m n : Machine} {k : Nat} {scope : Scope}

theorem builtinEchoes (lawful : R.Lawful) {b : Builtin} (other : b ≠ .dispatch)
    (arguments : List Value) (m : Machine) : R.Echoes (b.call arguments) m := by
  cases b with
  | print | commandPrint | lang => exact blindEchoes (fun _ _ => rfl) m
  | input =>
    have asked : ∀ message, Blind (Builtin.askText message) := fun _ _ _ => rfl
    refine blindEchoes (blindBind (asked _) ?_) m
    intro answer
    cases answer with
    | none => exact blindPure _
    | some answer => exact blindPure _
  | int =>
    simp only [Builtin.call]
    split
    · exact blindEchoes (blindPure _) m
    · exact blindEchoes (blindFail _) m
  | range =>
    simp only [Builtin.call]
    split
    · exact blindEchoes (blindWithStore _) m
    · exact blindEchoes (blindFail _) m
  | register =>
    intro r alike
    exact ⟨_, lawful.registers alike _ _, rfl⟩
  | dispatch => contradiction

theorem keepsBuiltin (lawful : R.Lawful) {b : Builtin} (other : b ≠ .dispatch)
    {arguments : List Value} (given : R.GoodAll arguments)
    (kept : R.Kept m ((b.call arguments).leaves m)) : R.Keeps (b.call arguments) m R.Good :=
  ⟨builtinEchoes lawful other arguments m, kept, fun _ _ done => lawful.answered other given done⟩

theorem keepsRegister (lawful : R.Lawful) {event : String} {v : Value}
    (kept : R.Kept m { m with registry := m.registry.register event v }) :
    R.Keeps (Eval.register event v) m fun _ => True where
  echoes _ alike := ⟨_, lawful.registers alike event v, rfl⟩
  kept := kept
  good _ _ _ := trivial

section Admission

variable (lawful : R.Lawful)
include lawful

theorem admitOperand {e : Node} (extra : R.Extra ⟨k, .node .operand e scope, m⟩) (fit : R.Fit m)
    (obeys : e.obeys R.rule .operand = true) (within : R.Within scope m) :
    R.Admits ⟨k, .node .operand e scope, m⟩ :=
  ⟨extra, fit, obeys, within, lawful.operand obeys within⟩

theorem placedLater {ns : List Node} (placed : R.Placed ns scope m) (later : R.Later m n) :
    R.Placed ns scope n :=
  ⟨placed.obeys, lawful.within placed.within later, fun x member =>
    lawful.binds (placed.bound x member) later⟩

omit lawful in
theorem condPlaced {line : Nat} {position : Position} {c : Node} {b : List Node}
    {bs : List (Branch Node)} {o : List Node}
    (suits : R.Suits m (.node position (.cond line c b bs o) scope)) :
    c.obeys R.rule .operand = true ∧ R.Placed b scope m ∧ R.Suits m (.branches bs o scope) := by
  obtain ⟨obeys, within, bound⟩ := suits
  simp only [Node.obeys, Bool.and_eq_true] at obeys
  obtain ⟨⟨⟨⟨_, condition⟩, body⟩, branches⟩, otherwise⟩ := obeys
  have declared : ∀ x ∈ Node.declaredIn b ++ Node.declaredInBranches bs ++ Node.declaredIn o,
      R.Binds scope x m := by
    cases position with
    | statement => exact bound
    | operand => exact bound
  simp only [List.forall_mem_append] at declared
  exact ⟨condition, ⟨body, within, declared.1.1⟩, branches, declared.1.2, otherwise, within, declared.2⟩

omit lawful in
theorem loopPlaced {line : Nat} {position : Position} {name : String} {e : Node} {b : List Node}
    (suits : R.Suits m (.node position (.loop line name e b) scope)) :
    e.obeys R.rule .operand = true ∧ R.Placed b scope m := by
  obtain ⟨obeys, within, bound⟩ := suits
  simp only [Node.obeys, Bool.and_eq_true] at obeys
  have declared : ∀ x ∈ Node.declaredIn b, R.Binds scope x m := by
    cases position with
    | statement => exact bound
    | operand => exact bound
  exact ⟨obeys.1.2, obeys.2, within, declared⟩

/- An operand that the task has already performed. -/
theorem operandKept {s : Moment} {e : Node} {a : Flow} (admits : R.Admits s)
    (below : ∀ t, Starts s t → R.Admits t → R.Holds t)
    (start : Starts s ⟨k, .node .operand e scope, m⟩) (fit : R.Fit m)
    (obeys : e.obeys R.rule .operand = true) (within : R.Within scope m)
    (before : perform (calling k) .operand e scope m = .ok a n) :
    R.Kept m n ∧ R.GoodFlow a := by
  have admitted := admitOperand lawful (lawful.extra admits.extra start) fit obeys within
  exact keepsOk (below _ start admitted) before

theorem keepsFunctions {es ns : List Node} (admits : R.Admits ⟨k, .block (es ++ ns) scope, m⟩)
    (before : declareFunctions scope es m = .ok () n) (kept : R.Kept m n) :
    R.Keeps (declareFunctions scope ns) n fun _ => True := by
  induction ns generalizing es n with
  | nil => exact keepsPure lawful kept.fit trivial
  | cons e ns ih =>
    have next : R.Admits ⟨k, .block (es ++ [e] ++ ns) scope, m⟩ := by simpa using admits
    cases function : e.isFunction with
    | true =>
      cases e with
      | function line name parameters body =>
        have made := lawful.writes admits kept (List.forall_mem_nil _) (.opens before)
        refine keepsBind lawful (keepsChangeStore made) ?_
        intro _ o done after _
        have declared : declareFunctions scope (es ++ [.function line name parameters body]) m =
            .ok () o := by
          rw [declareFunctionsAppend, bindOk before]
          exact done
        exact ih next declared (keptTrans lawful kept after)
      | _ => contradiction
    | false =>
      have skipped : declareFunctions scope (es ++ [e]) m = .ok () n := by
        rw [declareFunctionsAppend, bindOk before, declareFunctionsSkip function]
        rfl
      rw [declareFunctionsSkip function]
      exact ih next skipped kept

theorem keepsBlockFunctions {ns : List Node} (admits : R.Admits ⟨k, .block ns scope, m⟩) :
    R.Keeps (declareFunctions scope ns) m fun _ => True := by
  have whole : R.Admits ⟨k, .block ([] ++ ns) scope, m⟩ := admits
  exact keepsFunctions lawful whole rfl (keptRefl lawful admits.fit)

section Sequences

variable {name : String} {item : Value} {items : List Value} {body : List Node} {chances : Nat}
  {l : Value} {ls : List Value}

theorem turnAdmitted {inner : Scope} (admits : R.Admits ⟨k, .turns name (item :: items) body scope, m⟩)
    (before : enterTurn scope name item m = .ok inner n) :
    R.Kept m n ∧ R.Admits ⟨k, .block body inner, n⟩ := by
  obtain ⟨items, placed⟩ := admits.suits
  have kept := lawful.writes admits (keptRefl lawful admits.fit) (List.forall_mem_nil _) .turns
  rw [leavesOk before] at kept
  obtain ⟨within, bound⟩ := lawful.turns placed.within kept before
  exact ⟨kept, lawful.extra admits.extra (.turn before), kept.fit, placed.obeys, within,
    fun x member => bound x (placed.bound x member)⟩

theorem keepsTurn (admits : R.Admits ⟨k, .turns name (item :: items) body scope, m⟩)
    (below : ∀ t, Starts ⟨k, .turns name (item :: items) body scope, m⟩ t → R.Admits t → R.Holds t) :
    R.Keeps (turn k name body scope item) m R.GoodFlow := by
  have enters : R.Keeps (enterTurn scope name item) m fun _ => True :=
    ⟨blindEchoes (blindWithStore _) m, (turnAdmitted lawful admits rfl).1, fun _ _ _ => trivial⟩
  refine keepsBind lawful enters ?_
  intro inner n before _ _
  exact below _ (.turn before) (turnAdmitted lawful admits before).2

theorem keepsNotify (admits : R.Admits ⟨k, .listeners chances (l :: ls), m⟩)
    (below : ∀ t, Starts ⟨k, .listeners chances (l :: ls), m⟩ t → R.Admits t → R.Holds t) :
    R.Keeps (notify (call k) (redispatch k chances) l) m fun _ => True := by
  have fit := admits.fit
  have first : R.Good l := admits.suits l List.mem_cons_self
  cases l with
  | builtin b =>
    by_cases dispatch : b = .dispatch
    · subst dispatch
      have start : Starts ⟨k, .listeners chances (.builtin .dispatch :: ls), m⟩ _ := .redispatched
      have admitted : R.Admits ⟨k, .dispatch chances Value.undefined.toText, m⟩ :=
        ⟨lawful.extra admits.extra start, fit, lawful.dispatches first _⟩
      refine keepsBind lawful (below _ start admitted) ?_
      intro count n before kept _
      exact keepsPure lawful kept.fit trivial
    · have kept := lawful.writes admits (keptRefl lawful fit) (List.forall_mem_nil _)
        (.notifies dispatch)
      rw [notifyBuiltin dispatch]
      refine keepsBind lawful (keepsBuiltin lawful dispatch (List.forall_mem_nil _) kept) ?_
      intro v n before kept _
      exact keepsPure lawful kept.fit trivial
  | function identity c =>
    have admitted : R.Admits ⟨k, .closure c [], m⟩ :=
      ⟨lawful.extra admits.extra .listener, fit, ⟨identity, first⟩, List.forall_mem_nil _⟩
    refine keepsBind lawful (below _ .listener admitted) ?_
    intro v n before kept _
    exact keepsPure lawful kept.fit trivial
  | _ => exact keepsFail lawful _ fit

end Sequences

theorem startsAdmitted {s t : Moment} (admits : R.Admits s)
    (below : ∀ t, Starts s t → R.Admits t → R.Holds t) (h : Starts s t) : R.Admits t := by
  have extra := lawful.extra admits.extra h
  have fit := admits.fit
  have suits := admits.suits
  cases h with
  | left =>
    obtain ⟨obeys, within, _⟩ := suits
    simp only [Node.obeys, Bool.and_eq_true] at obeys
    exact admitOperand lawful extra fit obeys.1.2 within
  | right before =>
    obtain ⟨obeys, within, _⟩ := suits
    simp only [Node.obeys, Bool.and_eq_true] at obeys
    have kept := (operandKept lawful admits below .left fit obeys.1.2 within before).1
    exact admitOperand lawful extra kept.fit obeys.2 (lawful.within within kept.later)
  | assigned | result =>
    obtain ⟨obeys, within, _⟩ := suits
    simp only [Node.obeys, Bool.and_eq_true] at obeys
    exact admitOperand lawful extra fit obeys.2 within
  | arguments found =>
    obtain ⟨obeys, within, _⟩ := suits
    simp only [Node.obeys, Bool.and_eq_true] at obeys
    exact ⟨extra, fit, obeys.2, within⟩
  | called found before =>
    obtain ⟨obeys, within, _⟩ := suits
    simp only [Node.obeys, Bool.and_eq_true] at obeys
    have target := lawful.found fit within obeys.1 rfl found
    have admitted : R.Admits _ := ⟨lawful.extra admits.extra (.arguments found), fit, obeys.2, within⟩
    obtain ⟨kept, given⟩ := keepsOk (below _ (.arguments found) admitted) before
    exact ⟨extra, kept.fit, target, given⟩
  | test =>
    obtain ⟨condition, body, _⟩ := condPlaced suits
    exact admitOperand lawful extra fit condition body.within
  | held before holds =>
    obtain ⟨condition, body, _⟩ := condPlaced suits
    have kept := (operandKept lawful admits below .test fit condition body.within before).1
    exact ⟨extra, kept.fit, placedLater lawful body kept.later⟩
  | failed before fails =>
    obtain ⟨condition, body, branches, bound, otherwise⟩ := condPlaced suits
    have kept := (operandKept lawful admits below .test fit condition body.within before).1
    exact ⟨extra, kept.fit, branches, fun x member => lawful.binds (bound x member) kept.later,
      placedLater lawful otherwise kept.later⟩
  | source =>
    obtain ⟨items, body⟩ := loopPlaced suits
    exact admitOperand lawful extra fit items body.within
  | turns before listed =>
    obtain ⟨items, body⟩ := loopPlaced suits
    obtain ⟨kept, good⟩ := operandKept lawful admits below .source fit items body.within before
    obtain ⟨_, each⟩ := keepsOk (keepsItems lawful kept.fit (operandGood lawful good)) listed
    exact ⟨extra, kept.fit, each, placedLater lawful body kept.later⟩
  | operand =>
    obtain ⟨obeys, within⟩ := suits
    simp only [Node.obeyAll, Bool.and_eq_true] at obeys
    exact admitOperand lawful extra fit obeys.1 within
  | nextOperand before =>
    obtain ⟨obeys, within⟩ := suits
    simp only [Node.obeyAll, Bool.and_eq_true] at obeys
    have kept := (operandKept lawful admits below .operand fit obeys.1 within before).1
    exact ⟨extra, kept.fit, obeys.2, lawful.within within kept.later⟩
  | statement runs =>
    obtain ⟨obeys, within, bound⟩ := suits
    simp only [Node.obeyAll, Bool.and_eq_true, Node.declaredIn, List.forall_mem_append] at obeys bound
    exact ⟨extra, fit, obeys.1, within, bound.1⟩
  | nextStatement runs before =>
    obtain ⟨obeys, within, bound⟩ := suits
    simp only [Node.obeyAll, Bool.and_eq_true, Node.declaredIn, List.forall_mem_append] at obeys bound
    have admitted : R.Admits _ :=
      ⟨lawful.extra admits.extra (.statement runs), fit, obeys.1, within, bound.1⟩
    have kept := (keepsOk (below _ (.statement runs) admitted) before).1
    exact ⟨extra, kept.fit, placedLater lawful ⟨obeys.2, within, bound.2⟩ kept.later⟩
  | declared function =>
    obtain ⟨obeys, within, bound⟩ := suits
    simp only [Node.obeyAll, Bool.and_eq_true, Node.declaredIn, List.forall_mem_append] at obeys bound
    exact ⟨extra, fit, obeys.2, within, bound.2⟩
  | block before =>
    have kept := (keepsOk (keepsBlockFunctions lawful admits) before).1
    exact ⟨extra, kept.fit, placedLater lawful suits kept.later⟩
  | branchTest =>
    obtain ⟨obeys, bound, otherwise⟩ := suits
    simp only [Node.obeyBranches, Bool.and_eq_true] at obeys
    exact admitOperand lawful extra fit obeys.1.1 otherwise.within
  | branchHeld before holds =>
    obtain ⟨obeys, bound, otherwise⟩ := suits
    simp only [Node.obeyBranches, Bool.and_eq_true, Node.declaredInBranches,
      List.forall_mem_append] at obeys bound
    have kept :=
      (operandKept lawful admits below .branchTest fit obeys.1.1 otherwise.within before).1
    exact ⟨extra, kept.fit, placedLater lawful ⟨obeys.1.2, otherwise.within, bound.1⟩ kept.later⟩
  | branchFailed before fails =>
    obtain ⟨obeys, bound, otherwise⟩ := suits
    simp only [Node.obeyBranches, Bool.and_eq_true, Node.declaredInBranches,
      List.forall_mem_append] at obeys bound
    have kept :=
      (operandKept lawful admits below .branchTest fit obeys.1.1 otherwise.within before).1
    exact ⟨extra, kept.fit, obeys.2, fun x member => lawful.binds (bound.2 x member) kept.later,
      placedLater lawful otherwise kept.later⟩
  | otherwise => exact ⟨extra, fit, suits.2.2⟩
  | turn before => exact (turnAdmitted lawful admits before).2
  | nextTurn before =>
    obtain ⟨items, placed⟩ := suits
    have kept := (keepsOk (keepsTurn lawful admits below) before).1
    exact ⟨extra, kept.fit, (List.forall_mem_cons.mp items).2, placedLater lawful placed kept.later⟩
  | body => exact ⟨extra, fit, suits⟩
  | dispatched => exact ⟨extra, fit, lawful.dispatches suits.1 _⟩
  | function => exact ⟨extra, fit, ⟨_, suits.1⟩, suits.2⟩
  | @entered k c arguments m scope n before =>
    obtain ⟨entered, placed⟩ := lawful.enters admits
    cases before
    exact ⟨extra, entered, placed⟩
  | listeners => exact ⟨extra, fit, lawful.listeners fit suits⟩
  | redispatched => exact ⟨extra, fit, lawful.dispatches (suits _ List.mem_cons_self) _⟩
  | listener => exact ⟨extra, fit, ⟨_, suits _ List.mem_cons_self⟩, List.forall_mem_nil _⟩
  | nextListener before =>
    have kept := (keepsOk (keepsNotify lawful admits below) before).1
    exact ⟨extra, kept.fit, (List.forall_mem_cons.mp suits).2⟩

section Tasks

theorem keepsNode {position : Position} {e : Node} (admits : R.Admits ⟨k, .node position e scope, m⟩)
    (below : ∀ t, Starts ⟨k, .node position e scope, m⟩ t → R.Admits t → R.Holds t) :
    R.Keeps (perform (calling k) position e scope) m R.GoodFlow := by
  have starts : ∀ {t}, Starts ⟨k, .node position e scope, m⟩ t → R.Holds t :=
    fun h => below _ h (startsAdmitted lawful admits below h)
  have fit := admits.fit
  obtain ⟨obeys, within, _⟩ := admits.suits
  cases e with
  | literal line value =>
    simp only [perform]
    exact keepsPure lawful fit (lawful.literal value)
  | name line name =>
    simp only [perform]
    refine keepsLocated (keepsBind lawful (keepsLookup lawful fit within obeys rfl) ?_) position line
    intro v n _ kept good
    exact keepsPure lawful kept.fit good
  | binary line op left right =>
    simp only [perform]
    refine keepsLocated (keepsBind lawful (starts .left) ?_) position line
    intro a n before _ _
    refine keepsBind lawful (starts (.right before)) ?_
    intro b o _ kept _
    exact keepsPure lawful kept.fit (lawful.applied op _ _)
  | assign line target value =>
    simp only [perform]
    refine keepsLocated (keepsBind lawful (starts .assigned) ?_) position line
    intro flow n before kept good
    have given : R.GoodAll [flow.operand] := List.forall_mem_singleton.mpr (operandGood lawful good)
    cases position with
    | statement =>
      have written := lawful.writes admits kept given (.declares before)
      refine keepsBind lawful (keepsChangeStore written) ?_
      intro _ o _ kept _
      exact keepsPure lawful kept.fit (operandGood lawful good)
    | operand =>
      have written := lawful.writes admits kept given (.assigns before)
      refine keepsBind lawful (keepsChangeStore written) ?_
      intro _ o _ kept _
      exact keepsPure lawful kept.fit (operandGood lawful good)
  | call line callee arguments =>
    simp only [Node.obeys, Bool.and_eq_true] at obeys
    simp only [perform]
    refine keepsLocated (keepsBind lawful (keepsLookup lawful fit within obeys.1 rfl) ?_) position line
    intro target n looked _ _
    obtain ⟨found, rfl⟩ := lookupOk looked
    refine keepsBind lawful (starts (.arguments found)) ?_
    intro values n before _ _
    refine keepsBind lawful (starts (.called found before)) ?_
    intro v n _ kept good
    exact keepsPure lawful kept.fit good
  | function line name parameters body =>
    simp only [perform]
    refine keepsAtLine (keepsBind lawful (keepsChangeStore ?_) ?_) line
    · exact lawful.writes admits (keptRefl lawful fit) (List.forall_mem_nil _) .makes
    · intro _ n _ kept _
      exact keepsPure lawful kept.fit lawful.undefined
  | cond line condition body branches otherwise =>
    simp only [perform]
    refine keepsAtLine (keepsBind lawful (starts .test) ?_) line
    intro flow n before _ _
    refine keepsIf ?_ ?_
    · intro holds
      exact starts (.held before holds)
    · intro fails
      exact starts (.failed before fails)
  | loop line name source body =>
    simp only [perform]
    refine keepsAtLine (keepsBind lawful (starts .source) ?_) line
    intro flow n before kept good
    refine keepsBind lawful (keepsItems lawful kept.fit (operandGood lawful good)) ?_
    intro items o listed _ _
    cases itemsOk listed
    exact starts (.turns before listed)
  | handler line event body =>
    simp only [perform]
    refine keepsAtLine (keepsBind lawful (keepsRegister lawful ?_) ?_) line
    · exact lawful.writes admits (keptRefl lawful fit) (List.forall_mem_nil _) .listens
    · intro _ n _ kept _
      exact keepsPure lawful kept.fit lawful.undefined
  | result line value =>
    simp only [perform]
    refine keepsAtLine (keepsBind lawful (starts .result) ?_) line
    intro flow n _ kept good
    exact keepsPure lawful kept.fit (operandGood lawful good)

theorem keepsFire {chances : Nat} {event : String}
    (admits : R.Admits ⟨k, .dispatch chances event, m⟩)
    (starts : ∀ {t}, Starts ⟨k, .dispatch chances event, m⟩ t → R.Holds t) :
    R.Keeps (fire (call k) chances event) m fun _ => True := by
  have fit := admits.fit
  have fires : R.Fires event := admits.suits
  cases chances with
  | zero =>
    refine ⟨fun r alike => ⟨r, alike, rfl⟩, keptRefl lawful fit, ?_⟩
    intro count n done
    contradiction
  | succ chances =>
    have whole : R.Keeps ((m.registry.listeners event).forM (notify (call k) (redispatch k chances)) >>=
        fun _ => pure (m.registry.listeners event).length) m fun _ => True := by
      refine keepsBind lawful (starts .listeners) ?_
      intro _ n _ kept _
      exact keepsPure lawful kept.fit trivial
    refine ⟨?_, whole.kept, fun _ _ _ => trivial⟩
    intro r alike
    obtain ⟨q, nextAlike, same⟩ := whole.echoes r alike
    refine ⟨q, nextAlike, ?_⟩
    simp only [fireOpens, lawful.heard fires alike]
    exact same

theorem keepsCall {c : Closure} {arguments : List Value}
    (admits : R.Admits ⟨k, .closure c arguments, m⟩)
    (starts : ∀ {t}, Starts ⟨k, .closure c arguments, m⟩ t → R.Holds t) :
    R.Keeps (call k c arguments) m R.Good := by
  have fit := admits.fit
  cases k with
  | zero => exact keepsFail lawful _ fit
  | succ k =>
    have ran : R.Keeps (statements (calling k) c.body (c.entry arguments m).1)
        (c.entry arguments m).2 R.GoodFlow := starts (.entered rfl)
    have returned := lawful.returns admits rfl ran.kept
    have left : (call (k + 1) c arguments).leaves m = _ := callLeaves k c arguments m
    refine ⟨?_, ?_, ?_⟩
    · intro r alike
      obtain ⟨q, nextAlike, same⟩ := ran.echoes r alike
      refine ⟨q, ?_, ?_⟩
      · rw [left]
        exact nextAlike
      · have entered : c.entry arguments { m with registry := r } =
            ((c.entry arguments m).1, { (c.entry arguments m).2 with registry := r }) := rfl
        simp only [callOpens, entered, same]
        cases statements (calling k) c.body (c.entry arguments m).1 (c.entry arguments m).2 <;> rfl
    · rw [left]
      exact returned
    · intro v n done
      rw [callOpens] at done
      cases ends : statements (calling k) c.body (c.entry arguments m).1 (c.entry arguments m).2 with
      | ok flow o =>
        rw [ends] at done
        cases done
        exact resultGood lawful (ran.good flow o ends)
      | error e o =>
        rw [ends] at done
        contradiction

theorem keepsTask {s : Moment} (admits : R.Admits s)
    (below : ∀ t, Starts s t → R.Admits t → R.Holds t) : R.Holds s := by
  have starts : ∀ {t}, Starts s t → R.Holds t :=
    fun h => below _ h (startsAdmitted lawful admits below h)
  have fit := admits.fit
  have suits := admits.suits
  obtain ⟨k, task, m⟩ := s
  cases task with
  | node position e scope => exact keepsNode lawful admits below
  | operands es scope =>
    cases es with
    | nil =>
      simp only [Holds, operands]
      exact keepsPure lawful fit (List.forall_mem_nil _)
    | cons e es =>
      simp only [Holds, operands]
      refine keepsBind lawful (starts .operand) ?_
      intro flow n before _ good
      refine keepsBind lawful (starts (.nextOperand before)) ?_
      intro values o _ kept all
      exact keepsPure lawful kept.fit (List.forall_mem_cons.mpr ⟨operandGood lawful good, all⟩)
  | statements ns scope =>
    cases ns with
    | nil =>
      simp only [Holds, statements]
      exact keepsPure lawful fit lawful.undefined
    | cons e es =>
      simp only [Holds, statements]
      refine keepsIf ?_ ?_
      · intro function
        exact starts (.declared function)
      · intro runs
        refine keepsBind lawful (starts (.statement runs)) ?_
        intro flow n before kept good
        cases flow with
        | returned v => exact keepsPure lawful kept.fit good
        | next v => exact starts (.nextStatement runs before)
  | block ns scope =>
    refine keepsBind lawful (keepsBlockFunctions lawful admits) ?_
    intro _ n before _ _
    exact starts (.block before)
  | branches bs otherwise scope =>
    cases bs with
    | nil =>
      simp only [Holds, choose]
      exact starts .otherwise
    | cons b bs =>
      simp only [Holds, choose]
      refine keepsBind lawful (starts .branchTest) ?_
      intro flow n before _ _
      refine keepsIf ?_ ?_
      · intro holds
        exact starts (.branchHeld before holds)
      · intro fails
        exact starts (.branchFailed before fails)
  | turns name items body scope =>
    cases items with
    | nil => exact keepsPure lawful fit lawful.undefined
    | cons item items =>
      refine keepsBind lawful (keepsTurn lawful admits below) ?_
      intro flow n before kept good
      cases flow with
      | returned v => exact keepsPure lawful kept.fit good
      | next v => exact starts (.nextTurn before)
  | body ns scope =>
    have held := starts .body
    exact held
  | value name callee arguments =>
    obtain ⟨good, given⟩ := suits
    cases callee with
    | builtin b =>
      by_cases dispatch : b = .dispatch
      · subst dispatch
        have fired : R.Keeps (fire (call k) m.patience (arguments.headD .undefined).toText >>=
            fun _ => pure .undefined) m R.Good := by
          refine keepsBind lawful (starts .dispatched) ?_
          intro count n _ kept _
          exact keepsPure lawful kept.fit lawful.undefined
        exact keepsAgree fired fun r => invokeDispatch _ name arguments { m with registry := r }
      · have opened : calling k name (.builtin b) arguments = b.call arguments :=
          invokeBuiltin dispatch _ name arguments
        have kept := lawful.writes admits (keptRefl lawful fit) (List.forall_mem_nil _)
          (.answers dispatch)
        simp only [Holds, opened]
        exact keepsBuiltin lawful dispatch given kept
    | function identity c =>
      have held := starts .function
      exact held
    | _ => exact keepsFail lawful _ fit
  | closure c arguments => exact keepsCall lawful admits starts
  | dispatch chances event => exact keepsFire lawful admits starts
  | listeners chances ls =>
    cases ls with
    | nil => exact keepsPure lawful fit trivial
    | cons l ls =>
      refine keepsBind lawful (keepsNotify lawful admits below) ?_
      intro _ n before _ _
      exact starts (.nextListener before)

end Tasks

theorem holds {s : Moment} (admits : R.Admits s) : R.Holds s := by
  induction s using (InvImage.wf Moment.rank Moment.lowerWellFounded).induction with
  | h s ih =>
    exact keepsTask lawful admits fun t starts admitted => ih t (Moment.startsLower starts) admitted

theorem reached {s t : Moment} (admits : R.Admits s) (path : Relation.ReflTransGen Starts s t) :
    R.Admits t := by
  induction path with
  | refl => exact admits
  | tail _ starts ih => exact startsAdmitted lawful ih (fun _ _ admitted => holds lawful admitted) starts

section Operations

variable {op : Operation} {first : Moment}

theorem dispatchKeeps {event : String} (held : R.Holds ⟨m.allowed, .dispatch m.patience event, m⟩) :
    R.Keeps (some <$> Machine.dispatch event) m fun _ => True := by
  have counted : R.Keeps (fire (call m.allowed) m.patience event >>= fun count => pure (some count)) m
      fun _ => True := by
    refine keepsBind lawful held ?_
    intro count n _ kept _
    exact keepsPure lawful kept.fit trivial
  refine keepsAgree counted ?_
  intro r
  rw [map_eq_pure_bind]
  simp only [bind, EStateM.bind, Machine.dispatchOpens]
  rfl

theorem operationKeeps (begins : op.Begins m first) (admits : R.Admits first)
    (later : R.Later m first.hoisted.machine) : R.Keeps op.run m fun _ => True := by
  have held := holds lawful admits
  cases begins with
  | @load program _ legal =>
    have hoisted : R.Kept m { m with store := hoist Machine.globals m.store program } :=
      ⟨admits.fit, later⟩
    have ran : R.Keeps (do
        Eval.changeStore (hoist Machine.globals · program)
        let _ ← statements (calling m.allowed) program Machine.globals
        pure (none : Option Nat)) m fun _ => True := by
      refine keepsBind lawful (keepsChangeStore hoisted) ?_
      intro _ n done _ _
      cases done
      refine keepsBind lawful held ?_
      intro _ n _ kept _
      exact keepsPure lawful kept.fit trivial
    exact keepsAgree ran fun r => Operation.loadRuns legal { m with registry := r }
  | dispatch | launch | pressKey => exact dispatchKeeps lawful held

end Operations

end Admission

/- A regime of machines alone: trees, values and scopes may be any. -/
def ofMachines (Fit : Machine → Prop) (Later : Machine → Machine → Prop) (Extra : Moment → Prop) :
    Regime where
  rule _ _ := true
  Fit := Fit
  Later := Later
  Good _ := True
  Within _ _ := True
  Binds _ _ _ := True
  Fires _ := True
  Extra := Extra
  Alike r q := q = r

section Machines

variable {Fit : Machine → Prop} {Later : Machine → Machine → Prop} {Extra : Moment → Prop}

theorem placedMachines (ns : List Node) (scope : Scope) (m : Machine) :
    (ofMachines Fit Later Extra).Placed ns scope m :=
  ⟨Node.obeyEveryAll (fun _ _ => rfl) ns _, trivial, fun _ _ => trivial⟩

theorem suitsMachines (s : Moment) :
    (ofMachines Fit Later Extra).Suits s.hoisted.machine s.hoisted.task := by
  obtain ⟨k, task, m⟩ := s
  cases task with
  | node position e scope =>
    exact ⟨Node.obeysEvery (fun _ _ => rfl) e position, trivial, fun _ _ => trivial⟩
  | operands es scope => exact ⟨Node.obeyEveryAll (fun _ _ => rfl) es _, trivial⟩
  | statements ns scope | block ns scope | body ns scope => exact placedMachines ns scope _
  | branches bs otherwise scope =>
    exact ⟨Node.obeyEveryBranches (fun _ _ => rfl) bs, fun _ _ => trivial, placedMachines _ _ _⟩
  | turns name items body scope => exact ⟨fun _ _ => trivial, placedMachines _ _ _⟩
  | value name callee arguments => exact ⟨trivial, fun _ _ => trivial⟩
  | closure c arguments => exact ⟨⟨0, trivial⟩, fun _ _ => trivial⟩
  | dispatch chances event => exact trivial
  | listeners chances ls => exact fun _ _ => trivial

theorem admitsMachines {s : Moment} (extra : Extra s) (fit : Fit s.hoisted.machine) :
    (ofMachines Fit Later Extra).Admits s := ⟨extra, fit, suitsMachines s⟩

theorem lawfulMachines (refl : ∀ {m}, Later m m)
    (trans : ∀ {l m n}, Later l m → Later m n → Later l n)
    (extra : ∀ {s t}, Extra s → Starts s t → Extra t)
    (writes : ∀ {s a given b}, Extra s → Fit a → Writes s a given b → Fit b ∧ Later a b)
    (enters : ∀ {k c arguments m}, Extra ⟨k + 1, .closure c arguments, m⟩ → Fit m →
      Fit (c.entry arguments m).2)
    (returns : ∀ {k c arguments m n}, Extra ⟨k + 1, .closure c arguments, m⟩ →
      n = (statements (calling k) c.body (c.entry arguments m).1).leaves (c.entry arguments m).2 →
        Fit n → Later (c.entry arguments m).2 n →
          Fit { n with depth := n.depth - 1 } ∧ Later m { n with depth := n.depth - 1 }) :
    (ofMachines Fit Later Extra).Lawful where
  refl := refl
  trans := trans
  within _ _ := trivial
  binds _ _ := trivial
  extra := extra
  operand _ _ _ _ := trivial
  literal _ := trivial
  applied _ _ _ := trivial
  undefined := trivial
  text _ := trivial
  items _ _ _ := trivial
  body _ := Node.obeyEveryAll (fun _ _ => rfl) _ _
  dispatches _ _ := trivial
  found _ _ _ _ _ := trivial
  listeners _ _ _ _ := trivial
  answered _ _ _ := trivial
  writes admits kept _ written := by
    obtain ⟨fit, later⟩ := writes admits.extra kept.fit written
    exact ⟨fit, later⟩
  turns _ _ _ := ⟨trivial, fun _ _ => trivial⟩
  enters admits := ⟨enters admits.extra admits.fit, placedMachines _ _ _⟩
  returns admits left kept := by
    obtain ⟨fit, later⟩ := returns admits.extra left kept.fit kept.later
    exact ⟨fit, later⟩
  heard _ alike := by rw [alike]
  registers alike _ _ := by rw [alike]; rfl

end Machines

end Regime

end EventScript
