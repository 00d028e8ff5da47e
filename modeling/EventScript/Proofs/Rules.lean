import EventScript.Proofs.Contents
import EventScript.Proofs.Running

/-! Rules that every node of a program keeps at its place. Evaluation makes bodies
only out of bodies, so a machine whose function bodies all obey a rule goes on
obeying it; and it changes no frame below a bound that its scope does not reach. -/
namespace EventScript

namespace Node

mutual

def obeys (rule : Position → Node → Bool) (position : Position) : Node → Bool
  | n@(literal ..) => rule position n
  | n@(name ..) => rule position n
  | n@(binary _ _ a b) => rule position n && obeys rule .operand a && obeys rule .operand b
  | n@(assign _ _ v) => rule position n && obeys rule .operand v
  | n@(call _ _ vs) => rule position n && obeyAll rule .operand vs
  | n@(function _ _ _ body) => rule position n && obeyAll rule .statement body
  | n@(cond _ c body branches otherwise) =>
    rule position n && obeys rule .operand c && obeyAll rule .statement body &&
      obeyBranches rule branches && obeyAll rule .statement otherwise
  | n@(loop _ _ items body) => rule position n && obeys rule .operand items && obeyAll rule .statement body
  | n@(handler _ _ body) => rule position n && obeyAll rule .statement body
  | n@(result _ v) => rule position n && obeys rule .operand v

def obeyAll (rule : Position → Node → Bool) (position : Position) : List Node → Bool
  | [] => true
  | n :: ns => obeys rule position n && obeyAll rule position ns

def obeyBranches (rule : Position → Node → Bool) : List (Branch Node) → Bool
  | [] => true
  | ⟨condition, body⟩ :: rest =>
    obeys rule .operand condition && obeyAll rule .statement body && obeyBranches rule rest

end

theorem obeyAllIff {rule : Position → Node → Bool} {position : Position} {ns : List Node} :
    obeyAll rule position ns = true ↔ ∀ n ∈ ns, n.obeys rule position = true := by
  induction ns with
  | nil => simp [obeyAll]
  | cons n ns ih => simp [obeyAll, ih]

mutual

theorem obeysEvery {rule : Position → Node → Bool} (every : ∀ position n, rule position n = true) :
    ∀ (n : Node) (position : Position), n.obeys rule position = true
  | literal .., _ | name .., _ => every _ _
  | binary _ _ a b, position => by
    simp only [obeys, every, obeysEvery every a, obeysEvery every b, Bool.and_self]
  | assign _ _ v, position | result _ v, position => by
    simp only [obeys, every, obeysEvery every v, Bool.and_self]
  | call _ _ ns, position | function _ _ _ ns, position | handler _ _ ns, position => by
    simp only [obeys, every, obeyEveryAll every ns, Bool.and_self]
  | loop _ _ v ns, position => by
    simp only [obeys, every, obeysEvery every v, obeyEveryAll every ns, Bool.and_self]
  | cond _ c ns bs ms, position => by
    simp only [obeys, every, obeysEvery every c, obeyEveryAll every ns, obeyEveryBranches every bs,
      obeyEveryAll every ms, Bool.and_self]

theorem obeyEveryAll {rule : Position → Node → Bool} (every : ∀ position n, rule position n = true) :
    ∀ (ns : List Node) (position : Position), obeyAll rule position ns = true
  | [], _ => rfl
  | n :: ns, position => by
    simp only [obeyAll, obeysEvery every n, obeyEveryAll every ns, Bool.and_self]

theorem obeyEveryBranches {rule : Position → Node → Bool}
    (every : ∀ position n, rule position n = true) :
    ∀ bs : List (Branch Node), obeyBranches rule bs = true
  | [] => rfl
  | ⟨condition, body⟩ :: bs => by
    simp only [obeyBranches, obeysEvery every condition, obeyEveryAll every body,
      obeyEveryBranches every bs, Bool.and_self]

end

mutual

theorem obeysBoth {rule also : Position → Node → Bool} : ∀ {n : Node} {position : Position},
    n.obeys rule position = true → n.obeys also position = true →
      n.obeys (fun position n => rule position n && also position n) position = true
  | literal .., _, h, k | name .., _, h, k => Bool.and_eq_true_iff.mpr ⟨h, k⟩
  | binary .., _, h, k => by
    simp only [obeys, Bool.and_eq_true] at h k ⊢
    exact ⟨⟨⟨h.1.1, k.1.1⟩, obeysBoth h.1.2 k.1.2⟩, obeysBoth h.2 k.2⟩
  | assign .., _, h, k | result .., _, h, k => by
    simp only [obeys, Bool.and_eq_true] at h k ⊢
    exact ⟨⟨h.1, k.1⟩, obeysBoth h.2 k.2⟩
  | call .., _, h, k | function .., _, h, k | handler .., _, h, k => by
    simp only [obeys, Bool.and_eq_true] at h k ⊢
    exact ⟨⟨h.1, k.1⟩, obeyBothAll h.2 k.2⟩
  | loop .., _, h, k => by
    simp only [obeys, Bool.and_eq_true] at h k ⊢
    exact ⟨⟨⟨h.1.1, k.1.1⟩, obeysBoth h.1.2 k.1.2⟩, obeyBothAll h.2 k.2⟩
  | cond .., _, h, k => by
    simp only [obeys, Bool.and_eq_true] at h k ⊢
    obtain ⟨⟨⟨⟨here, condition⟩, body⟩, branches⟩, otherwise⟩ := h
    obtain ⟨⟨⟨⟨here', condition'⟩, body'⟩, branches'⟩, otherwise'⟩ := k
    exact ⟨⟨⟨⟨⟨here, here'⟩, obeysBoth condition condition'⟩, obeyBothAll body body'⟩,
      obeyBothBranches branches branches'⟩, obeyBothAll otherwise otherwise'⟩

theorem obeyBothAll {rule also : Position → Node → Bool} : ∀ {ns : List Node} {position : Position},
    obeyAll rule position ns = true → obeyAll also position ns = true →
      obeyAll (fun position n => rule position n && also position n) position ns = true
  | [], _, _, _ => rfl
  | n :: ns, _, h, k => by
    simp only [obeyAll, Bool.and_eq_true] at h k ⊢
    exact ⟨obeysBoth h.1 k.1, obeyBothAll h.2 k.2⟩

theorem obeyBothBranches {rule also : Position → Node → Bool} : ∀ {bs : List (Branch Node)},
    obeyBranches rule bs = true → obeyBranches also bs = true →
      obeyBranches (fun position n => rule position n && also position n) bs = true
  | [], _, _ => rfl
  | ⟨_, _⟩ :: bs, h, k => by
    simp only [obeyBranches, Bool.and_eq_true] at h k ⊢
    exact ⟨⟨obeysBoth h.1.1 k.1.1, obeyBothAll h.1.2 k.1.2⟩, obeyBothBranches h.2 k.2⟩

end

mutual

theorem obeysWeaker {rule also : Position → Node → Bool}
    (weaker : ∀ position n, rule position n = true → also position n = true) :
    ∀ {n : Node} {position : Position}, n.obeys rule position = true → n.obeys also position = true
  | literal .., _, h | name .., _, h => weaker _ _ h
  | binary .., _, h => by
    simp only [obeys, Bool.and_eq_true] at h ⊢
    exact ⟨⟨weaker _ _ h.1.1, obeysWeaker weaker h.1.2⟩, obeysWeaker weaker h.2⟩
  | assign .., _, h | result .., _, h => by
    simp only [obeys, Bool.and_eq_true] at h ⊢
    exact ⟨weaker _ _ h.1, obeysWeaker weaker h.2⟩
  | call .., _, h | function .., _, h | handler .., _, h => by
    simp only [obeys, Bool.and_eq_true] at h ⊢
    exact ⟨weaker _ _ h.1, obeyWeakerAll weaker h.2⟩
  | loop .., _, h => by
    simp only [obeys, Bool.and_eq_true] at h ⊢
    exact ⟨⟨weaker _ _ h.1.1, obeysWeaker weaker h.1.2⟩, obeyWeakerAll weaker h.2⟩
  | cond .., _, h => by
    simp only [obeys, Bool.and_eq_true] at h ⊢
    obtain ⟨⟨⟨⟨here, condition⟩, body⟩, branches⟩, otherwise⟩ := h
    exact ⟨⟨⟨⟨weaker _ _ here, obeysWeaker weaker condition⟩, obeyWeakerAll weaker body⟩,
      obeyWeakerBranches weaker branches⟩, obeyWeakerAll weaker otherwise⟩

theorem obeyWeakerAll {rule also : Position → Node → Bool}
    (weaker : ∀ position n, rule position n = true → also position n = true) :
    ∀ {ns : List Node} {position : Position},
      obeyAll rule position ns = true → obeyAll also position ns = true
  | [], _, _ => rfl
  | n :: ns, _, h => by
    simp only [obeyAll, Bool.and_eq_true] at h ⊢
    exact ⟨obeysWeaker weaker h.1, obeyWeakerAll weaker h.2⟩

theorem obeyWeakerBranches {rule also : Position → Node → Bool}
    (weaker : ∀ position n, rule position n = true → also position n = true) :
    ∀ {bs : List (Branch Node)}, obeyBranches rule bs = true → obeyBranches also bs = true
  | [], _ => rfl
  | ⟨_, _⟩ :: bs, h => by
    simp only [obeyBranches, Bool.and_eq_true] at h ⊢
    exact ⟨⟨obeysWeaker weaker h.1.1, obeyWeakerAll weaker h.1.2⟩, obeyWeakerBranches weaker h.2⟩

end

end Node

mutual

def Value.obeys (rule : Position → Node → Bool) : Value → Bool
  | .function _ closure => Node.obeyAll rule .statement closure.body
  | .list _ items => Value.obeyAll rule items
  | _ => true

def Value.obeyAll (rule : Position → Node → Bool) : List Value → Bool
  | [] => true
  | v :: vs => Value.obeys rule v && Value.obeyAll rule vs

end

variable {rule : Position → Node → Bool}

@[simp] theorem Value.obeyAllIff {vs : List Value} :
    Value.obeyAll rule vs = true ↔ ∀ v ∈ vs, v.obeys rule = true := by
  induction vs with
  | nil => simp [Value.obeyAll]
  | cons v vs ih => simp [Value.obeyAll, ih]

theorem Value.headObeys {vs : List Value} (h : ∀ v ∈ vs, v.obeys rule = true) :
    (vs.headD .undefined).obeys rule = true := by
  cases vs with
  | nil => rfl
  | cons v vs => exact h v List.mem_cons_self

theorem BinaryOp.applyObeys (op : BinaryOp) (v w : Value) : (op.apply v w).obeys rule = true := by
  cases op with
  | add =>
    simp only [apply, Value.add]
    split <;> rfl
  | _ => rfl

namespace Store

def Obeys (rule : Position → Node → Bool) (s : Store) : Prop :=
  ∀ (i : Nat) (frame : Frame), s.frames[i]? = some frame → ∀ b ∈ frame.bindings, b.2.obeys rule = true

theorem getObeys {s : Store} {scope : Scope} {name : String} {value : Value} (held : s.Obeys rule)
    (found : s.get? scope name = some value) : value.obeys rule = true :=
  getEach (P := fun _ v => v.obeys rule = true) held found

theorem defineObeys {s : Store} {frame : Nat} {name : String} {value : Value}
    (held : s.Obeys rule) (given : value.obeys rule = true) :
    (s.define frame name value).Obeys rule :=
  eachDefine (P := fun _ v => v.obeys rule = true) held given

/- The frames below the bound stay as they are, and no frame changes its kind. -/
structure Grows (bound : Nat) (s s' : Store) : Prop where
  size : s.frames.size ≤ s'.frames.size
  kinds : ∀ i < s.frames.size, s'.isFunction i = s.isFunction i
  below : ∀ i < bound, s'.frames[i]? = s.frames[i]?

variable {bound : Nat} {s s' s'' : Store}

theorem growsRefl : Grows bound s s := ⟨Nat.le_refl _, fun _ _ => rfl, fun _ _ => rfl⟩

theorem growsTrans (first : Grows bound s s') (second : Grows bound s' s'') :
    Grows bound s s'' where
  size := Nat.le_trans first.size second.size
  kinds i inside := by
    rw [second.kinds i (Nat.lt_of_lt_of_le inside first.size), first.kinds i inside]
  below i inside := by rw [second.below i inside, first.below i inside]

theorem growsAny (h : Grows bound s s') : Grows 0 s s' :=
  ⟨h.size, h.kinds, fun _ inside => absurd inside (Nat.not_lt_zero _)⟩

theorem growsFrames (same : s'.frames = s.frames) : Grows bound s s' := by
  refine ⟨?_, ?_, ?_⟩
  · exact Nat.le_of_eq (congrArg Array.size same.symm)
  · intro i _
    simp only [isFunction, same]
  · intro i _
    rw [same]

theorem growsDefine {frame : Nat} (above : bound ≤ frame) (name : String) (value : Value) :
    Grows bound s (s.define frame name value) where
  size := Nat.le_of_eq (sizeDefined s frame name value).symm
  kinds i _ := kindDefined s frame name value i
  below i inside := by
    have other : frame ≠ i := by omega
    rw [defineFrames]
    simp [other]

theorem growsEnter (within : bound ≤ s.frames.size) (isFunction : Bool) (outer : List Nat) :
    Grows bound s (s.enter isFunction outer).2 where
  size := by simp [enter]
  kinds i inside := by
    have other : i ≠ s.frames.size := by omega
    simp [enter, Store.isFunction, Array.getElem?_push, other]
  below i inside := by
    have other : i ≠ s.frames.size := by omega
    simp [enter, Array.getElem?_push, other]

/- Whatever happens meanwhile, what the scope declares goes to a frame that is not
below the bound. -/
def Owns (bound : Nat) (s : Store) (scope : Scope) : Prop :=
  ∀ s', Grows 0 s s' → bound ≤ s'.functionFrame scope

theorem ownsStill {scope : Scope} (h : Owns bound s scope) (grows : Grows 0 s s') :
    Owns bound s' scope := fun later after => h later (growsTrans grows after)

theorem ownsLater {scope : Scope} (h : Owns bound s scope) (grows : Grows bound s s') :
    Owns bound s' scope := ownsStill h (growsAny grows)

theorem ownsNow {scope : Scope} (h : Owns bound s scope) : bound ≤ s.functionFrame scope :=
  h s growsRefl

theorem ownsAll (s : Store) (scope : Scope) : Owns 0 s scope := fun _ _ => Nat.zero_le _

theorem ownsCall (within : bound ≤ s.frames.size) (outer : List Nat) :
    Owns bound (s.enter true outer).2 (s.enter true outer).1 := by
  intro later after
  have new : (s.enter true outer).2.isFunction s.frames.size = true := by
    simp [enter, isFunction]
  have inside : s.frames.size < (s.enter true outer).2.frames.size := by simp [enter]
  have found : later.isFunction s.frames.size = true := by rw [after.kinds _ inside, new]
  simpa [functionFrame, enter, Scope.path, found] using within

theorem ownsTurn {scope : Scope} (h : Owns bound s scope) :
    Owns bound (s.enter false scope.path).2 (s.enter false scope.path).1 := by
  intro later after
  have outer := h later (growsTrans (growsAny (growsEnter (Nat.le_refl _) false scope.path)) after)
  have new : (s.enter false scope.path).2.isFunction s.frames.size = false := by
    simp [enter, isFunction]
  have inside : s.frames.size < (s.enter false scope.path).2.frames.size := by simp [enter]
  have passed : later.isFunction s.frames.size = false := by rw [after.kinds _ inside, new]
  -- A block frame takes no declarations, so the search goes on to the frames around it.
  have same : later.functionFrame (s.enter false scope.path).1 = later.functionFrame scope := by
    simp only [functionFrame, enter]
    rw [Scope.path, List.find?_cons_of_neg (by simp [passed])]
    simp [Scope.root, Scope.path, List.getLast?_cons]
  rw [same]
  exact outer

end Store

namespace Machine

structure Obeys (rule : Position → Node → Bool) (m : Machine) : Prop where
  store : m.store.Obeys rule
  registry : ∀ entry ∈ m.registry.entries, ∀ listener ∈ entry.2, listener.obeys rule = true
  language : m.language.obeys rule = true

end Machine

theorem Registry.listenersObey {r : Registry Value}
    (held : ∀ entry ∈ r.entries, ∀ l ∈ entry.2, l.obeys rule = true) (event : String) :
    ∀ l ∈ r.listeners event, l.obeys rule = true :=
  listenersEach (P := fun _ v => v.obeys rule = true) held event

end EventScript
