import EventScript.Proofs.Matching

/-! The scopes of a program form a forest, and each operation changes one binding of it. A
name is looked up, assigned or declared by a walk towards the root, and every walk ends at
the nearest frame of some kind; whoever resolves a name elsewhere sees no change. -/
namespace EventScript

/- What can be done with scopes, which are known by the order they were made in. -/
inductive ScopeStep where
  | global
  | function (parent : Nat)
  | block (parent : Nat)
  | define (scope : Nat) (name : String) (value : Value)
  | declare (scope : Nat) (name : String) (value : Value)
  | hoist (scope : Nat) (name : String)
  | assign (scope : Nat) (name : String) (value : Value)

namespace ScopeStep

def name? : ScopeStep → Option String
  | global | function _ | block _ => none
  | define _ name _ | declare _ name _ | hoist _ name | assign _ name _ => some name

end ScopeStep

structure Forest where
  store : Store
  scopes : Array Scope
  parents : Array (Option Nat)

namespace Forest

def empty : Forest := ⟨.empty, #[], #[]⟩

def parent (F : Forest) (i : Nat) : Option Nat := F.parents[i]?.join

def grow (F : Forest) (isFunction : Bool) (parent : Option Nat) (outer : List Nat) : Forest :=
  let (scope, store) := F.store.enter isFunction outer
  ⟨store, F.scopes.push scope, F.parents.push parent⟩

def change (F : Forest) (store : Store) : Forest := { F with store }

def within (F : Forest) (i : Nat) (step : Scope → Forest) : Forest := (F.scopes[i]?.map step).getD F

def step (F : Forest) : ScopeStep → Forest
  | .global => F.grow true none []
  | .function p => F.within p fun scope => F.grow true (some p) scope.path
  | .block p => F.within p fun scope => F.grow false (some p) scope.path
  | .define i name value => F.within i fun scope => F.change (F.store.define scope.frame name value)
  | .declare i name value => F.within i fun scope => F.change (F.store.declare scope name value)
  | .hoist i name => F.within i fun scope => F.change (F.store.hoist scope name)
  | .assign i name value => F.within i fun scope => F.change (F.store.assign scope name value)

def after (steps : List ScopeStep) : Forest := steps.foldl step empty

end Forest

/- The first frame that has a property, from a frame on towards the root. -/
inductive Nearest (parent : Nat → Option Nat) (P : Nat → Prop) : Nat → Option Nat → Prop where
  | here {i} (found : P i) : Nearest parent P i (some i)
  | above {i j r} (other : ¬ P i) (up : parent i = some j) (rest : Nearest parent P j r) :
      Nearest parent P i r
  | nowhere {i} (other : ¬ P i) (root : parent i = none) : Nearest parent P i none

inductive Passes (parent : Nat → Option Nat) (stop : Nat) : Nat → Nat → Prop where
  | here {i} (apart : i ≠ stop) : Passes parent stop i i
  | above {i j k} (apart : i ≠ stop) (up : parent i = some j) (rest : Passes parent stop j k) :
      Passes parent stop i k

section Walks

variable {parent : Nat → Option Nat} {P : Nat → Prop} {i : Nat} {r : Option Nat}

theorem nearestUnique (h : Nearest parent P i r) {q : Option Nat} (other : Nearest parent P i q) :
    q = r := by
  induction h with
  | here found =>
    cases other with
    | here => rfl
    | above no => exact absurd found no
    | nowhere no => exact absurd found no
  | above no up rest ih =>
    cases other with
    | here found => exact absurd found no
    | above _ up' rest' =>
      cases up.symm.trans up'
      exact ih rest'
    | nowhere _ root => cases up.symm.trans root
  | nowhere no root =>
    cases other with
    | here found => exact absurd found no
    | above _ up => cases root.symm.trans up
    | nowhere => rfl

theorem nearestHolds {f : Nat} (h : Nearest parent P i (some f)) : P f := by
  generalize found : some f = r at h
  induction h with
  | here holds =>
    cases found
    exact holds
  | above _ _ _ ih => exact ih found
  | nowhere => contradiction

theorem passedOther {stop k : Nat} (h : Nearest parent P i r) (stops : ∀ f, r = some f → f = stop)
    (passes : Passes parent stop i k) : ¬ P k := by
  induction passes with
  | here apart =>
    cases h with
    | here => exact absurd (stops _ rfl) apart
    | above other => exact other
    | nowhere other => exact other
  | above apart up rest ih =>
    cases h with
    | here => exact absurd (stops _ rfl) apart
    | above _ up' more =>
      cases up.symm.trans up'
      exact ih more
    | nowhere _ root => cases up.symm.trans root

theorem nowhereOther {Q : Nat → Prop} {f : Nat} (h : Nearest parent P i none)
    (walk : Nearest parent Q i (some f)) : ¬ P f := by
  generalize found : some f = r at walk
  induction walk with
  | here =>
    cases found
    cases h with
    | above other => exact other
    | nowhere other => exact other
  | above _ up rest ih =>
    cases h with
    | above _ up' more =>
      cases up.symm.trans up'
      exact ih more found
    | nowhere _ root => cases up.symm.trans root
  | nowhere => contradiction

/- Properties that differ at one frame only lead to the same end, unless the walk ends there. -/
theorem nearestAgree {Q : Nat → Prop} {f : Nat} (walk : Nearest parent P i r) (other : r ≠ some f)
    (there : P f) (agree : ∀ j, j ≠ f → (P j ↔ Q j)) : Nearest parent Q i r := by
  have apart {j : Nat} (no : ¬ P j) : j ≠ f := by
    rintro rfl
    exact no there
  induction walk with
  | here found => exact .here ((agree _ fun same => other (congrArg some same)).mp found)
  | above no up rest ih =>
    exact .above (fun found => no ((agree _ (apart no)).mpr found)) up (ih other)
  | nowhere no root => exact .nowhere (fun found => no ((agree _ (apart no)).mpr found)) root

end Walks

namespace Forest

/- The frames of a scope are those of its parent and one of its own; a scope without a parent
is a function frame. -/
structure Planted (F : Forest) : Prop where
  size : F.scopes.size = F.store.frames.size
  parents : F.parents.size = F.scopes.size
  frame : ∀ (i : Nat) (scope : Scope), F.scopes[i]? = some scope → scope.frame = i
  root : ∀ (i : Nat) (scope : Scope), F.scopes[i]? = some scope → F.parent i = none →
    scope.outer = [] ∧ F.store.isFunction i = true
  child : ∀ (i : Nat) (scope : Scope) (j : Nat), F.scopes[i]? = some scope → F.parent i = some j →
    j < i ∧ ∃ around, F.scopes[j]? = some around ∧ scope.outer = around.path

theorem plantedEmpty : empty.Planted where
  size := rfl
  parents := rfl
  frame i scope found := by cases found
  root i scope found := by cases found
  child i scope j found := by cases found

variable {F : Forest}

theorem plantedChange (planted : F.Planted) {store : Store}
    (size : store.frames.size = F.store.frames.size)
    (kinds : ∀ i, store.isFunction i = F.store.isFunction i) : (F.change store).Planted where
  size := planted.size.trans size.symm
  parents := planted.parents
  frame := planted.frame
  root i scope found top := by
    obtain ⟨bare, function⟩ := planted.root i scope found top
    exact ⟨bare, (kinds i).trans function⟩
  child := planted.child

theorem scopeGrown (F : Forest) (isFunction : Bool) (parent : Option Nat) (outer : List Nat)
    (i : Nat) : (F.grow isFunction parent outer).scopes[i]? =
      if i = F.scopes.size then some ⟨F.store.frames.size, outer⟩ else F.scopes[i]? :=
  Array.getElem?_push

theorem parentGrown (F : Forest) (isFunction : Bool) (parent : Option Nat) (outer : List Nat)
    (i : Nat) : (F.grow isFunction parent outer).parent i =
      if i = F.parents.size then parent else F.parent i := by
  have pushed : (F.parents.push parent)[i]? = _ := Array.getElem?_push
  simp only [Forest.parent, grow, pushed]
  split <;> rfl

inductive Grows (F : Forest) : Bool → Option Nat → List Nat → Prop where
  | root : Grows F true none []
  | child {isFunction j around} (found : F.scopes[j]? = some around) :
      Grows F isFunction (some j) around.path

theorem plantedGrow {isFunction : Bool} {parent : Option Nat} {outer : List Nat}
    (planted : F.Planted) (grows : Grows F isFunction parent outer) :
    (F.grow isFunction parent outer).Planted where
  size := by
    simp only [grow, Store.enter, Array.size_push, planted.size]
  parents := by
    simp only [grow, Array.size_push, planted.parents]
  frame i scope found := by
    rw [scopeGrown] at found
    split at found
    · rename_i last
      cases found
      exact (last.trans planted.size).symm
    · exact planted.frame i scope found
  root i scope found top := by
    rw [scopeGrown] at found
    rw [parentGrown, planted.parents] at top
    have kind : (F.grow isFunction parent outer).store.isFunction i = _ :=
      Store.kindEntered F.store isFunction outer i
    rw [kind, ← planted.size]
    split at found
    · rename_i last
      cases found
      rw [if_pos last] at top ⊢
      cases grows with
      | root => exact ⟨rfl, rfl⟩
      | child => contradiction
    · rename_i before
      rw [if_neg before] at top ⊢
      exact planted.root i scope found top
  child i scope j found up := by
    rw [scopeGrown] at found
    rw [parentGrown, planted.parents] at up
    have inside : ∀ k, ∀ around : Scope, F.scopes[k]? = some around → k < F.scopes.size :=
      fun k around held => (Array.getElem?_eq_some_iff.mp held).1
    split at found
    · rename_i last
      cases found
      rw [if_pos last] at up
      cases grows with
      | root => contradiction
      | child held =>
        cases up
        have below := inside _ _ held
        refine ⟨by omega, _, ?_, rfl⟩
        rw [scopeGrown, if_neg (by omega)]
        exact held
    · rename_i before
      rw [if_neg before] at up
      obtain ⟨less, around, held, path⟩ := planted.child i scope j found up
      have below := inside _ _ held
      refine ⟨less, around, ?_, path⟩
      rw [scopeGrown, if_neg (by omega)]
      exact held

theorem plantedWithin (planted : F.Planted) {i : Nat} {step : Scope → Forest}
    (keeps : ∀ scope, F.scopes[i]? = some scope → (step scope).Planted) :
    (F.within i step).Planted := by
  unfold within
  cases found : F.scopes[i]? with
  | none => exact planted
  | some scope => exact keeps scope found

theorem plantedDefine (planted : F.Planted) (frame : Nat) (name : String) (value : Value) :
    (F.change (F.store.define frame name value)).Planted :=
  plantedChange planted (Store.sizeDefined F.store frame name value)
    (Store.kindDefined F.store frame name value)

theorem plantedStep (planted : F.Planted) (step : ScopeStep) : (F.step step).Planted := by
  cases step with
  | global => exact plantedGrow planted .root
  | function p => exact plantedWithin planted fun _ found => plantedGrow planted (.child found)
  | block p => exact plantedWithin planted fun _ found => plantedGrow planted (.child found)
  | define i name value => exact plantedWithin planted fun _ _ => plantedDefine planted _ name value
  | declare i name value => exact plantedWithin planted fun _ _ => plantedDefine planted _ name value
  | hoist i name =>
    refine plantedWithin planted fun scope _ => ?_
    unfold Store.hoist
    dsimp only
    split
    · exact planted
    · exact plantedDefine planted _ name _
  | assign i name value => exact plantedWithin planted fun _ _ => plantedDefine planted _ name value

theorem plantedFrom (planted : F.Planted) (steps : List ScopeStep) : (steps.foldl step F).Planted := by
  induction steps generalizing F with
  | nil => exact planted
  | cons step steps ih => exact ih (plantedStep planted step)

theorem plantedAfter (steps : List ScopeStep) : (after steps).Planted :=
  plantedFrom plantedEmpty steps

section Planted

variable (planted : F.Planted)
include planted

theorem nearestInside {P : Nat → Prop} {i f : Nat} (h : Nearest F.parent P i (some f))
    (inside : i < F.scopes.size) : f < F.scopes.size := by
  generalize found : some f = r at h
  induction h with
  | here =>
    cases found
    exact inside
  | @above i j r other up rest ih =>
    obtain ⟨scope, held⟩ : ∃ scope, F.scopes[i]? = some scope := ⟨_, Array.getElem?_eq_getElem inside⟩
    obtain ⟨less, _⟩ := planted.child i scope j held up
    exact ih (Nat.lt_trans less inside) found
  | nowhere => contradiction

theorem pathNearest (p : Nat → Bool) {i : Nat} {scope : Scope} (held : F.scopes[i]? = some scope) :
    Nearest F.parent (p · = true) i (scope.path.find? p) := by
  induction i using Nat.strongRecOn generalizing scope with
  | ind i ih =>
    have own := planted.frame i scope held
    rw [Scope.path, own]
    by_cases here : p i = true
    · rw [List.find?_cons_of_pos here]
      exact .here here
    · rw [List.find?_cons_of_neg here]
      cases up : F.parent i with
      | none =>
        rw [(planted.root i scope held up).1]
        exact .nowhere here up
      | some j =>
        obtain ⟨less, around, found, path⟩ := planted.child i scope j held up
        rw [path]
        exact .above here up (ih j less found)

theorem rootNearest {i : Nat} {scope : Scope} (held : F.scopes[i]? = some scope) :
    Nearest F.parent (F.parent · = none) i (some scope.root) := by
  induction i using Nat.strongRecOn generalizing scope with
  | ind i ih =>
    have own := planted.frame i scope held
    cases up : F.parent i with
    | none =>
      have root : scope.root = i := by
        rw [Scope.root, (planted.root i scope held up).1, own]
        rfl
      rw [root]
      exact .here up
    | some j =>
      obtain ⟨less, around, found, path⟩ := planted.child i scope j held up
      have root : scope.root = around.root := by
        rw [← Scope.rootOuter scope.frame around, ← path]
      rw [root]
      exact .above (by simp [up]) up (ih j less found)

omit planted in
theorem heldInside {i : Nat} {scope : Scope} (held : F.scopes[i]? = some scope) :
    i < F.scopes.size := (Array.getElem?_eq_some_iff.mp held).1

theorem functionNearest {i : Nat} {scope : Scope} (held : F.scopes[i]? = some scope) :
    Nearest F.parent (F.store.isFunction · = true) i (some (F.store.functionFrame scope)) := by
  have walk := pathNearest planted F.store.isFunction held
  unfold Store.functionFrame
  cases found : scope.path.find? F.store.isFunction with
  | some f =>
    rw [found] at walk
    exact walk
  | none =>
    -- The root is a function frame, so the walk cannot have come to nothing.
    rw [found] at walk
    have up := rootNearest planted held
    have inside := nearestInside planted up (heldInside held)
    have function := (planted.root _ _ (Array.getElem?_eq_getElem inside) (nearestHolds up)).2
    exact absurd function (nowhereOther walk up)

end Planted

end Forest

namespace Store

variable {s t : Store} {f : Nat} {n : String} {v : Value}

structure Sets (s : Store) (f : Nat) (n : String) (v : Value) (t : Store) : Prop where
  here : t.local? n f = some v
  others : ∀ m g, m ≠ n ∨ g ≠ f → t.local? m g = s.local? m g
  kinds : ∀ g, t.isFunction g = s.isFunction g
  size : t.frames.size = s.frames.size

theorem setsDefine (inside : f < s.frames.size) (n : String) (v : Value) :
    s.Sets f n v (s.define f n v) where
  here := by
    rw [localDefined]
    exact if_pos ⟨rfl, inside, rfl⟩
  others m g apart := by
    rw [localDefined]
    refine if_neg ?_
    rintro ⟨same, _, name⟩
    rcases apart with other | other
    · exact other name
    · exact other same.symm
  kinds := kindDefined s f n v
  size := sizeDefined s f n v

theorem setsNamed (sets : s.Sets f n v t) : t.Named f n := by
  rw [Named, sets.here]
  rfl

theorem setsOther (sets : s.Sets f n v t) {g : Nat} (apart : g ≠ f) : t.Named g n ↔ s.Named g n := by
  rw [Named, Named, sets.others n g (.inr apart)]

theorem getSame {m : String} (same : ∀ g, t.local? m g = s.local? m g) (scope : Scope) :
    t.get? scope m = s.get? scope m := by
  simp only [get?, funext same]

theorem getPath (s : Store) (path : List Nat) (n : String) :
    path.findSome? (s.local? n) = (path.find? fun f => (s.local? n f).isSome).bind (s.local? n) := by
  induction path with
  | nil => rfl
  | cons f path ih =>
    cases bound : s.local? n f with
    | none => rw [List.findSome?_cons, bound, List.find?_cons_of_neg (by simp [bound]), ih]
    | some v => rw [List.findSome?_cons, bound, List.find?_cons_of_pos (by simp [bound])]; exact bound.symm

end Store

/- A walk to the frame that was set ends there, if it passes no other frame with the name. -/
theorem nearestSet {parent : Nat → Option Nat} {P : Nat → Prop} {s t : Store} {i f : Nat} {n : String}
    {v : Value} (walk : Nearest parent P i (some f))
    (clear : ∀ k, Passes parent f i k → ¬ s.Named k n) (sets : s.Sets f n v t) :
    Nearest parent (t.Named · n) i (some f) := by
  generalize found : some f = r at walk
  induction walk with
  | here =>
    cases found
    exact .here (Store.setsNamed sets)
  | @above i j r other up rest ih =>
    subst found
    by_cases there : i = f
    · subst there
      exact .here (Store.setsNamed sets)
    · have free : ¬ t.Named i n := fun named =>
        clear i (.here there) ((Store.setsOther sets there).mp named)
      exact .above free up (ih (fun k passes => clear k (.above there up passes)) rfl)
  | nowhere => contradiction

namespace Forest

structure Lawful (F : Forest) (i : Nat) (scope : Scope) : Prop where
  gets : ∀ n, ∃ r, Nearest F.parent (F.store.Named · n) i r ∧
    F.store.get? scope n = r.bind (F.store.local? n)
  defines : ∀ n v, F.store.Sets i n v (F.store.define scope.frame n v)
  assigns : ∀ n v, ∃ f, (Nearest F.parent (F.store.Named · n) i (some f) ∨
      Nearest F.parent (F.store.Named · n) i none ∧ Nearest F.parent (F.parent · = none) i (some f)) ∧
    F.store.Sets f n v (F.store.assign scope n v) ∧ (F.store.assign scope n v).get? scope n = some v
  declares : ∀ n v, ∃ f, Nearest F.parent (F.store.isFunction · = true) i (some f) ∧
    F.store.Sets f n v (F.store.declare scope n v) ∧
    ((∀ k, Passes F.parent f i k → ¬ F.store.Named k n) →
      (F.store.declare scope n v).get? scope n = some v)
  hoists : ∀ n, ∃ f, Nearest F.parent (F.store.isFunction · = true) i (some f) ∧
    (F.store.Named f n → F.store.hoist scope n = F.store) ∧
    (¬ F.store.Named f n → F.store.Sets f n .undefined (F.store.hoist scope n))

section Operations

variable {F : Forest} (planted : F.Planted) {i : Nat} {scope : Scope} (held : F.scopes[i]? = some scope)
include planted held

theorem getNearest (s : Store) (n : String) {r : Option Nat} (walk : Nearest F.parent (s.Named · n) i r) :
    s.get? scope n = r.bind (s.local? n) := by
  have path := pathNearest planted (fun f => (s.local? n f).isSome) held
  rw [Store.get?, Store.getPath, nearestUnique walk path]

theorem getSet {P : Nat → Prop} {s t : Store} {f : Nat} {n : String} {v : Value}
    (walk : Nearest F.parent P i (some f)) (clear : ∀ k, Passes F.parent f i k → ¬ s.Named k n)
    (sets : s.Sets f n v t) : t.get? scope n = some v := by
  rw [getNearest planted held t n (nearestSet walk clear sets)]
  exact sets.here

theorem walkInside {P : Nat → Prop} {f : Nat} (walk : Nearest F.parent P i (some f)) :
    f < F.store.frames.size := by
  rw [← planted.size]
  exact nearestInside planted walk (heldInside held)

theorem assignsLawfully (n : String) (v : Value) :
    ∃ f, (Nearest F.parent (F.store.Named · n) i (some f) ∨
        Nearest F.parent (F.store.Named · n) i none ∧ Nearest F.parent (F.parent · = none) i (some f)) ∧
      F.store.Sets f n v (F.store.assign scope n v) ∧
      (F.store.assign scope n v).get? scope n = some v := by
  have walk := pathNearest planted (fun f => (F.store.local? n f).isSome) held
  unfold Store.assign
  cases found : scope.path.find? fun f => (F.store.local? n f).isSome with
  | some f =>
    rw [found] at walk
    have sets := Store.setsDefine (walkInside planted held walk) n v
    have clear : ∀ k, Passes F.parent f i k → ¬ F.store.Named k n := fun k passes =>
      passedOther walk (fun g same => (Option.some.inj same).symm) passes
    exact ⟨f, .inl walk, sets, getSet planted held walk clear sets⟩
  | none =>
    rw [found] at walk
    have up := rootNearest planted held
    have sets := Store.setsDefine (walkInside planted held up) n v
    have clear : ∀ k, Passes F.parent scope.root i k → ¬ F.store.Named k n := fun k passes =>
      passedOther walk (fun g same => by cases same) passes
    exact ⟨scope.root, .inr ⟨walk, up⟩, sets, getSet planted held up clear sets⟩

theorem declaresLawfully (n : String) (v : Value) :
    ∃ f, Nearest F.parent (F.store.isFunction · = true) i (some f) ∧
      F.store.Sets f n v (F.store.declare scope n v) ∧
      ((∀ k, Passes F.parent f i k → ¬ F.store.Named k n) →
        (F.store.declare scope n v).get? scope n = some v) := by
  have walk := functionNearest planted held
  have sets := Store.setsDefine (walkInside planted held walk) n v
  exact ⟨_, walk, sets, fun clear => getSet planted held walk clear sets⟩

theorem hoistsLawfully (n : String) :
    ∃ f, Nearest F.parent (F.store.isFunction · = true) i (some f) ∧
      (F.store.Named f n → F.store.hoist scope n = F.store) ∧
      (¬ F.store.Named f n → F.store.Sets f n .undefined (F.store.hoist scope n)) := by
  have walk := functionNearest planted held
  refine ⟨_, walk, fun named => if_pos named, fun free => ?_⟩
  have defined : F.store.hoist scope n = _ := if_neg free
  rw [defined]
  exact Store.setsDefine (walkInside planted held walk) n .undefined

theorem lawfulPlanted : F.Lawful i scope where
  gets n := by
    have walk := pathNearest planted (fun f => (F.store.local? n f).isSome) held
    exact ⟨_, walk, getNearest planted held F.store n walk⟩
  defines n v := by
    rw [planted.frame i scope held]
    refine Store.setsDefine ?_ n v
    rw [← planted.size]
    exact heldInside held
  assigns := assignsLawfully planted held
  declares := declaresLawfully planted held
  hoists := hoistsLawfully planted held

theorem affectedSet {s t : Store} {f : Nat} {n m : String} {v : Value} (sets : s.Sets f n v t)
    (differs : t.get? scope m ≠ s.get? scope m) :
    m = n ∧ Nearest F.parent (t.Named · m) i (some f) := by
  have same : m = n := by
    refine Classical.byContradiction fun other => differs ?_
    exact Store.getSame (fun g => sets.others m g (.inl other)) scope
  subst same
  refine ⟨rfl, ?_⟩
  have walk := pathNearest planted (fun g => (t.local? m g).isSome) held
  generalize scope.path.find? (fun g => (t.local? m g).isSome) = r at walk
  by_cases here : r = some f
  · rwa [here] at walk
  · have before := nearestAgree walk here (Store.setsNamed sets) fun g apart => Store.setsOther sets apart
    refine absurd ?_ differs
    rw [getNearest planted held t m walk, getNearest planted held s m before]
    cases r with
    | none => rfl
    | some g => exact sets.others m g (.inr fun at' => here (congrArg some at'))

end Operations

theorem grownLocal (F : Forest) (isFunction : Bool) (parent : Option Nat) (outer : List Nat)
    (n : String) (f : Nat) : (F.grow isFunction parent outer).store.local? n f = F.store.local? n f :=
  Store.localEntered F.store isFunction outer n f

def Touches (F : Forest) (name : Option String) (G : Forest) : Prop :=
  (∀ n f, G.store.local? n f = F.store.local? n f) ∨
    ∃ f n v, name = some n ∧ F.store.Sets f n v G.store

theorem touchesWithin {F : Forest} {i : Nat} {name : Option String} {step : Scope → Forest}
    (touches : ∀ scope, F.scopes[i]? = some scope → F.Touches name (step scope)) :
    F.Touches name (F.within i step) := by
  unfold within
  cases found : F.scopes[i]? with
  | none => exact .inl fun _ _ => rfl
  | some scope => exact touches scope found

theorem stepTouches {F : Forest} (planted : F.Planted) (step : ScopeStep) :
    F.Touches step.name? (F.step step) := by
  cases step with
  | global => exact .inl (grownLocal F true none [])
  | function p => exact touchesWithin fun scope _ => .inl (grownLocal F true (some p) scope.path)
  | block p => exact touchesWithin fun scope _ => .inl (grownLocal F false (some p) scope.path)
  | define i n v =>
    exact touchesWithin fun scope held => .inr ⟨i, n, v, rfl, (lawfulPlanted planted held).defines n v⟩
  | declare i n v =>
    refine touchesWithin fun scope held => ?_
    obtain ⟨f, _, sets, _⟩ := (lawfulPlanted planted held).declares n v
    exact .inr ⟨f, n, v, rfl, sets⟩
  | hoist i n =>
    refine touchesWithin fun scope held => ?_
    obtain ⟨f, _, kept, sets⟩ := (lawfulPlanted planted held).hoists n
    by_cases named : F.store.Named f n
    · exact .inl fun m g => congrArg (·.local? m g) (kept named)
    · exact .inr ⟨f, n, .undefined, rfl, sets named⟩
  | assign i n v =>
    refine touchesWithin fun scope held => ?_
    obtain ⟨f, _, sets, _⟩ := (lawfulPlanted planted held).assigns n v
    exact .inr ⟨f, n, v, rfl, sets⟩

/- The step is about the name, and the one binding that it changes is in the frame where the
scope finds the name then. -/
structure Affects (F : Forest) (step : ScopeStep) (k : Nat) (n : String) : Prop where
  name : step.name? = some n
  frame : ∃ f, (F.step step).store.local? n f ≠ F.store.local? n f ∧
    (∀ m g, (F.step step).store.local? m g ≠ F.store.local? m g → m = n ∧ g = f) ∧
    (Nearest F.parent (F.store.Named · n) k (some f) ∨
      Nearest F.parent ((F.step step).store.Named · n) k (some f))

theorem affectedOnly {F : Forest} (planted : F.Planted) (step : ScopeStep) {k : Nat} {scope : Scope}
    (held : F.scopes[k]? = some scope) {n : String}
    (differs : (F.step step).store.get? scope n ≠ F.store.get? scope n) : F.Affects step k n := by
  rcases stepTouches planted step with same | ⟨f, m, v, name, sets⟩
  · exact absurd (Store.getSame (same n) scope) differs
  obtain ⟨rfl, walk⟩ := affectedSet planted held sets differs
  have only : ∀ m g, (F.step step).store.local? m g ≠ F.store.local? m g → m = n ∧ g = f := by
    intro m g changed
    constructor
    · exact Classical.byContradiction fun other => changed (sets.others m g (.inl other))
    · exact Classical.byContradiction fun other => changed (sets.others m g (.inr other))
  have changed : (F.step step).store.local? n f ≠ F.store.local? n f := by
    intro same
    refine differs (Store.getSame (fun g => ?_) scope)
    by_cases here : g = f
    · rw [here, same]
    · exact sets.others n g (.inr here)
  exact ⟨name, f, changed, only, .inr walk⟩

end Forest

open Forest

theorem scopeOperationsChangeOneBinding (steps : List ScopeStep) {i : Nat} {scope : Scope}
    (held : (after steps).scopes[i]? = some scope) :
    (after steps).Lawful i scope ∧
      ∀ step n, ((after steps).step step).store.get? scope n ≠ (after steps).store.get? scope n →
        (after steps).Affects step i n := by
  have planted := plantedAfter steps
  exact ⟨lawfulPlanted planted held, fun step n differs => affectedOnly planted step held differs⟩

def siblings : List ScopeStep :=
  [.global, .function 0, .block 1, .block 1, .define 2 "x" .null, .hoist 2 "y"]

theorem siblingAssigns :
    (after siblings).scopes[3]? = some ⟨3, [1, 0]⟩ ∧ (after siblings).Lawful 3 ⟨3, [1, 0]⟩ ∧
      (after siblings).store.get? ⟨3, [1, 0]⟩ "x" = none ∧
      (after siblings).Affects (.assign 3 "x" (.bool true)) 3 "x" := by
  have held : (after siblings).scopes[3]? = some ⟨3, [1, 0]⟩ := rfl
  have before : (after siblings).store.get? ⟨3, [1, 0]⟩ "x" = none := rfl
  have afterwards : ((after siblings).step (.assign 3 "x" (.bool true))).store.get? ⟨3, [1, 0]⟩ "x" =
      some (.bool true) := rfl
  obtain ⟨lawful, affects⟩ := scopeOperationsChangeOneBinding siblings held
  refine ⟨held, lawful, before, affects _ _ ?_⟩
  rw [before, afterwards]
  nofun

end EventScript
