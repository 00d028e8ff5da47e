import EventScript.Proofs.Names

/-! Stores that match. Two stores whose frames hold corresponding values under the same names
give corresponding answers, and go on matching while names are declared, assigned and hoisted
in both. -/
namespace EventScript

open Evaluation

theorem Evaluation.hoistOther {n : Node} (other : n.isFunction = false) (scope : Scope) (s : Store) :
    hoistNode scope s n = n.declaredNames.foldl (fun s name => s.hoist scope name) s := by
  cases n with
  | function => contradiction
  | _ => rfl

namespace Store

/- The relation tells what is in frames, and is kept by all that makes frames and bindings. -/
structure Matching (g : Value → Value) (R : Store → Store → Prop) : Prop where
  undefined : g .undefined = .undefined
  locals : ∀ {s s'}, R s s' → ∀ name i, s'.local? name i = (s.local? name i).map g
  kinds : ∀ {s s'}, R s s' → ∀ i, s'.isFunction i = s.isFunction i
  size : ∀ {s s'}, R s s' → s'.frames.size = s.frames.size
  fresh : ∀ {s s'}, R s s' → s'.fresh = s.fresh
  defines : ∀ {s s'}, R s s' → ∀ i name v, R (s.define i name v) (s'.define i name (g v))
  enters : ∀ {s s'}, R s s' → ∀ isFunction outer,
    R (s.enter isFunction outer).2 (s'.enter isFunction outer).2
  renews : ∀ {s s'}, R s s' → R { s with fresh := s.fresh + 1 } { s' with fresh := s'.fresh + 1 }

namespace Matching

variable {g : Value → Value} {R : Store → Store → Prop} (matching : Matching g R)
include matching

section Frames

variable {s s' : Store} (stores : R s s')
include stores

theorem gets (scope : Scope) (name : String) : s'.get? scope name = (s.get? scope name).map g := by
  simp only [get?]
  induction scope.path with
  | nil => rfl
  | cons i path ih =>
    simp only [List.findSome?_cons, matching.locals stores]
    cases s.local? name i with
    | none => exact ih
    | some v => rfl

theorem functionFrames (scope : Scope) : s'.functionFrame scope = s.functionFrame scope := by
  have same : s'.isFunction = s.isFunction := funext (matching.kinds stores)
  simp only [functionFrame, same]

theorem declares (scope : Scope) (name : String) (v : Value) :
    R (s.declare scope name v) (s'.declare scope name (g v)) := by
  rw [declare, declare, functionFrames matching stores]
  exact matching.defines stores _ name v

theorem assigns (scope : Scope) (name : String) (v : Value) :
    R (s.assign scope name v) (s'.assign scope name (g v)) := by
  simp only [assign, matching.locals stores, Option.isSome_map]
  exact matching.defines stores _ name v

theorem hoistsName (scope : Scope) (name : String) : R (s.hoist scope name) (s'.hoist scope name) := by
  have defined := matching.defines stores (s.functionFrame scope) name .undefined
  rw [matching.undefined] at defined
  simp only [Store.hoist, functionFrames matching stores, matching.locals stores, Option.isSome_map]
  split
  · exact stores
  · exact defined

theorem entersAlike (isFunction : Bool) (outer : List Nat) :
    (s'.enter isFunction outer).1 = (s.enter isFunction outer).1 := by
  simp only [enter, matching.size stores]

theorem makesList {items items' : List Value} (same : ∀ i, g (.list i items) = .list i items') :
    (s'.newList items').1 = g (s.newList items).1 ∧ R (s.newList items).2 (s'.newList items').2 := by
  refine ⟨?_, matching.renews stores⟩
  simp only [newList, matching.fresh stores, same]

theorem makesFunction {c c' : Closure} (same : ∀ i, g (.function i c) = .function i c') :
    (s'.newFunction c').1 = g (s.newFunction c).1 ∧ R (s.newFunction c).2 (s'.newFunction c').2 := by
  refine ⟨?_, matching.renews stores⟩
  simp only [newFunction, matching.fresh stores, same]

/- A function that is hoisted may have another line and another body. -/
theorem hoistsFunction {line line' : Nat} {name : String} {parameters : List String}
    {body body' : List Node} {scope : Scope}
    (same : ∀ i, g (.function i ⟨name, parameters, body, scope⟩) =
      .function i ⟨name, parameters, body', scope⟩) :
    R (hoistNode scope s (.function line name parameters body))
      (hoistNode scope s' (.function line' name parameters body')) := by
  obtain ⟨made, after⟩ := makesFunction matching stores same
  simp only [hoistNode, made]
  exact matching.defines after _ name _

end Frames

theorem hoistsNames (scope : Scope) (names : List String) {s s' : Store} (stores : R s s') :
    R (names.foldl (fun s name => s.hoist scope name) s)
      (names.foldl (fun s name => s.hoist scope name) s') := by
  induction names generalizing s s' with
  | nil => exact stores
  | cons name names ih => exact ih (hoistsName matching stores scope name)

theorem bindsParameters (frame : Nat) (names : List String) (values : List Value) {s s' : Store}
    (stores : R s s') :
    R (bindParameters s frame names values) (bindParameters s' frame names (values.map g)) := by
  induction names generalizing s s' values with
  | nil => exact stores
  | cons name names ih =>
    have head : (values.map g).headD .undefined = g (values.headD .undefined) := by
      cases values with
      | nil => exact matching.undefined.symm
      | cons v values => rfl
    rw [bindParameters, bindParameters, head, ← List.map_tail]
    exact ih values.tail (matching.defines stores frame name _)

end Matching

theorem localDefined (s : Store) (i : Nat) (name : String) (v : Value) (other : String) (j : Nat) :
    (s.define i name v).local? other j =
      if i = j ∧ j < s.frames.size ∧ other = name then some v else s.local? other j := by
  simp only [local?, defineFrames]
  cases found : s.frames[j]? with
  | none =>
    have outside : ¬ j < s.frames.size := by
      rw [Array.getElem?_eq_none_iff] at found
      omega
    simp [outside]
  | some f =>
    obtain ⟨inside, _⟩ := Array.getElem?_eq_some_iff.mp found
    by_cases here : i = j
    · simp [here, inside, Bindings.lookupInsert]
    · simp [here]

theorem localEntered (s : Store) (isFunction : Bool) (outer : List Nat) (name : String) (i : Nat) :
    (s.enter isFunction outer).2.local? name i = s.local? name i := by
  simp only [local?, enter, Array.getElem?_push]
  split
  · rename_i last
    simp [last]
  · rfl

theorem kindEntered (s : Store) (isFunction : Bool) (outer : List Nat) (i : Nat) :
    (s.enter isFunction outer).2.isFunction i =
      if i = s.frames.size then isFunction else s.isFunction i := by
  simp only [Store.isFunction, enter, Array.getElem?_push]
  split <;> rfl

/- What evaluation can tell of two stores: the order of the bindings in a frame is not part of it. -/
structure Corresponds (g : Value → Value) (s s' : Store) : Prop where
  locals : ∀ name i, s'.local? name i = (s.local? name i).map g
  kinds : ∀ i, s'.isFunction i = s.isFunction i
  size : s'.frames.size = s.frames.size
  fresh : s'.fresh = s.fresh

theorem correspondsMatch {g : Value → Value} (undefined : g .undefined = .undefined) :
    Matching g (Corresponds g) where
  undefined := undefined
  locals h := h.locals
  kinds h := h.kinds
  size h := h.size
  fresh h := h.fresh
  defines h i name v := by
    refine ⟨?_, ?_, ?_, h.fresh⟩
    · intro other j
      simp only [localDefined, h.size, h.locals]
      split <;> rfl
    · intro j
      rw [kindDefined, kindDefined, h.kinds]
    · rw [sizeDefined, sizeDefined, h.size]
  enters h isFunction outer := by
    refine ⟨?_, ?_, ?_, h.fresh⟩
    · intro name i
      rw [localEntered, localEntered, h.locals]
    · intro i
      rw [kindEntered, kindEntered, h.size, h.kinds]
    · simp only [enter, Array.size_push, h.size]
  renews h := ⟨h.locals, h.kinds, h.size, congrArg (· + 1) h.fresh⟩

end Store

end EventScript
