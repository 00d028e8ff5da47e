import EventScript.Proofs.Contents

/-! Which names the frames of a store bind. Defining a name adds it to one frame, hoisting
adds what a body declares, and entering a frame leaves the others alone. -/
namespace EventScript

open Evaluation

theorem Bindings.lookupInsert (name other : String) (value : Value) (bs : Bindings) :
    (insert name value bs).lookup other = if other = name then some value else bs.lookup other := by
  induction bs with
  | nil => rw [insert, lookupCons]
  | cons b bs ih =>
    obtain ⟨n, v⟩ := b
    rw [insert, lookupCons]
    split
    · rename_i same
      rw [lookupCons, same]
      split <;> rfl
    · rename_i apart
      rw [lookupCons, ih]
      by_cases here : other = n
      · rw [if_pos here, if_pos here, if_neg (by rw [here]; exact apart)]
      · rw [if_neg here, if_neg here]

theorem Scope.rootOuter (frame : Nat) (scope : Scope) :
    (⟨frame, scope.path⟩ : Scope).root = scope.root := by
  simp [root, path, List.getLast?_cons]

namespace Store

variable {s t u : Store} {i frame : Nat} {scope : Scope} {x name : String} {value : Value}

def Named (s : Store) (i : Nat) (x : String) : Prop := (s.local? x i).isSome = true

theorem functionInside (h : s.isFunction i = true) : i < s.frames.size := by
  rw [isFunction] at h
  cases found : s.frames[i]? with
  | none =>
    rw [found] at h
    contradiction
  | some f => exact (Array.getElem?_eq_some_iff.mp found).1

theorem namedInside (h : s.Named i x) : i < s.frames.size := by
  rw [Named, local?] at h
  cases found : s.frames[i]? with
  | none =>
    rw [found] at h
    contradiction
  | some f => exact (Array.getElem?_eq_some_iff.mp found).1

/- The second store has the frames of the first, of the same kinds, and a frame binds the
given names besides its own. -/
structure Adds (frame : Nat) (xs : List String) (s t : Store) : Prop where
  size : t.frames.size = s.frames.size
  kinds : ∀ i, t.isFunction i = s.isFunction i
  names : ∀ i x, t.Named i x ↔ s.Named i x ∨ i = frame ∧ x ∈ xs

theorem addsNone (same : t.frames = s.frames) (frame : Nat) : Adds frame [] s t where
  size := by rw [same]
  kinds i := by simp only [isFunction, same]
  names i x := by simp [Named, local?, same]

theorem addsTrans {xs ys : List String} (first : Adds frame xs s t) (second : Adds frame ys t u) :
    Adds frame (xs ++ ys) s u where
  size := second.size.trans first.size
  kinds i := (second.kinds i).trans (first.kinds i)
  names i x := by
    rw [second.names, first.names, List.mem_append, or_assoc, ← and_or_left]

theorem addsDefine (inside : frame < s.frames.size) (name : String) (value : Value) :
    Adds frame [name] s (s.define frame name value) where
  size := sizeDefined s frame name value
  kinds i := kindDefined s frame name value i
  names i x := by
    simp only [Named, local?, defineFrames, List.mem_singleton]
    by_cases here : frame = i
    · subst here
      rw [Array.getElem?_eq_getElem inside]
      by_cases same : x = name <;> simp [Bindings.lookupInsert, same]
    · have apart : ¬ i = frame := fun same => here same.symm
      simp [here, apart]

/- The frame that a scope declares in, where it is the scope's own. -/
theorem functionFrameOwn (function : s.isFunction scope.frame = true) :
    s.functionFrame scope = scope.frame := by
  simp [functionFrame, Scope.path, function]

theorem addsHoistName (function : s.isFunction scope.frame = true) (name : String) :
    Adds scope.frame [name] s (s.hoist scope name) := by
  simp only [hoist, functionFrameOwn function]
  split
  · rename_i bound
    refine ⟨rfl, fun _ => rfl, ?_⟩
    intro i x
    constructor
    · exact .inl
    · rintro (named | ⟨rfl, member⟩)
      · exact named
      · rw [List.mem_singleton.mp member]
        exact bound
  · exact addsDefine (functionInside function) name .undefined

theorem addsHoistNames (function : s.isFunction scope.frame = true) (names : List String) :
    Adds scope.frame names s (names.foldl (fun s name => s.hoist scope name) s) := by
  induction names generalizing s with
  | nil => exact addsNone rfl _
  | cons name names ih =>
    have first := addsHoistName function name
    have still := (first.kinds scope.frame).trans function
    exact addsTrans first (ih still)

theorem addsHoistNode (function : s.isFunction scope.frame = true) (n : Node) :
    Adds scope.frame n.declaredNames s (hoistNode scope s n) := by
  cases n with
  | function line name parameters body =>
    have made : Adds scope.frame [] s (s.newFunction ⟨name, parameters, body, scope⟩).2 :=
      ⟨rfl, fun _ => rfl, by simp [Named, local?, newFunction]⟩
    have still := (made.kinds scope.frame).trans function
    exact addsTrans made (addsDefine (functionInside still) name _)
  | _ => exact addsHoistNames function _

theorem addsHoist (function : s.isFunction scope.frame = true) (ns : List Node) :
    Adds scope.frame (Node.declaredIn ns) s (Evaluation.hoist scope s ns) := by
  induction ns generalizing s with
  | nil => exact addsNone rfl _
  | cons n ns ih =>
    have first := addsHoistNode function n
    have still := (first.kinds scope.frame).trans function
    exact addsTrans first (ih still)

theorem addsParameters (inside : frame < s.frames.size) (names : List String) (values : List Value) :
    Adds frame names s (bindParameters s frame names values) := by
  induction names generalizing s values with
  | nil => exact addsNone rfl _
  | cons name names ih =>
    have first := addsDefine inside name (values.headD .undefined)
    have still : frame < (s.define frame name (values.headD .undefined)).frames.size := by
      rw [first.size]
      exact inside
    exact addsTrans first (ih still values.tail)

/- The second store has the frames of the first, of the same kinds and with the same names,
except that the first frame may bind new ones. -/
structure Extends (new : String → Prop) (s t : Store) : Prop where
  size : s.frames.size ≤ t.frames.size
  kinds : ∀ i < s.frames.size, t.isFunction i = s.isFunction i
  kept : ∀ i < s.frames.size, ∀ x, s.Named i x → t.Named i x
  fresh : ∀ i < s.frames.size, ∀ x, t.Named i x → s.Named i x ∨ i = 0 ∧ new x

variable {new : String → Prop}

theorem extendsOld (size : s.frames.size ≤ t.frames.size)
    (old : ∀ i < s.frames.size, t.frames[i]? = s.frames[i]?) : Extends new s t where
  size := size
  kinds i inside := by simp only [isFunction, old i inside]
  kept i inside x named := by simpa only [Named, local?, old i inside] using named
  fresh i inside x named := .inl (by simpa only [Named, local?, old i inside] using named)

theorem extendsFrames (same : t.frames = s.frames) : Extends new s t :=
  extendsOld (Nat.le_of_eq (congrArg Array.size same.symm)) fun i _ => by rw [same]

theorem extendsTrans (first : Extends new s t) (second : Extends new t u) : Extends new s u where
  size := Nat.le_trans first.size second.size
  kinds i inside := by
    rw [second.kinds i (Nat.lt_of_lt_of_le inside first.size), first.kinds i inside]
  kept i inside x named :=
    second.kept i (Nat.lt_of_lt_of_le inside first.size) x (first.kept i inside x named)
  fresh i inside x named := by
    rcases second.fresh i (Nat.lt_of_lt_of_le inside first.size) x named with before | made
    · exact first.fresh i inside x before
    · exact .inr made

theorem extendsMore (h : Extends new s t) : Extends (fun _ => True) s t where
  size := h.size
  kinds := h.kinds
  kept := h.kept
  fresh i inside x named := (h.fresh i inside x named).imp_right fun made => ⟨made.1, trivial⟩

theorem extendsSame (h : Extends new s t) (inside : i < s.frames.size) (inner : i ≠ 0) :
    ∀ x, t.Named i x ↔ s.Named i x := by
  intro x
  constructor
  · intro named
    rcases h.fresh i inside x named with before | ⟨first, _⟩
    · exact before
    · exact absurd first inner
  · exact h.kept i inside x

/- What is added where it was already, at the outermost frame, or to a frame that was not
there yet. -/
theorem extendsAdds {xs : List String} (h : Extends new s t) (adds : Adds frame xs t u)
    (allowed : ∀ x ∈ xs, s.frames.size ≤ frame ∨ t.Named frame x ∨ frame = 0 ∧ new x) :
    Extends new s u where
  size := by
    rw [adds.size]
    exact h.size
  kinds i inside := (adds.kinds i).trans (h.kinds i inside)
  kept i inside x named := (adds.names i x).mpr (.inl (h.kept i inside x named))
  fresh i inside x named := by
    rcases (adds.names i x).mp named with before | ⟨rfl, member⟩
    · exact h.fresh i inside x before
    · rcases allowed x member with above | bound | made
      · exact absurd inside (Nat.not_lt.mpr above)
      · exact h.fresh i inside x bound
      · exact .inr made

theorem extendsEnter (isFunction : Bool) (outer : List Nat) :
    Extends new s (s.enter isFunction outer).2 := by
  refine extendsOld (by simp [enter]) ?_
  intro i inside
  have other : i ≠ s.frames.size := by omega
  simp [enter, Array.getElem?_push, other]

theorem extendsReceive (d : Datum) : Extends new s (s.receive d) := by
  refine extendsOld (by simp [receive]) ?_
  intro i inside
  simp [receive, Array.getElem?_append_left inside]

end Store

end EventScript
