import EventScript.Evaluation

/-! What a machine holds: values bound to names in frames, and listeners of events.
Where something is so of all that is held, it stays so if it is so of what comes in. -/
namespace EventScript

open Evaluation

variable {P : String → Value → Prop}

theorem lookupMember {α : Type} {name : String} {value : α} {bs : List (String × α)}
    (h : bs.lookup name = some value) : (name, value) ∈ bs := by
  obtain ⟨before, after, rfl, _⟩ := List.lookup_eq_some_iff.mp h
  exact List.mem_append_right before List.mem_cons_self

theorem lookupCons {α : Type} (e x : String) (value : α) (es : List (String × α)) :
    ((e, value) :: es).lookup x = if x = e then some value else es.lookup x := by
  rw [List.lookup_cons]
  by_cases same : x = e
  · simp [same]
  · have apart : (x == e) = false := by simpa using same
    simp [same, apart]

theorem Bindings.insertEach {name : String} {value : Value} {bs : Bindings}
    (held : ∀ b ∈ bs, P b.1 b.2) (given : P name value) :
    ∀ b ∈ insert name value bs, P b.1 b.2 := by
  induction bs with
  | nil => exact List.forall_mem_singleton.mpr given
  | cons b bs ih =>
    obtain ⟨n, v⟩ := b
    obtain ⟨first, rest⟩ := List.forall_mem_cons.mp held
    unfold insert
    split
    · rename_i same
      exact List.forall_mem_cons.mpr ⟨by rw [same]; exact given, rest⟩
    · exact List.forall_mem_cons.mpr ⟨first, ih rest⟩

namespace Store

def Each (P : String → Value → Prop) (s : Store) : Prop :=
  ∀ (i : Nat) (frame : Frame), s.frames[i]? = some frame → ∀ b ∈ frame.bindings, P b.1 b.2

variable {s : Store} {scope : Scope} {name : String} {value : Value}

theorem getEach (held : s.Each P) (found : s.get? scope name = some value) : P name value := by
  obtain ⟨i, _, here⟩ := List.exists_of_findSome?_eq_some found
  obtain ⟨frame, inside, bound⟩ := Option.bind_eq_some_iff.mp here
  exact held i frame inside _ (lookupMember bound)

theorem defineFrames (s : Store) (frame : Nat) (name : String) (value : Value) (i : Nat) :
    (s.define frame name value).frames[i]? = s.frames[i]?.map fun f =>
      if frame = i then { f with bindings := f.bindings.insert name value } else f := by
  simp only [define, Array.getElem?_modify]
  split
  · rfl
  · simp

theorem kindDefined (s : Store) (i : Nat) (name : String) (v : Value) (j : Nat) :
    (s.define i name v).isFunction j = s.isFunction j := by
  simp only [isFunction, defineFrames]
  cases s.frames[j]? with
  | none => rfl
  | some f => by_cases here : i = j <;> simp [here]

theorem sizeDefined (s : Store) (i : Nat) (name : String) (v : Value) :
    (s.define i name v).frames.size = s.frames.size := by
  simp [define]

theorem eachDefine {frame : Nat} (held : s.Each P) (given : P name value) :
    (s.define frame name value).Each P := by
  intro i f here
  rw [defineFrames] at here
  obtain ⟨old, before, rfl⟩ := Option.map_eq_some_iff.mp here
  have kept := held i old before
  split
  · exact Bindings.insertEach kept given
  · exact kept

theorem eachEnter (held : s.Each P) (isFunction : Bool) (outer : List Nat) :
    (s.enter isFunction outer).2.Each P := by
  intro i f here
  simp only [enter, Array.getElem?_push] at here
  split at here
  · cases here
    exact List.forall_mem_nil _
  · exact held i f here

theorem eachReceive {d : Datum} (held : s.Each P)
    (given : ∀ frame ∈ d.frames, ∀ b ∈ frame.bindings, P b.1 b.2) : (s.receive d).Each P := by
  intro i f here
  rcases Array.mem_append.mp (Array.mem_of_getElem? here) with own | new
  · obtain ⟨j, old⟩ := Array.mem_iff_getElem?.mp own
    exact held j f old
  · exact given f new

section Undefined

variable (undefined : ∀ name, P name .undefined)
include undefined

theorem eachHoistName (held : s.Each P) (scope : Scope) (name : String) :
    (s.hoist scope name).Each P := by
  simp only [hoist]
  split
  · exact held
  · exact eachDefine held (undefined name)

theorem eachHoistNames (held : s.Each P) (scope : Scope) (names : List String) :
    (names.foldl (fun s name => s.hoist scope name) s).Each P := by
  induction names generalizing s with
  | nil => exact held
  | cons name names ih => exact ih (eachHoistName undefined held scope name)

theorem eachHoist {ns : List Node} (held : s.Each P)
    (made : ∀ line name parameters body, Node.function line name parameters body ∈ ns →
      ∀ identity, P name (.function identity ⟨name, parameters, body, scope⟩)) :
    (Evaluation.hoist scope s ns).Each P := by
  induction ns generalizing s with
  | nil => exact held
  | cons n ns ih =>
    have rest := fun line name parameters body member =>
      made line name parameters body (List.mem_cons_of_mem _ member)
    refine ih ?_ rest
    cases n with
    | function line name parameters body =>
      exact eachDefine held (made line name parameters body List.mem_cons_self _)
    | _ => exact eachHoistNames undefined held scope _

theorem eachParameters {frame : Nat} {arguments : List Value} (held : s.Each P) (names : List String)
    (given : ∀ v ∈ arguments, ∀ name, P name v) :
    (bindParameters s frame names arguments).Each P := by
  induction names generalizing s arguments with
  | nil => exact held
  | cons name names ih =>
    cases arguments with
    | nil => exact ih (eachDefine held (undefined name)) given
    | cons v vs =>
      obtain ⟨first, rest⟩ := List.forall_mem_cons.mp given
      exact ih (eachDefine held (first name)) rest

end Undefined

end Store

namespace Registry

def Each (P : String → Value → Prop) (r : Registry Value) : Prop :=
  ∀ entry ∈ r.entries, ∀ listener ∈ entry.2, P entry.1 listener

variable {r : Registry Value} {event : String} {listener : Value}

theorem registerEach (held : r.Each P) (given : P event listener) :
    (r.register event listener).Each P := by
  obtain ⟨entries⟩ := r
  simp only [Each, register] at held ⊢
  induction entries with
  | nil => exact List.forall_mem_singleton.mpr (List.forall_mem_singleton.mpr given)
  | cons entry entries ih =>
    obtain ⟨first, others⟩ := List.forall_mem_cons.mp held
    have rest := ih others
    unfold insertEntry
    split
    · rename_i same
      refine List.forall_mem_cons.mpr ⟨?_, others⟩
      exact List.forall_mem_append.mpr ⟨first, List.forall_mem_singleton.mpr (same ▸ given)⟩
    · split
      · exact List.forall_mem_cons.mpr ⟨List.forall_mem_singleton.mpr given, held⟩
      · exact List.forall_mem_cons.mpr ⟨first, rest⟩

theorem listenersEach (held : r.Each P) (event : String) : ∀ l ∈ r.listeners event, P event l := by
  intro l member
  unfold listeners at member
  cases found : r.entries.lookup event with
  | none =>
    rw [found] at member
    contradiction
  | some ls =>
    rw [found] at member
    exact held _ (lookupMember found) l member

end Registry

theorem rangeItemsNumbers {v : Value} {items : List Value} (h : Builtin.rangeItems v = .ok items) :
    ∀ item ∈ items, ∃ n, item = .number n := by
  unfold Builtin.rangeItems at h
  split at h
  · split at h
    · contradiction
    · cases h
      intro item member
      obtain ⟨k, _, rfl⟩ := List.mem_map.mp member
      exact ⟨_, rfl⟩
  · cases h
    intro item member
    exact ⟨_, List.mem_singleton.mp member⟩

mutual

/- What the functions and built-ins in a value are like, also those in lists. -/
def Value.Carries (f : Closure → Prop) (g : Builtin → Prop) : Value → Prop
  | .function _ c => f c
  | .builtin b => g b
  | .list _ items => Value.CarryAll f g items
  | _ => True

def Value.CarryAll (f : Closure → Prop) (g : Builtin → Prop) : List Value → Prop
  | [] => True
  | v :: vs => Value.Carries f g v ∧ Value.CarryAll f g vs

end

namespace Value

variable {f : Closure → Prop} {g : Builtin → Prop}

theorem carryAllIff {vs : List Value} : CarryAll f g vs ↔ ∀ v ∈ vs, v.Carries f g := by
  induction vs with
  | nil => simp [CarryAll]
  | cons v vs ih => simp [CarryAll, ih]

theorem carriesList {identity : Nat} {items : List Value} :
    (Value.list identity items).Carries f g ↔ ∀ v ∈ items, v.Carries f g := by
  rw [Carries, carryAllIff]

theorem carriesLiteral (l : Literal) : (Value.ofLiteral l).Carries f g := by
  cases l <;> simp only [ofLiteral, Carries]

theorem carriesApplied (op : BinaryOp) (v w : Value) : (op.apply v w).Carries f g := by
  cases op with
  | add =>
    simp only [BinaryOp.apply, Value.add]
    split <;> simp only [Carries]
  | _ => simp only [BinaryOp.apply, Carries]

end Value

end EventScript
