import EventScript.Proofs.Running

/-! Function bodies put in another form. A map of bodies goes through values, frames and
listeners; texts, numbers, truth and identity of values do not depend on it. -/
namespace EventScript

namespace Value

mutual

def mapBodies (f : List Node → List Node) : Value → Value
  | undefined => undefined
  | null => null
  | bool b => bool b
  | number n => number n
  | text s => text s
  | list identity items => list identity (mapBodiesAll f items)
  | function identity closure => function identity { closure with body := f closure.body }
  | builtin b => builtin b

def mapBodiesAll (f : List Node → List Node) : List Value → List Value
  | [] => []
  | v :: vs => mapBodies f v :: mapBodiesAll f vs

end

variable (f g : List Node → List Node)

@[simp] theorem mapBodiesAllMap (vs : List Value) : mapBodiesAll f vs = vs.map (mapBodies f) := by
  induction vs with
  | nil => rfl
  | cons v vs ih => rw [mapBodiesAll, ih, List.map_cons]

mutual

theorem mapBodiesTwice : ∀ v : Value, mapBodies g (mapBodies f v) = mapBodies (g ∘ f) v
  | undefined | null | bool _ | number _ | text _ | function .. | builtin _ => by
    simp only [mapBodies, Function.comp_apply]
  | list _ items => by simp only [mapBodies, mapBodiesAllTwice items]

theorem mapBodiesAllTwice :
    ∀ vs : List Value, mapBodiesAll g (mapBodiesAll f vs) = mapBodiesAll (g ∘ f) vs
  | [] => by simp only [mapBodiesAll]
  | v :: vs => by simp only [mapBodiesAll, mapBodiesTwice v, mapBodiesAllTwice vs]

end

@[simp] theorem mapBodiesPresent (v : Value) : (mapBodies f v).isPresent = v.isPresent := by
  cases v <;> rfl

mutual

@[simp] theorem mapBodiesText : ∀ v : Value, (mapBodies f v).toText = v.toText
  | undefined | null | bool _ | number _ | text _ | function .. | builtin _ => by
    simp only [mapBodies, toText]
  | list _ items => by rw [mapBodies, toText, toText, mapBodiesItemTexts items]

theorem mapBodiesItemTexts : ∀ vs : List Value, itemTexts (mapBodiesAll f vs) = itemTexts vs
  | [] => by simp only [mapBodiesAll]
  | v :: vs => by
    simp only [mapBodiesAll, itemTexts, mapBodiesPresent, mapBodiesText v, mapBodiesItemTexts vs]

end

@[simp] theorem mapBodiesTruthy (v : Value) : (mapBodies f v).isTruthy = v.isTruthy := by
  cases v <;> simp only [mapBodies, isTruthy]

@[simp] theorem mapBodiesConcatenates (v : Value) :
    (mapBodies f v).concatenates = v.concatenates := by
  cases v <;> rfl

@[simp] theorem mapBodiesNumber (v : Value) : (mapBodies f v).toNumber = v.toNumber := by
  cases v with
  | list identity items =>
    have same := mapBodiesText f (list identity items)
    rw [mapBodies] at same
    rw [mapBodies, toNumber, toNumber, same]
  | _ => rfl

@[simp] theorem mapBodiesSame (v w : Value) : (mapBodies f v).same (mapBodies f w) = v.same w := by
  cases v <;> cases w <;> rfl

@[simp] theorem mapBodiesLiteral (l : Literal) : mapBodies f (ofLiteral l) = ofLiteral l := by
  cases l <;> rfl

end Value

theorem BinaryOp.applyMapped (f : List Node → List Node) (op : BinaryOp) (v w : Value) :
    op.apply (v.mapBodies f) (w.mapBodies f) = (op.apply v w).mapBodies f := by
  cases op with
  | add =>
    simp only [apply, Value.add, Value.mapBodiesConcatenates, Value.mapBodiesText,
      Value.mapBodiesNumber]
    split <;> rfl
  | _ => simp only [apply, Value.mapBodiesNumber, Value.mapBodiesSame, Value.mapBodies]

namespace Frame

def mapBodies (f : List Node → List Node) (frame : Frame) : Frame :=
  { frame with bindings := frame.bindings.map fun b => (b.1, b.2.mapBodies f) }

end Frame

namespace Store

variable (f : List Node → List Node)

def mapBodies (s : Store) : Store := { s with frames := s.frames.map (Frame.mapBodies f) }

theorem insertMapped (name : String) (v : Value) (bs : Bindings) :
    (Bindings.insert name v bs).map (fun b => (b.1, b.2.mapBodies f)) =
      Bindings.insert name (v.mapBodies f) (bs.map fun b => (b.1, b.2.mapBodies f)) := by
  induction bs with
  | nil => rfl
  | cons b bs ih =>
    simp only [Bindings.insert, List.map_cons]
    split <;> simp [ih]

theorem lookupMapped (name : String) (bs : Bindings) :
    (bs.map fun b => (b.1, b.2.mapBodies f)).lookup name =
      (bs.lookup name).map (Value.mapBodies f) := by
  induction bs with
  | nil => rfl
  | cons b bs ih =>
    obtain ⟨n, v⟩ := b
    simp only [List.map_cons, List.lookup_cons, ih]
    cases name == n <;> rfl

@[simp] theorem localMapped (s : Store) (name : String) (frame : Nat) :
    (s.mapBodies f).local? name frame = (s.local? name frame).map (Value.mapBodies f) := by
  simp only [local?, mapBodies, Array.getElem?_map]
  cases s.frames[frame]? with
  | none => rfl
  | some fr => exact lookupMapped f name fr.bindings

@[simp] theorem isFunctionMapped (s : Store) (frame : Nat) :
    (s.mapBodies f).isFunction frame = s.isFunction frame := by
  simp only [isFunction, mapBodies, Array.getElem?_map]
  cases s.frames[frame]? <;> rfl

theorem defineMapped (s : Store) (frame : Nat) (name : String) (v : Value) :
    (s.define frame name v).mapBodies f = (s.mapBodies f).define frame name (v.mapBodies f) := by
  simp only [define, mapBodies, Store.mk.injEq, and_true]
  apply Array.ext_getElem?
  intro i
  simp only [Array.getElem?_map, Array.getElem?_modify]
  split
  · cases s.frames[i]? with
    | none => rfl
    | some fr => simp [Frame.mapBodies, insertMapped]
  · rfl

theorem enterMapped (s : Store) (isFunction : Bool) (outer : List Nat) :
    (s.mapBodies f).enter isFunction outer =
      ((s.enter isFunction outer).1, (s.enter isFunction outer).2.mapBodies f) := by
  simp [enter, mapBodies, Frame.mapBodies]

end Store

def Datum.mapBodies (f : List Node → List Node) (d : Datum) : Datum :=
  { d with frames := d.frames.map (Frame.mapBodies f), value := d.value.mapBodies f }

theorem Store.receiveMapped (f : List Node → List Node) (s : Store) (d : Datum) :
    (s.receive d).mapBodies f = (s.mapBodies f).receive (d.mapBodies f) := by
  simp [receive, mapBodies, Datum.mapBodies]

namespace Registry

variable {α β : Type}

def map (f : α → β) (r : Registry α) : Registry β := ⟨r.entries.map fun e => (e.1, e.2.map f)⟩

theorem insertEntryMapped (f : α → β) (event : String) (listener : α)
    (es : List (String × List α)) :
    (insertEntry event listener es).map (fun e => (e.1, e.2.map f)) =
      insertEntry event (f listener) (es.map fun e => (e.1, e.2.map f)) := by
  induction es with
  | nil => rfl
  | cons e es ih =>
    simp only [insertEntry, List.map_cons]
    split
    · simp
    · split <;> simp [ih]

theorem registerMapped (f : α → β) (r : Registry α) (event : String) (listener : α) :
    (r.register event listener).map f = (r.map f).register event (f listener) := by
  simp only [register, map, insertEntryMapped]

theorem listenersMapped (f : α → β) (r : Registry α) (event : String) :
    (r.map f).listeners event = (r.listeners event).map f := by
  simp only [listeners, map]
  induction r.entries with
  | nil => rfl
  | cons e es ih =>
    obtain ⟨name, ls⟩ := e
    simp only [List.map_cons, List.lookup_cons]
    cases event == name with
    | true => rfl
    | false => exact ih

end Registry

namespace Machine

def mapBodies (f : List Node → List Node) (m : Machine) : Machine :=
  { m with
    store := m.store.mapBodies f
    registry := m.registry.map (Value.mapBodies f)
    language := m.language.mapBodies f }

theorem startMapped (f : List Node → List Node) (answers : List (Option String)) (patience : Nat) :
    (start answers patience).mapBodies f = start answers patience := by
  simp [start, mapBodies, Store.mapBodies, Frame.mapBodies, initialBindings, Builtin.all,
    Registry.map, Registry.empty, Value.mapBodies]

end Machine

end EventScript
