import EventScript.Proofs.ByteOrder
import EventScript.Proofs.Registration

/-! What a registry tells of the calls that filled it. Each event is found with the listeners
that were registered for it, in the order of the calls, and an event of no call is not found.
The types, their order and emptiness are read off that; each call adds one to the size. -/
namespace EventScript

namespace Registry

variable {α : Type}

def registered (calls : List (String × α)) : Registry α :=
  calls.foldl (fun r call => r.register call.1 call.2) empty

/- The listeners of the calls for one event. -/
def called (event : String) (calls : List (String × α)) : List α :=
  (calls.filter fun call => call.1 = event).map Prod.snd

theorem calledNone (event : String) (calls : List (String × α)) :
    called event calls = [] ↔ event ∉ calls.map Prod.fst := by
  rw [called, List.map_eq_nil_iff, List.filter_eq_nil_iff]
  constructor
  · intro apart member
    obtain ⟨call, inside, same⟩ := List.mem_map.mp member
    exact apart call inside (decide_eq_true same)
  · intro absent call inside same
    exact absent (List.mem_map.mpr ⟨call, inside, of_decide_eq_true same⟩)

theorem calledHere (event : String) (listener : α) (calls : List (String × α)) :
    called event (calls ++ [(event, listener)]) = called event calls ++ [listener] := by
  simp [called]

theorem calledOther {event other : String} (apart : other ≠ event) (listener : α)
    (calls : List (String × α)) :
    called other (calls ++ [(event, listener)]) = called other calls := by
  simp [called, Ne.symm apart]

theorem typesFound (r : Registry α) (event : String) :
    event ∈ r.eventTypes ↔ r.entries.lookup event ≠ none := by
  simp [eventTypes, List.lookup_eq_none_iff]

theorem countFrom (es : List (String × List α)) (m n : Nat) :
    es.foldl (fun n e => n + e.2.length) (m + n) = es.foldl (fun n e => n + e.2.length) m + n := by
  induction es generalizing m with
  | nil => rfl
  | cons entry es ih => rw [List.foldl_cons, List.foldl_cons, Nat.add_right_comm, ih]

theorem countInserted (event : String) (listener : α) (es : List (String × List α)) (n : Nat) :
    (insertEntry event listener es).foldl (fun n e => n + e.2.length) n =
      es.foldl (fun n e => n + e.2.length) n + 1 := by
  induction es generalizing n with
  | nil => rfl
  | cons entry es ih =>
    obtain ⟨e, ls⟩ := entry
    unfold insertEntry
    split
    · rw [List.foldl_cons, List.foldl_cons, ← countFrom, List.length_append, List.length_singleton,
        Nat.add_assoc]
    split
    · rw [List.foldl_cons, List.length_singleton, countFrom]
    · rw [List.foldl_cons, List.foldl_cons, ih]

theorem sizeRegistered (r : Registry α) (event : String) (listener : α) :
    (r.register event listener).size = r.size + 1 := countInserted event listener r.entries 0

/- What a registry holds after the calls. The order of the entries is part of it, since a
lookup after an insertion is known in sorted entries only. -/
structure Records (r : Registry α) (calls : List (String × α)) : Prop where
  sorted : Sorted r.entries
  found : ∀ event, r.entries.lookup event =
    if event ∈ calls.map Prod.fst then some (called event calls) else none
  counted : r.size = calls.length

namespace Records

variable {r : Registry α} {calls : List (String × α)}

theorem listens (records : Records r calls) (event : String) :
    r.listeners event = called event calls := by
  rw [listeners, records.found]
  split
  · rfl
  · rename_i uncalled
    exact ((calledNone event calls).mpr uncalled).symm

theorem types (records : Records r calls) (event : String) :
    event ∈ r.eventTypes ↔ event ∈ calls.map Prod.fst := by
  rw [typesFound, records.found]
  split
  · rename_i here
    exact ⟨fun _ => here, fun _ => nofun⟩
  · rename_i uncalled
    exact ⟨fun found => absurd rfl found, fun here => absurd here uncalled⟩

theorem listed (records : Records r calls) {event : String} (h : event ∈ r.eventTypes) :
    r.listeners event ≠ [] := by
  rw [records.listens, Ne, calledNone]
  exact fun uncalled => uncalled ((records.types event).mp h)

theorem ordered (records : Records r calls) :
    r.eventTypes.Pairwise fun a b => Text.bytes a < Text.bytes b := by
  simp only [Text.byteOrder]
  exact List.pairwise_map.mpr records.sorted

theorem emptied (records : Records r calls) : r.isEmpty = true ↔ r.size = 0 := by
  have untyped : r.eventTypes = [] ↔ calls.map Prod.fst = [] := by
    simp only [List.eq_nil_iff_forall_not_mem, records.types]
  rw [records.counted, List.length_eq_zero_iff, ← List.map_eq_nil_iff, ← untyped, eventTypes,
    List.map_eq_nil_iff, isEmpty, List.isEmpty_iff]

theorem register (records : Records r calls) (event : String) (listener : α) :
    Records (r.register event listener) (calls ++ [(event, listener)]) where
  sorted := registerSorted records.sorted event listener
  found other := by
    rw [Registry.register, lookupInserted records.sorted]
    split
    · rename_i here
      subst here
      have before : (r.entries.lookup other).getD [] = called other calls := records.listens other
      have now : other ∈ (calls ++ [(other, listener)]).map Prod.fst := by simp
      rw [before, calledHere, if_pos now]
    · rename_i apart
      have same : other ∈ (calls ++ [(event, listener)]).map Prod.fst ↔ other ∈ calls.map Prod.fst := by
        simp [apart]
      simp only [calledOther apart, records.found, same]
  counted := by
    rw [sizeRegistered, records.counted, List.length_append, List.length_singleton]

theorem run (records : Records r calls) (more : List (String × α)) :
    Records (more.foldl (fun r call => r.register call.1 call.2) r) (calls ++ more) := by
  induction more generalizing r calls with
  | nil => rwa [List.append_nil]
  | cons call more ih =>
    have next := ih (records.register call.1 call.2)
    rwa [List.append_assoc] at next

end Records

theorem recordsEmpty : Records (empty : Registry α) [] := ⟨sortedEmpty, fun _ => rfl, rfl⟩

theorem recordsRegistered (calls : List (String × α)) : Records (registered calls) calls :=
  recordsEmpty.run calls

end Registry

open Registry

theorem registryIsAMultimap {α : Type} (calls : List (String × α)) :
    (∀ event, (registered calls).listeners event = called event calls) ∧
      (∀ event, event ∈ (registered calls).eventTypes ↔ event ∈ calls.map Prod.fst) ∧
      ((registered calls).eventTypes.Pairwise fun a b => Text.bytes a < Text.bytes b) ∧
      (registered calls).size = calls.length ∧
      (∀ event ∈ (registered calls).eventTypes, (registered calls).listeners event ≠ []) ∧
      ((registered calls).isEmpty = true ↔ (registered calls).size = 0) := by
  have records := recordsRegistered calls
  exact ⟨records.listens, records.types, records.ordered, records.counted,
    fun _ member => records.listed member, records.emptied⟩

/- Events whose characters take one, three and four bytes. -/
def festive : List (String × Nat) := [("🎉", 1), ("onLaunch", 2), ("～", 3), ("🎉", 4)]

theorem festiveListed :
    (registered festive).eventTypes = ["onLaunch", "～", "🎉"] ∧
      "🎉" ∈ (registered festive).eventTypes ∧ (registered festive).listeners "🎉" = [1, 4] ∧
      (registered festive).listeners "🎉" ≠ [] := by
  obtain ⟨listens, types, _, _, listed, _⟩ := registryIsAMultimap festive
  have member := (types "🎉").mpr (by decide)
  have found : called "🎉" festive = [1, 4] := by decide +kernel
  exact ⟨by decide +kernel, member, (listens "🎉").trans found, listed "🎉" member⟩

end EventScript
