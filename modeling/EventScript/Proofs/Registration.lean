import EventScript.Proofs.Contents

/-! Registering listeners. The entries stand in increasing order of their events, so
that each event has one entry. A listener that is registered comes after those that
its event has, and touches no other event. -/
namespace EventScript.Registry

variable {α : Type}

def Sorted (es : List (String × List α)) : Prop := es.Pairwise fun a b => a.1 < b.1

theorem sortedEmpty : Sorted (empty : Registry α).entries := .nil

theorem insertFirst {event : String} {listener : α} {es : List (String × List α)}
    {e : String × List α} (h : e ∈ insertEntry event listener es) :
    e.1 = event ∨ ∃ f ∈ es, e.1 = f.1 := by
  induction es with
  | nil =>
    rw [insertEntry, List.mem_singleton] at h
    exact .inl (congrArg Prod.fst h)
  | cons entry es ih =>
    unfold insertEntry at h
    split at h
    · rcases List.mem_cons.mp h with rfl | member
      · exact .inr ⟨entry, List.mem_cons_self, rfl⟩
      · exact .inr ⟨e, List.mem_cons_of_mem _ member, rfl⟩
    · split at h
      · rcases List.mem_cons.mp h with rfl | member
        · exact .inl rfl
        · exact .inr ⟨e, member, rfl⟩
      · rcases List.mem_cons.mp h with rfl | member
        · exact .inr ⟨_, List.mem_cons_self, rfl⟩
        · rcases ih member with same | ⟨f, inside, same⟩
          · exact .inl same
          · exact .inr ⟨f, List.mem_cons_of_mem _ inside, same⟩

theorem insertSorted {es : List (String × List α)} (sorted : Sorted es) (event : String)
    (listener : α) : Sorted (insertEntry event listener es) := by
  induction es with
  | nil => exact List.pairwise_singleton _ _
  | cons entry es ih =>
    obtain ⟨above, rest⟩ := List.pairwise_cons.mp sorted
    unfold insertEntry
    split
    · exact List.pairwise_cons.mpr ⟨above, rest⟩
    · rename_i other
      split
      · rename_i below
        refine List.pairwise_cons.mpr ⟨?_, sorted⟩
        intro f member
        rcases List.mem_cons.mp member with rfl | member
        · exact below
        · exact String.lt_trans below (above f member)
      · rename_i notBelow
        refine List.pairwise_cons.mpr ⟨?_, ih rest⟩
        intro f member
        rcases insertFirst member with same | ⟨g, inside, same⟩
        · rw [same]
          rcases Std.lt_trichotomy event entry.1 with less | equal | more
          · exact absurd less notBelow
          · exact absurd equal other
          · exact more
        · rw [same]
          exact above g inside

theorem registerSorted {r : Registry α} (sorted : Sorted r.entries) (event : String) (listener : α) :
    Sorted (r.register event listener).entries := insertSorted sorted event listener

theorem lookupAbove {event : String} {es : List (String × List α)}
    (above : ∀ e ∈ es, event < e.1) : es.lookup event = none := by
  rw [List.lookup_eq_none_iff]
  intro e member
  rw [bne_iff_ne]
  intro same
  have less := above e member
  rw [← same] at less
  exact String.lt_irrefl event less

theorem lookupInserted {es : List (String × List α)} (sorted : Sorted es) (event other : String)
    (listener : α) :
    (insertEntry event listener es).lookup other =
      if other = event then some ((es.lookup event).getD [] ++ [listener]) else es.lookup other := by
  induction es with
  | nil => rw [insertEntry, lookupCons]; rfl
  | cons entry es ih =>
    obtain ⟨above, rest⟩ := List.pairwise_cons.mp sorted
    obtain ⟨e, ls⟩ := entry
    unfold insertEntry
    split
    · rename_i here
      subst here
      simp only [lookupCons]
      split <;> simp
    · rename_i apart
      split
      · rename_i below
        have absent : ((e, ls) :: es).lookup event = none := by
          refine lookupAbove ?_
          intro f member
          rcases List.mem_cons.mp member with rfl | member
          · exact below
          · exact String.lt_trans below (above f member)
        rw [absent, lookupCons]
        rfl
      · simp only [lookupCons, ih rest, if_neg apart]
        by_cases here : other = e
        · subst here
          rw [if_pos rfl, if_neg (Ne.symm apart), if_pos rfl]
        · rw [if_neg here, if_neg here]

theorem listenersRegistered {r : Registry α} (sorted : Sorted r.entries) (event other : String)
    (listener : α) :
    (r.register event listener).listeners other =
      if other = event then r.listeners event ++ [listener] else r.listeners other := by
  simp only [listeners, register, lookupInserted sorted]
  split <;> rfl

/- The entries of all events but one. -/
def others (event : String) (es : List (String × List α)) : List (String × List α) :=
  es.filter fun e => e.1 ≠ event

theorem othersHere {event : String} (ls : List α) (es : List (String × List α)) :
    others event ((event, ls) :: es) = others event es := by
  simp [others]

theorem othersApart {event e : String} (apart : e ≠ event) (ls : List α)
    (es : List (String × List α)) : others event ((e, ls) :: es) = (e, ls) :: others event es := by
  simp [others, apart]

theorem othersLookup {event other : String} (apart : other ≠ event) (es : List (String × List α)) :
    (others event es).lookup other = es.lookup other := by
  induction es with
  | nil => rfl
  | cons entry es ih =>
    obtain ⟨e, ls⟩ := entry
    by_cases here : e = event
    · subst here
      rw [othersHere, ih, lookupCons, if_neg apart]
    · rw [othersApart here, lookupCons, lookupCons, ih]

theorem othersListeners {r q : Registry α} {event other : String}
    (same : others event r.entries = others event q.entries) (apart : other ≠ event) :
    q.listeners other = r.listeners other := by
  rw [listeners, listeners, ← othersLookup apart q.entries, ← same, othersLookup apart]

theorem othersInsertedHere (event : String) (listener : α) (es : List (String × List α)) :
    others event (insertEntry event listener es) = others event es := by
  induction es with
  | nil => exact othersHere _ _
  | cons entry es ih =>
    obtain ⟨e, ls⟩ := entry
    unfold insertEntry
    split
    · rename_i here
      subst here
      rw [othersHere, othersHere]
    · rename_i apart
      split
      · rw [othersHere]
      · rw [othersApart (Ne.symm apart), othersApart (Ne.symm apart), ih]

theorem insertAbove {event : String} {es : List (String × List α)} (above : ∀ e ∈ es, event < e.1)
    (listener : α) : insertEntry event listener es = (event, [listener]) :: es := by
  cases es with
  | nil => rfl
  | cons entry es =>
    have less := above entry List.mem_cons_self
    have apart : event ≠ entry.1 := by
      intro same
      rw [← same] at less
      exact String.lt_irrefl event less
    rw [insertEntry, if_neg apart, if_pos less]

theorem othersInserted {es : List (String × List α)} (sorted : Sorted es) {event other : String}
    (apart : other ≠ event) (listener : α) :
    others event (insertEntry other listener es) = insertEntry other listener (others event es) := by
  induction es with
  | nil => exact othersApart apart _ _
  | cons entry es ih =>
    obtain ⟨above, rest⟩ := List.pairwise_cons.mp sorted
    obtain ⟨e, ls⟩ := entry
    have later := ih rest
    by_cases here : e = event
    · subst here
      by_cases below : other < e
      · -- The entry that is left out is the one that the new entry stands before.
        have further : ∀ f ∈ others e es, other < f.1 := by
          intro f member
          exact String.lt_trans below (above f (List.mem_filter.mp member).1)
        rw [insertEntry, if_neg apart, if_pos below, othersApart apart, othersHere,
          insertAbove further]
      · rw [insertEntry, if_neg apart, if_neg below, othersHere, othersHere, later]
    · rw [othersApart here, insertEntry, insertEntry]
      split
      · rw [othersApart here]
      · split
        · rw [othersApart apart, othersApart here]
        · rw [othersApart here, later]

end EventScript.Registry
