/-! Listeners by event type. Types stand in increasing order, each with its
listeners in the order in which they were registered. -/
namespace EventScript

structure Registry (α : Type) where
  entries : List (String × List α)

namespace Registry

variable {α : Type}

def empty : Registry α := ⟨[]⟩

def insertEntry (event : String) (listener : α) : List (String × List α) → List (String × List α)
  | [] => [(event, [listener])]
  | (e, ls) :: rest =>
    if event = e then (e, ls ++ [listener]) :: rest
    else if event < e then (event, [listener]) :: (e, ls) :: rest
    else (e, ls) :: insertEntry event listener rest

def register (r : Registry α) (event : String) (listener : α) : Registry α :=
  ⟨insertEntry event listener r.entries⟩

def listeners (r : Registry α) (event : String) : List α := (r.entries.lookup event).getD []

def eventTypes (r : Registry α) : List String := r.entries.map Prod.fst

def size (r : Registry α) : Nat := r.entries.foldl (fun n e => n + e.2.length) 0

def isEmpty (r : Registry α) : Bool := r.entries.isEmpty

end Registry

def launchEvent : String := "onLaunch"

def keyEvent (key : String) : String := "keypress_" ++ key

end EventScript
