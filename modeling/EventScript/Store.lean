import EventScript.Value.Basic
/-! The frames of a running program. Function frames, the global one among them, take
declared names; block frames hold one loop variable each. A host may add frames of its own. -/
namespace EventScript

abbrev Bindings := List (String × Value)

namespace Bindings

def insert (name : String) (value : Value) : Bindings → Bindings
  | [] => [(name, value)]
  | (n, v) :: rest => if n = name then (n, value) :: rest else (n, v) :: insert name value rest

end Bindings

structure Frame where
  isFunction : Bool
  bindings : Bindings

structure Store where
  frames : Array Frame
  fresh : Nat

/-- What a host hands to a program: a value, with the frames and as many identities as the
host made for it. It may also name frames and identities that are there already. -/
structure Datum where
  frames : Array Frame
  identities : Nat
  value : Value

namespace Store

/- Identity 0 is left to event handlers, which no program can compare. -/
def empty : Store := ⟨#[], 1⟩

def enter (s : Store) (isFunction : Bool) (outer : List Nat) : Scope × Store :=
  (⟨s.frames.size, outer⟩, { s with frames := s.frames.push ⟨isFunction, []⟩ })

def local? (s : Store) (name : String) (frame : Nat) : Option Value :=
  s.frames[frame]?.bind fun f => f.bindings.lookup name

def get? (s : Store) (scope : Scope) (name : String) : Option Value :=
  scope.path.findSome? (s.local? name)

def define (s : Store) (frame : Nat) (name : String) (value : Value) : Store :=
  { s with frames := s.frames.modify frame fun f => { f with bindings := f.bindings.insert name value } }

def isFunction (s : Store) (frame : Nat) : Bool := s.frames[frame]?.any (·.isFunction)

def functionFrame (s : Store) (scope : Scope) : Nat :=
  (scope.path.find? s.isFunction).getD scope.root

def declare (s : Store) (scope : Scope) (name : String) (value : Value) : Store :=
  s.define (s.functionFrame scope) name value

def hoist (s : Store) (scope : Scope) (name : String) : Store :=
  let frame := s.functionFrame scope
  if (s.local? name frame).isSome then s else s.define frame name .undefined

def assign (s : Store) (scope : Scope) (name : String) (value : Value) : Store :=
  s.define ((scope.path.find? fun f => (s.local? name f).isSome).getD scope.root) name value

def newList (s : Store) (items : List Value) : Value × Store :=
  (.list s.fresh items, { s with fresh := s.fresh + 1 })

def newFunction (s : Store) (closure : Closure) : Value × Store :=
  (.function s.fresh closure, { s with fresh := s.fresh + 1 })

def receive (s : Store) (d : Datum) : Store := ⟨s.frames ++ d.frames, s.fresh + d.identities⟩

end Store

end EventScript
