import EventScript.Node.Basic
/-! What a body declares before it runs, and returns outside any function. Both
look through branches and loops, and into no function or handler. -/
namespace EventScript.Node

mutual

/-- Names that a node declares without binding a function. -/
def declaredNames : Node → List String
  | function _ f _ _ => [f]
  | assign _ target _ => [target]
  | cond _ _ body branches otherwise =>
    declaredIn body ++ declaredInBranches branches ++ declaredIn otherwise
  | loop _ _ _ body => declaredIn body
  | _ => []

def declaredIn : List Node → List String
  | [] => []
  | n :: ns => declaredNames n ++ declaredIn ns

def declaredInBranches : List (Branch Node) → List String
  | [] => []
  | ⟨_, body⟩ :: rest => declaredIn body ++ declaredInBranches rest

end

mutual

def strayReturn : Node → Option Nat
  | result line _ => some line
  | cond _ _ body branches otherwise =>
    strayIn body <|> strayInBranches branches <|> strayIn otherwise
  | loop _ _ _ body => strayIn body
  | _ => none

def strayIn : List Node → Option Nat
  | [] => none
  | n :: ns => strayReturn n <|> strayIn ns

def strayInBranches : List (Branch Node) → Option Nat
  | [] => none
  | ⟨_, body⟩ :: rest => strayIn body <|> strayInBranches rest

end

end EventScript.Node
