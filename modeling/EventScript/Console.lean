/-! What a program shows and asks, in order, and the answers that are left. -/
namespace EventScript

inductive Exchange where
  | shown (text : String)
  | asked (message : String)
  deriving DecidableEq

structure Console where
  transcript : Array Exchange
  answers : List (Option String)

namespace Console

def withAnswers (answers : List (Option String)) : Console := ⟨#[], answers⟩

def shown (c : Console) : List String :=
  c.transcript.toList.filterMap fun
    | .shown text => some text
    | .asked _ => none

def asked (c : Console) : List String :=
  c.transcript.toList.filterMap fun
    | .shown _ => none
    | .asked message => some message

def tell (c : Console) (text : String) : Console :=
  { c with transcript := c.transcript.push (.shown text) }

def ask (c : Console) (message : String) : Option String × Console :=
  (c.answers.head?.join, ⟨c.transcript.push (.asked message), c.answers.tail⟩)

/-- The exchanges up to the first question after so many answered ones. -/
def untilQuestion : (answered : Nat) → List Exchange → Option (List Exchange)
  | _, [] => none
  | 0, .asked message :: _ => some [.asked message]
  | answered + 1, .asked message :: rest => (untilQuestion answered rest).map (.asked message :: ·)
  | answered, .shown text :: rest => (untilQuestion answered rest).map (.shown text :: ·)

end Console

end EventScript
