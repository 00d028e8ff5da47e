/-! Keys of a terminal and the names under which programs listen for them. -/
namespace EventScript

inductive Key where
  | char (c : Char)
  | function (n : Nat)
  | enter
  | escape
  | backspace
  | tab
  | backTab
  | delete
  | insert
  | home
  | finish
  | pageUp
  | pageDown
  | up
  | down
  | left
  | right
  /-- A key without a stable name: locks, media keys, modifiers on their own. -/
  | unnamed
  deriving DecidableEq

namespace Key

def name? : Key → Option String
  | char c => some c.toString
  | function n => some s!"F{n}"
  | enter => some "Enter"
  | escape => some "Escape"
  | backspace => some "Backspace"
  | tab | backTab => some "Tab"
  | delete => some "Delete"
  | insert => some "Insert"
  | home => some "Home"
  | finish => some "End"
  | pageUp => some "PageUp"
  | pageDown => some "PageDown"
  | up => some "ArrowUp"
  | down => some "ArrowDown"
  | left => some "ArrowLeft"
  | right => some "ArrowRight"
  | unnamed => none

def isInterrupt (k : Key) (control : Bool) : Bool := control && (k == char 'c' || k == char 'C')

end Key

end EventScript
