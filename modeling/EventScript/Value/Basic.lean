import EventScript.Node.Basic
import EventScript.Number.Format
/-! Values of a running program. Lists and functions have an identity, which is
all that comparing them looks at. -/
namespace EventScript

inductive Builtin where
  | print
  | commandPrint
  | lang
  | input
  | int
  | range
  | register
  | dispatch
  deriving DecidableEq

namespace Builtin

def all : List Builtin := [print, commandPrint, lang, input, int, range, register, dispatch]

def name : Builtin → String
  | print => "print"
  | commandPrint => "command_print"
  | lang => "lang"
  | input => "input"
  | int => "int"
  | range => "range"
  | register => "__register__"
  | dispatch => "__dispatch__"

end Builtin

structure Scope where
  frame : Nat
  outer : List Nat
  deriving DecidableEq

namespace Scope

def path (s : Scope) : List Nat := s.frame :: s.outer

def root (s : Scope) : Nat := s.outer.getLast?.getD s.frame

end Scope

/-- A function body with the scope it was made in. Event handlers have no name. -/
structure Closure where
  name : String
  parameters : List String
  body : List Node
  scope : Scope

inductive Value where
  | undefined
  | null
  | bool (b : Bool)
  | number (n : Number)
  | text (s : String)
  | list (identity : Nat) (items : List Value)
  | function (identity : Nat) (closure : Closure)
  | builtin (b : Builtin)

namespace Value

def ofLiteral : Literal → Value
  | .number n => .number n
  | .text s => .text s

def isTruthy : Value → Bool
  | undefined | null => false
  | bool b => b
  | number .nan => false
  | number n => !n.isZero
  | text s => !s.isEmpty
  | list .. | function .. | builtin _ => true

def isPresent : Value → Bool
  | undefined | null => false
  | _ => true

def numberFormat : NumberFormat where
  tie := .up
  least := (Decimal.mk 1 (-6)).rank
  bound := (Decimal.mk 1 21).rank
  point := false
  plus := true
  zeroSign := false
  nan := "NaN"
  infinity := "Infinity"
  negativeInfinity := "-Infinity"

def formatNumber (n : Number) : String := numberFormat.render n

mutual

def toText : Value → String
  | undefined => "undefined"
  | null => "null"
  | bool b => if b then "true" else "false"
  | number n => formatNumber n
  | text s => s
  | list _ items => ",".intercalate (itemTexts items)
  | function _ closure =>
    "function " ++ closure.name ++ "(" ++ ", ".intercalate closure.parameters ++ ") \x7b ... \x7d"
  | builtin b => "function " ++ b.name ++ "() \x7b [native code] \x7d"

def itemTexts : List Value → List String
  | [] => []
  | item :: items => (if item.isPresent then toText item else "") :: itemTexts items

end

def same : Value → Value → Bool
  | undefined, undefined | null, null => true
  | bool a, bool b => a == b
  | number a, number b => a.equal b
  | text a, text b => a == b
  | list a _, list b _ => a == b
  | function a _, function b _ => a == b
  | builtin a, builtin b => a == b
  | _, _ => false

def concatenates : Value → Bool
  | text _ | list .. | function .. | builtin _ => true
  | _ => false

end Value

end EventScript
