import EventScript.Number.Basic
/-! Syntax trees. One type holds statements and expressions, since a tree given
by a host may have either in the place of the other. -/
namespace EventScript

inductive Literal where
  | number (n : Number)
  | text (s : String)
  deriving DecidableEq

inductive BinaryOp where
  | add
  | subtract
  | multiply
  | divide
  | same
  | differs
  deriving DecidableEq

namespace BinaryOp

def all : List BinaryOp := [add, subtract, multiply, divide, same, differs]

def isComparison : BinaryOp → Bool
  | same | differs => true
  | _ => false

def label : BinaryOp → String
  | add => "Add"
  | subtract => "Sub"
  | multiply => "Mul"
  | divide => "Div"
  | same => "Eq"
  | differs => "NotEq"

end BinaryOp

structure Branch (α : Type) where
  condition : α
  body : List α

inductive Node where
  | literal (line : Nat) (value : Literal)
  | name (line : Nat) (name : String)
  | binary (line : Nat) (op : BinaryOp) (left right : Node)
  | assign (line : Nat) (target : String) (value : Node)
  | call (line : Nat) (callee : String) (arguments : List Node)
  | function (line : Nat) (name : String) (parameters : List String) (body : List Node)
  | cond (line : Nat) (condition : Node) (body : List Node) (branches : List (Branch Node))
      (otherwise : List Node)
  | loop (line : Nat) (name : String) (items : Node) (body : List Node)
  | handler (line : Nat) (event : String) (body : List Node)
  | result (line : Nat) (value : Node)

inductive NodeForm where
  | literal
  | name
  | binary
  | assign
  | call
  | function
  | cond
  | loop
  | handler
  | result
  deriving DecidableEq

namespace NodeForm

def label : NodeForm → String
  | literal => "literal"
  | name => "identifier"
  | binary => "binary"
  | assign => "assignment"
  | call => "funccall"
  | function => "funcdef"
  | cond => "if"
  | loop => "for"
  | handler => "eventhandler"
  | result => "return"

end NodeForm

namespace Node

def line : Node → Nat
  | literal l _ | name l _ | binary l .. | assign l .. | call l .. | function l .. | cond l ..
  | loop l .. | handler l .. | result l _ => l

def form : Node → NodeForm
  | literal .. => .literal
  | name .. => .name
  | binary .. => .binary
  | assign .. => .assign
  | call .. => .call
  | function .. => .function
  | cond .. => .cond
  | loop .. => .loop
  | handler .. => .handler
  | result .. => .result

def isComparison : Node → Bool
  | binary _ op _ _ => op.isComparison
  | _ => false

def isFunction : Node → Bool
  | function .. => true
  | _ => false

end Node

/-- Where a node stands: on its own in a body, or where its value is used. An
assignment declares its name in the first place and only updates it in the second. -/
inductive Position where
  | statement
  | operand
  deriving DecidableEq

end EventScript
