import EventScript.Value.Basic
import EventScript.Text.Basic
/-! Values as numbers, and the operators on values. -/
namespace EventScript.Value

def isNumeric (c : Char) : Bool :=
  Char.isDigit c || c == '.' || c == 'e' || c == 'E' || c == '+' || c == '-'

/-- A trimmed text as a number: empty is zero, and NaN unless all of it is one
literal. -/
def readTrimmed (cs : List Char) : Number :=
  if cs.isEmpty then .zero false
  else if cs = "Infinity".toList ∨ cs = "+Infinity".toList then .infinity false
  else if cs = "-Infinity".toList then .infinity true
  else match cs with
    | '0' :: 'x' :: hex | '0' :: 'X' :: hex =>
      ((Text.word? 16 (Text.dropPlus hex)).map Number.ofNat).getD .nan
    | cs => if cs.all isNumeric then (Decimal.read? cs).getD .nan else .nan

def readNumber (s : String) : Number := readTrimmed (Text.trim s.toList)

def toNumber : Value → Number
  | undefined => .nan
  | null => .zero false
  | bool b => .ofNat b.toNat
  | number n => n
  | text s => readNumber s
  | list identity items => readNumber (list identity items).toText
  | function .. | builtin _ => .nan

def add (a b : Value) : Value :=
  if a.concatenates || b.concatenates then text (a.toText ++ b.toText)
  else number (a.toNumber.add b.toNumber)

end EventScript.Value

namespace EventScript.BinaryOp

def apply (op : BinaryOp) (a b : Value) : Value :=
  match op with
  | add => a.add b
  | subtract => .number (a.toNumber.subtract b.toNumber)
  | multiply => .number (a.toNumber.multiply b.toNumber)
  | divide => .number (a.toNumber.divide b.toNumber)
  | same => .bool (a.same b)
  | differs => .bool (!a.same b)

end EventScript.BinaryOp
