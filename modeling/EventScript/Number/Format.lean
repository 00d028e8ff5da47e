import EventScript.Number.Shortest
/-! Texts of numbers. A format decides where positional digits end, how the rest
is marked, and what stands for the numbers without digits. -/
namespace EventScript

namespace Decimal

def zeros (n : Nat) : List Char := List.replicate n '0'

def digitChars (d : Decimal) : List Char := Nat.toDigits 10 d.digits

def positional (d : Decimal) : List Char :=
  let cs := d.digitChars
  match d.exponent with
  | .ofNat e => cs ++ zeros e
  | .negSucc k =>
    let places := k + 1
    if places < cs.length then cs.take (cs.length - places) ++ '.' :: cs.drop (cs.length - places)
    else '0' :: '.' :: zeros (places - cs.length) ++ cs

def scientific (plus : Bool) (d : Decimal) : List Char :=
  let cs := d.digitChars
  let exponent := d.exponent + cs.length - 1
  let lead := match cs.drop 1 with
    | [] => cs
    | rest => cs.take 1 ++ '.' :: rest
  let mark := if exponent < 0 then ['e', '-'] else if plus then ['e', '+'] else ['e']
  lead ++ mark ++ Nat.toDigits 10 exponent.natAbs

end Decimal

structure NumberFormat where
  tie : Tie
  /-- Ranks of the magnitudes written positionally: from `least` to before `bound`. -/
  least : Nat
  bound : Nat
  point : Bool
  plus : Bool
  zeroSign : Bool
  nan : String
  infinity : String
  negativeInfinity : String

namespace NumberFormat

def magnitude (f : NumberFormat) (rank : Nat) : List Char :=
  if rank = 0 then (if f.point then ['0', '.', '0'] else ['0'])
  else
    let d := Shortest.digits f.tie rank
    if f.least ≤ rank ∧ rank < f.bound then
      let cs := d.positional
      if f.point && !cs.contains '.' then cs ++ ['.', '0'] else cs
    else d.scientific f.plus

def chars (f : NumberFormat) : Number → List Char
  | .nan => f.nan.toList
  | .signed negative rank _ =>
    if rank = Number.top then (if negative then f.negativeInfinity else f.infinity).toList
    else if negative && (f.zeroSign || rank != 0) then '-' :: f.magnitude rank
    else f.magnitude rank

def render (f : NumberFormat) (n : Number) : String := String.ofList (f.chars n)

def source : NumberFormat where
  tie := .up
  least := 0
  bound := Number.top
  point := false
  plus := false
  zeroSign := true
  nan := "NaN"
  infinity := "inf"
  negativeInfinity := "-inf"

end NumberFormat

end EventScript
