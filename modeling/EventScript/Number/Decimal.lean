import EventScript.Number.Basic
/-! Decimals and the numbers nearest to them: the value of a run of digits, and
the reader of signed literals such as `-1.5e3`. -/
namespace EventScript

structure Decimal where
  digits : Nat
  exponent : Int
  deriving DecidableEq

namespace Decimal

/-- The rank of the nearest magnitude. Exponents that no digits could bring back
into range are settled without a power of ten. -/
def rank (d : Decimal) : Nat :=
  if d.digits = 0 then 0 else
  match d.exponent with
  | .ofNat e =>
    if 400 < e then Number.top
    else Number.nearest (d.digits * Nat.pow 10 e * Number.whole) 1
  | .negSucc e =>
    if d.digits.log2 + 1200 < 3 * e then 0
    else Number.nearest (d.digits * Number.whole) (Nat.pow 10 (e + 1))

def toNumber (negative : Bool) (d : Decimal) : Number := Number.ofRank negative d.rank

def digitValue (c : Char) : Nat := c.toNat - '0'.toNat

def ofDigits (cs : List Char) : Nat := cs.foldl (fun n c => 10 * n + digitValue c) 0

def ofParts (whole fraction : List Char) : Decimal :=
  ⟨ofDigits (whole ++ fraction), -fraction.length⟩

def shift (d : Decimal) (exponent : Int) : Decimal := ⟨d.digits, d.exponent + exponent⟩

def splitSign : List Char → Bool × List Char
  | '-' :: cs => (true, cs)
  | '+' :: cs => (false, cs)
  | cs => (false, cs)

def exponentOf? (cs : List Char) : Option Int :=
  let (negative, cs) := splitSign cs
  if cs.isEmpty || !cs.all Char.isDigit then none
  else some (if negative then -(ofDigits cs : Int) else ofDigits cs)

def significandOf? (cs : List Char) : Option (Decimal × List Char) :=
  let whole := cs.takeWhile Char.isDigit
  match cs.dropWhile Char.isDigit with
  | '.' :: rest =>
    let fraction := rest.takeWhile Char.isDigit
    if whole.isEmpty && fraction.isEmpty then none
    else some (ofParts whole fraction, rest.dropWhile Char.isDigit)
  | rest => if whole.isEmpty then none else some (ofParts whole [], rest)

def read? (cs : List Char) : Option Number := do
  let (negative, cs) := splitSign cs
  let (d, rest) ← significandOf? cs
  match rest with
  | [] => some (d.toNumber negative)
  | mark :: rest =>
    if mark = 'e' ∨ mark = 'E' then do
      let exponent ← exponentOf? rest
      some ((d.shift exponent).toNumber negative)
    else none

end Decimal

end EventScript
