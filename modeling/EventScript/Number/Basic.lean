/-! Binary64 numbers. Magnitudes are ranked in increasing order, zero first and
infinity last, so a rank is the bit pattern of the magnitude, and a magnitude is
a whole count of units of 2 ^ -1074. Every operation computes the exact result
in `Nat` and rounds once, to the nearest magnitude, ties to the even rank. -/
namespace EventScript

namespace Number

def binade : Nat := Nat.pow 2 52

def top : Nat := 2047 * binade

def whole : Nat := Nat.pow 2 1074

def units (rank : Nat) : Nat :=
  if rank < binade then rank
  else (binade + rank % binade) * Nat.pow 2 (rank / binade - 1)

def roundDiv (n d : Nat) : Nat :=
  let q := n / d
  let r := n % d
  if 2 * r < d then q else if d < 2 * r then q + 1 else q + q % 2

/-- Ranks continue past `top` as if exponents had no bound, so that overflow is seen after
rounding. -/
def nearest (n d : Nat) : Nat :=
  let e := (n / d).log2 - 52
  e * binade + roundDiv n (d * Nat.pow 2 e)

end Number

inductive Number where
  | nan
  | signed (negative : Bool) (rank : Nat) (bounded : rank ≤ Number.top)
  deriving DecidableEq

namespace Number

def infinity (negative : Bool) : Number := .signed negative top (Nat.le_refl _)

def zero (negative : Bool) : Number := .signed negative 0 (Nat.zero_le _)

def ofRank (negative : Bool) (rank : Nat) : Number :=
  .signed negative (min rank top) (Nat.min_le_right ..)

def ofRatio (negative : Bool) (n d : Nat) : Number := ofRank negative (nearest n d)

def ofNat (n : Nat) : Number := ofRatio false (n * whole) 1

def signBit : Nat := Nat.pow 2 63

def ofBits (bits : Nat) : Number :=
  let rank := bits % signBit
  if bounded : rank ≤ top then .signed (bits / signBit % 2 == 1) rank bounded else .nan

def toBits? : Number → Option Nat
  | .nan => none
  | .signed negative rank _ => some ((if negative then signBit else 0) + rank)

def isZero : Number → Bool
  | .nan => false
  | .signed _ rank _ => rank == 0

def isNegative : Number → Bool
  | .nan => false
  | .signed negative rank _ => negative && rank != 0

def isWhole : Number → Bool
  | .nan => false
  | .signed _ rank _ => rank != top && units rank % whole == 0

def floorMagnitude : Number → Nat
  | .nan => 0
  | .signed _ rank _ => units rank / whole

def equal : Number → Number → Bool
  | .signed a m _, .signed b n _ => m == n && (a == b || m == 0)
  | _, _ => false

def negate : Number → Number
  | .nan => .nan
  | .signed negative rank bounded => .signed (!negative) rank bounded

def addFinite (a : Bool) (m : Nat) (b : Bool) (n : Nat) : Number :=
  if a = b then ofRatio a (units m + units n) 1
  else if m = n then zero false
  else if n < m then ofRatio a (units m - units n) 1
  else ofRatio b (units n - units m) 1

def add : Number → Number → Number
  | .signed a m _, .signed b n _ =>
    if m = top then (if n = top ∧ a ≠ b then .nan else infinity a)
    else if n = top then infinity b
    else addFinite a m b n
  | _, _ => .nan

def subtract (x y : Number) : Number := add x y.negate

def multiply : Number → Number → Number
  | .signed a m _, .signed b n _ =>
    if m = top ∨ n = top then (if m = 0 ∨ n = 0 then .nan else infinity (a != b))
    else ofRatio (a != b) (units m * units n) whole
  | _, _ => .nan

def divide : Number → Number → Number
  | .signed a m _, .signed b n _ =>
    if m = top then (if n = top then .nan else infinity (a != b))
    else if n = top then zero (a != b)
    else if n = 0 then (if m = 0 then .nan else infinity (a != b))
    else ofRatio (a != b) (units m * whole) (units n)
  | _, _ => .nan

end Number

end EventScript
