import EventScript.Number.Decimal
/-! The fewest decimal digits that read back as a given magnitude. Grids of 1 to
17 digits are searched in turn; on each the two neighbours of the magnitude are
tried, the nearer one first. The reader itself is the test. -/
namespace EventScript

inductive Tie where
  | up
  | even
  deriving DecidableEq

namespace Shortest

def scaled (rank : Nat) : Int → Nat × Nat
  | .ofNat e => (Number.units rank, Number.whole * Nat.pow 10 e)
  | .negSucc e => (Number.units rank * Nat.pow 10 (e + 1), Number.whole)

def below (rank : Nat) (power : Int) : Bool :=
  let (n, d) := scaled rank power
  n < d

/-- The number of digits before the point, negative or zero for a magnitude that
starts behind it. The estimate from the binary logarithm is short by two at most. -/
def leading (rank : Nat) : Int :=
  let estimate := (((Number.units rank).log2 : Int) - 1074) * 30103 / 100000
  if below rank estimate then estimate
  else if below rank (estimate + 1) then estimate + 1
  else estimate + 2

def neighbours (tie : Tie) (rank : Nat) (point : Int) (count : Nat) : List Decimal :=
  let exponent := point - count
  let (n, d) := scaled rank exponent
  let low := n / d
  let rest := n % d
  let lowFirst := 2 * rest < d || (2 * rest == d && tie == .even && low % 2 == 0)
  let decimal (digits : Nat) : Decimal :=
    if digits = Nat.pow 10 count then ⟨1, point⟩ else ⟨digits, exponent⟩
  if lowFirst then [decimal low, decimal (low + 1)] else [decimal (low + 1), decimal low]

def exact (rank : Nat) : Decimal := ⟨Number.units rank * Nat.pow 5 1074, -1074⟩

def digits (tie : Tie) (rank : Nat) : Decimal :=
  let point := leading rank
  let hit := (List.range' 1 17).findSome? fun count =>
    (neighbours tie rank point count).find? fun d => d.rank == rank
  hit.getD (exact rank)

end Shortest

end EventScript
