/-! Texts: blanks and trimming, lines, and unsigned 64-bit numbers spelled with digits of a
base up to sixteen. -/
namespace EventScript.Text

/- White space, as ranges of code points, both ends included. -/
def blank : List (Nat × Nat) :=
  [(0x9, 0xd), (0x20, 0x20), (0x85, 0x85), (0xa0, 0xa0), (0x1680, 0x1680), (0x2000, 0x200a),
    (0x2028, 0x2029), (0x202f, 0x202f), (0x205f, 0x205f), (0x3000, 0x3000)]

def isBlank (c : Char) : Bool :=
  blank.any fun (first, last) => first ≤ c.toNat && c.toNat ≤ last

def dropEndWhile (p : Char → Bool) (cs : List Char) : List Char :=
  (cs.reverse.dropWhile p).reverse

def trim (cs : List Char) : List Char := dropEndWhile isBlank (cs.dropWhile isBlank)

def splitLines : List Char → List (List Char)
  | [] => []
  | c :: cs =>
    if c = '\n' then [c] :: splitLines cs
    else match splitLines cs with
      | [] => [[c]]
      | line :: rest => (c :: line) :: rest

def withoutEnd (line : List Char) : List Char :=
  match line.reverse with
  | '\n' :: '\r' :: rest => rest.reverse
  | '\n' :: rest => rest.reverse
  | _ => line

/- An unfinished last line counts if it is not empty. -/
def lines (cs : List Char) : List (List Char) := (splitLines cs).map withoutEnd

def digit? (c : Char) : Option Nat :=
  if '0' ≤ c ∧ c ≤ '9' then some (c.toNat - '0'.toNat)
  else if 'a' ≤ c ∧ c ≤ 'f' then some (c.toNat - 'a'.toNat + 10)
  else if 'A' ≤ c ∧ c ≤ 'F' then some (c.toNat - 'A'.toNat + 10)
  else none

def wordBound : Nat := Nat.pow 2 64

def pushDigit? (base n : Nat) (c : Char) : Option Nat := do
  let d ← digit? c
  if d < base then some (base * n + d) else none

def word? (base : Nat) (cs : List Char) : Option Nat := do
  if cs.isEmpty then none
  else
    let n ← cs.foldlM (pushDigit? base) 0
    if n < wordBound then some n else none

def dropPlus : List Char → List Char
  | '+' :: cs => cs
  | cs => cs

end EventScript.Text
