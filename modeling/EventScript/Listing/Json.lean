import EventScript.Number.Format
/-! Texts in lines, put together from the lines of their parts: JSON with one part per line. -/
namespace EventScript.Listing

def shift (indent : Nat) (lines : List String) : List String :=
  lines.map (String.ofList (List.replicate indent ' ') ++ ·)

def close (mark : String) : List String → List String
  | [] => []
  | [line] => [line ++ mark]
  | line :: lines => line :: close mark lines

def label (name : String) : List String → List String
  | [] => []
  | line :: lines => (name ++ line) :: lines

end EventScript.Listing

namespace EventScript

inductive Json where
  | natural (n : Nat)
  | number (n : Number)
  | text (s : String)
  | list (items : List Json)
  | record (fields : List (String × Json))

namespace Json

open Listing

/-- A point is always shown; positional from 1e-5 to before 1e16. What has no
digits is null. -/
def numberFormat : NumberFormat where
  tie := .even
  least := (Decimal.mk 1 (-5)).rank
  bound := (Decimal.mk 1 16).rank
  point := true
  plus := true
  zeroSign := true
  nan := "null"
  infinity := "null"
  negativeInfinity := "null"

def hexDigits (width n : Nat) : List Char :=
  let ds := Nat.toDigits 16 n
  List.replicate (width - ds.length) '0' ++ ds

def escapeChar (c : Char) : List Char :=
  if c = '"' ∨ c = '\\' then ['\\', c]
  else if c = '\x08' then ['\\', 'b']
  else if c = '\t' then ['\\', 't']
  else if c = '\n' then ['\\', 'n']
  else if c = '\x0c' then ['\\', 'f']
  else if c = '\r' then ['\\', 'r']
  else if c.toNat < 0x20 then '\\' :: 'u' :: hexDigits 4 c.toNat
  else [c]

def quote (s : String) : String := String.ofList ('"' :: s.toList.flatMap escapeChar ++ ['"'])

def separate : List (List String) → List String
  | [] => []
  | [part] => part
  | part :: parts => close "," part ++ separate parts

mutual

def lines : Json → List String
  | natural n => [toString n]
  | number n => [numberFormat.render n]
  | text s => [quote s]
  | list [] => ["[]"]
  | list items => "[" :: shift 2 (separate (linesAll items)) ++ ["]"]
  | record [] => ["\x7b\x7d"]
  | record fields => "\x7b" :: shift 2 (separate (linesFields fields)) ++ ["\x7d"]

def linesAll : List Json → List (List String)
  | [] => []
  | j :: js => lines j :: linesAll js

def linesFields : List (String × Json) → List (List String)
  | [] => []
  | (name, j) :: rest => label (quote name ++ ": ") (lines j) :: linesFields rest

end

def pretty (j : Json) : String := "\n".intercalate j.lines

end Json

end EventScript
