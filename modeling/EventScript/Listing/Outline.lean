import EventScript.Value.Basic
import EventScript.Text.Printable
import EventScript.Listing.Json
/-! Structured data for a reader: on one line, or one part per line. -/
namespace EventScript

inductive Outline where
  | atom (text : String)
  | list (items : List Outline)
  | tuple (name : String) (parts : List Outline)
  /-- `whole` is false if some fields are left out. -/
  | record (name : String) (fields : List (String × Outline)) (whole : Bool)

namespace Outline

open Listing

/-- A point is always shown; positional from 1e-4 to before 1e16. -/
def numberFormat : NumberFormat :=
  { NumberFormat.source with
    least := (Decimal.mk 1 (-4)).rank
    bound := (Decimal.mk 1 16).rank
    point := true }

def number (n : Number) : Outline := .atom (numberFormat.render n)

def text (s : String) : Outline := .atom (Text.quoted s)

def texts (ss : List String) : Outline := .list (ss.map text)

mutual

def inline : Outline → String
  | atom text => text
  | list items => "[" ++ ", ".intercalate (inlineAll items) ++ "]"
  | tuple name parts => name ++ "(" ++ ", ".intercalate (inlineAll parts) ++ ")"
  | record name fields whole =>
    let rest := if whole then [] else [".."]
    name ++ " \x7b " ++ ", ".intercalate (inlineFields fields ++ rest) ++ " \x7d"

def inlineAll : List Outline → List String
  | [] => []
  | o :: os => inline o :: inlineAll os

def inlineFields : List (String × Outline) → List String
  | [] => []
  | (name, o) :: rest => (name ++ ": " ++ inline o) :: inlineFields rest

end

mutual

def lines : Outline → List String
  | atom text => [text]
  | list [] => ["[]"]
  | list items => "[" :: shift 4 (linesAll items) ++ ["]"]
  | tuple name parts => (name ++ "(") :: shift 4 (linesAll parts) ++ [")"]
  | record name fields whole =>
    let rest := if whole then [] else [".."]
    (name ++ " \x7b") :: shift 4 (linesFields fields ++ rest) ++ ["\x7d"]

def linesAll : List Outline → List String
  | [] => []
  | o :: os => close "," (lines o) ++ linesAll os

def linesFields : List (String × Outline) → List String
  | [] => []
  | (name, o) :: rest => close "," (label (name ++ ": ") (lines o)) ++ linesFields rest

end

def pretty (o : Outline) : String := "\n".intercalate o.lines

end Outline

end EventScript
