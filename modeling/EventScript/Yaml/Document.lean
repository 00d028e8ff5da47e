import EventScript.Yaml.Lexeme
/-! The tree that the lexemes of a YAML text form. A text holds one document at most. -/
namespace EventScript.Yaml

structure Properties where
  anchor : Option Nat
  tag : Option String

def properties : List Lexeme → Properties × List Lexeme
  | .anchor a :: .tag t :: ls => (⟨some a, some t⟩, ls)
  | .anchor a :: ls => (⟨some a, none⟩, ls)
  | .tag t :: .anchor a :: ls => (⟨some a, some t⟩, ls)
  | .tag t :: ls => (⟨none, some t⟩, ls)
  | ls => (⟨none, none⟩, ls)

namespace Properties

def apply (p : Properties) (y : Yaml) : Yaml :=
  match p.anchor with
  | some a => .anchored a y
  | none => y

def alone? (p : Properties) (ls : List Lexeme) : Option (Yaml × List Lexeme) :=
  if p.anchor.isSome || p.tag.isSome then some (.scalar .plain p.tag "", ls) else none

end Properties

def ahead (among : List Lexeme) (ls : List Lexeme) : Bool := ls.head?.any fun l => among.contains l

mutual

/-- A node. Block collections may be refused; the items of a key may lack a start. -/
def node (inBlock asValue : Bool) : (fuel : Nat) → List Lexeme → Option (Yaml × List Lexeme)
  | 0, _ => none
  | _ + 1, .link n :: ls => some (.link n, ls)
  | fuel + 1, ls => do
    let (p, ls) := properties ls
    let (y, ls) ← match ls with
      | .scalar style text :: ls => some (.scalar style p.tag text, ls)
      | .flowSequence :: ls => do
        let (ys, ls) ← flowItems true fuel ls
        some (.sequence ys, ls)
      | .flowMapping :: ls => do
        let (es, ls) ← flowEntries true fuel ls
        some (.mapping es, ls)
      | .blockSequence :: rest =>
        if inBlock then do
          let (ys, ls) ← blockItems fuel rest
          some (.sequence ys, ls)
        else p.alone? ls
      | .blockMapping :: rest =>
        if inBlock then do
          let (es, ls) ← blockEntries fuel rest
          some (.mapping es, ls)
        else p.alone? ls
      | .item :: _ =>
        if asValue then do
          let (ys, ls) ← bareItems fuel ls
          some (.sequence ys, ls)
        else p.alone? ls
      | ls => p.alone? ls
    some (p.apply y, ls)

def blockItems : (fuel : Nat) → List Lexeme → Option (List Yaml × List Lexeme)
  | 0, _ => none
  | fuel + 1, .item :: ls => do
    let (y, ls) ← if ahead [.item, .blockEnd] ls then some (absent, ls) else node true false fuel ls
    let (ys, ls) ← blockItems fuel ls
    some (y :: ys, ls)
  | _ + 1, .blockEnd :: ls => some ([], ls)
  | _ + 1, _ => none

def bareItems : (fuel : Nat) → List Lexeme → Option (List Yaml × List Lexeme)
  | 0, _ => none
  | fuel + 1, .item :: ls => do
    let (y, ls) ←
      if ahead [.item, .key, .value, .blockEnd] ls then some (absent, ls)
      else node true false fuel ls
    let (ys, ls) ← bareItems fuel ls
    some (y :: ys, ls)
  | _ + 1, ls => some ([], ls)

def blockEntries : (fuel : Nat) → List Lexeme → Option (List (Yaml × Yaml) × List Lexeme)
  | 0, _ => none
  | fuel + 1, .key :: ls => do
    let (k, ls) ← blockPart fuel ls
    let (v, ls) ← match ls with
      | .value :: ls => blockPart fuel ls
      | ls => some (absent, ls)
    let (es, ls) ← blockEntries fuel ls
    some ((k, v) :: es, ls)
  | _ + 1, .blockEnd :: ls => some ([], ls)
  | _ + 1, _ => none

def blockPart : (fuel : Nat) → List Lexeme → Option (Yaml × List Lexeme)
  | 0, _ => none
  | fuel + 1, ls =>
    if ahead [.key, .value, .blockEnd] ls then some (absent, ls) else node true true fuel ls

def flowItems (first : Bool) : (fuel : Nat) → List Lexeme → Option (List Yaml × List Lexeme)
  | 0, _ => none
  | _ + 1, .flowSequenceEnd :: ls => some ([], ls)
  | fuel + 1, ls => do
    let ls ← if first then some ls else if ahead [.comma] ls then some ls.tail else none
    match ls with
    | .flowSequenceEnd :: ls => some ([], ls)
    | .key :: ls =>
      let (e, ls) ← pair fuel ls
      let (ys, ls) ← flowItems false fuel ls
      some (.mapping [e] :: ys, ls)
    | ls =>
      let (y, ls) ← node false false fuel ls
      let (ys, ls) ← flowItems false fuel ls
      some (y :: ys, ls)

def pair : (fuel : Nat) → List Lexeme → Option ((Yaml × Yaml) × List Lexeme)
  | 0, _ => none
  | fuel + 1, ls => do
    let (k, ls) ←
      if ahead [.value, .comma, .flowSequenceEnd] ls then some (absent, ls.tail)
      else node false false fuel ls
    let (v, ls) ← flowPart .flowSequenceEnd fuel ls
    some ((k, v), ls)

def flowEntries (first : Bool) :
    (fuel : Nat) → List Lexeme → Option (List (Yaml × Yaml) × List Lexeme)
  | 0, _ => none
  | _ + 1, .flowMappingEnd :: ls => some ([], ls)
  | fuel + 1, ls => do
    let ls ← if first then some ls else if ahead [.comma] ls then some ls.tail else none
    match ls with
    | .flowMappingEnd :: ls => some ([], ls)
    | .key :: ls =>
      let (k, ls) ←
        if ahead [.value, .comma, .flowMappingEnd] ls then some (absent, ls)
        else node false false fuel ls
      let (v, ls) ← flowPart .flowMappingEnd fuel ls
      let (es, ls) ← flowEntries false fuel ls
      some ((k, v) :: es, ls)
    | ls =>
      let (k, ls) ← node false false fuel ls
      let (es, ls) ← flowEntries false fuel ls
      some ((k, absent) :: es, ls)

def flowPart (close : Lexeme) : (fuel : Nat) → List Lexeme → Option (Yaml × List Lexeme)
  | 0, _ => none
  | fuel + 1, .value :: ls =>
    if ahead [.comma, close] ls then some (absent, ls) else node false false fuel ls
  | _ + 1, ls => some (absent, ls)

end

def marked (fuel : Nat) (ls : List Lexeme) : Option (Yaml × List Lexeme) :=
  match ls.dropWhile (· = .directive) with
  | .documentStart :: ls =>
    if ls.isEmpty || ahead [.directive, .documentStart, .documentEnd] ls then some (absent, ls)
    else node true false fuel ls
  | _ => none

def ofLexemes? (ls : List Lexeme) : Option Yaml := do
  let fuel := 4 * ls.length + 4
  if ls.isEmpty then some absent
  else
    let (y, rest) ←
      if ahead [.directive, .documentStart] ls then marked fuel ls else node true false fuel ls
    if rest.all (· = .documentEnd) then some y else none

def read? (source : String) : Option Yaml := do ofLexemes? (← lexemes? source)

end EventScript.Yaml
