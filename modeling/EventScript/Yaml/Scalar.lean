import EventScript.Yaml.Basic
/-! Scalars of a YAML text: plain, in quotes, or in a block of lines. -/
namespace EventScript.Yaml

inductive Gap where
  | blanks (cs : List Char)
  | lines (first : Option Char) (more : List Char)

namespace Gap

def empty : Gap := blanks []

def isEmpty : Gap → Bool
  | blanks cs => cs.isEmpty
  | lines .. => false

def isLines : Gap → Bool
  | blanks _ => false
  | lines .. => true

def text : Gap → List Char
  | blanks cs => cs
  | lines (some '\n') [] => [' ']
  | lines (some '\n') more => more
  | lines first more => first.toList ++ more

def add? (indent : Nat) (c : Glyph) : Gap → Option Gap
  | blanks cs => some (if isBreak c.char then lines (some c.char) [] else blanks (cs ++ [c.char]))
  | lines first more =>
    if isBreak c.char then some (lines first (more ++ [c.char]))
    else if c.char == '\t' && c.column < indent then none
    else some (lines first more)

end Gap

/-- A plain scalar, whether it ends at a line break, and what follows. Outside flow
collections, its lines stand at column `indent` or further in. -/
def plain (inFlow : Bool) (indent : Nat) : Gap → List Glyph → Option (List Char × Bool × List Glyph)
  | gap, [] => some ([], gap.isLines, [])
  | gap, c :: cs =>
    if isBlank c.char || isBreak c.char then do plain inFlow indent (← gap.add? indent c) cs
    else if !gap.isEmpty &&
        ((!inFlow && c.column < indent) || atDocumentMark (c :: cs) || c.char == '#') then
      some ([], gap.isLines, c :: cs)
    else if inFlow && c.char == ':' &&
        cs.head?.any (fun d => isFlowMark d.char || d.char == '?') then none
    else if (c.char == ':' && blankAhead cs) || (inFlow && isFlowMark c.char) then
      some ([], gap.isLines, c :: cs)
    else do
      let (text, broken, rest) ← plain inFlow indent .empty cs
      some (gap.text ++ c.char :: text, broken, rest)

def singleQuoted : Gap → List Glyph → Option (List Char × List Glyph)
  | _, [] => none
  | gap, c :: cs =>
    if isBlank c.char || isBreak c.char then do singleQuoted (← gap.add? 0 c) cs
    else if atDocumentMark (c :: cs) then none
    else if c.char == '\'' then
      match cs with
      | [] => some (gap.text, [])
      | d :: ds =>
        if d.char == '\'' then do
          let (text, rest) ← singleQuoted .empty ds
          some (gap.text ++ '\'' :: text, rest)
        else some (gap.text, d :: ds)
    else do
      let (text, rest) ← singleQuoted .empty cs
      some (gap.text ++ c.char :: text, rest)

def escape? : Char → Option Char
  | '0' => some '\x00'
  | 'a' => some '\x07'
  | 'b' => some '\x08'
  | 't' | '\t' => some '\t'
  | 'n' => some '\n'
  | 'v' => some '\x0b'
  | 'f' => some '\x0c'
  | 'r' => some '\r'
  | 'e' => some '\x1b'
  | ' ' => some ' '
  | '"' => some '"'
  | '/' => some '/'
  | '\\' => some '\\'
  | 'N' => some '\u0085'
  | '_' => some '\u00a0'
  | 'L' => some '\u2028'
  | 'P' => some '\u2029'
  | _ => none

def codeLength? : Char → Option Nat
  | 'x' => some 2
  | 'u' => some 4
  | 'U' => some 8
  | _ => none

def hexDigit? (c : Char) : Option Nat :=
  if c.isDigit then some (c.toNat - '0'.toNat)
  else if 'a' ≤ c ∧ c ≤ 'f' then some (c.toNat - 'a'.toNat + 10)
  else if 'A' ≤ c ∧ c ≤ 'F' then some (c.toNat - 'A'.toNat + 10)
  else none

inductive Escape where
  | closed
  | opened
  | code (digits value : Nat)

def doubleQuoted : Escape → Gap → List Glyph → Option (List Char × List Glyph)
  | _, _, [] => none
  | .opened, gap, c :: cs =>
    if isBreak c.char then doubleQuoted .closed (.lines none []) cs
    else
      match codeLength? c.char with
      | some digits => doubleQuoted (.code digits 0) gap cs
      | none => do
        let e ← escape? c.char
        let (text, rest) ← doubleQuoted .closed .empty cs
        some (e :: text, rest)
  | .code digits value, gap, c :: cs => do
    let value := 16 * value + (← hexDigit? c.char)
    if digits ≤ 1 then
      if value.isValidChar then
        let (text, rest) ← doubleQuoted .closed .empty cs
        some (Char.ofNat value :: text, rest)
      else none
    else doubleQuoted (.code (digits - 1) value) gap cs
  | .closed, gap, c :: cs =>
    if isBlank c.char || isBreak c.char then do doubleQuoted .closed (← gap.add? 0 c) cs
    else if atDocumentMark (c :: cs) then none
    else if c.char == '"' then some (gap.text, cs)
    else if c.char == '\\' then do
      let (text, rest) ← doubleQuoted .opened .empty cs
      some (gap.text ++ text, rest)
    else do
      let (text, rest) ← doubleQuoted .closed .empty cs
      some (gap.text ++ c.char :: text, rest)

inductive Chomp where
  | clip
  | strip
  | keep

def chomp? : List Glyph → Option (Chomp × List Glyph)
  | c :: cs =>
    if c.char == '-' then some (.strip, cs) else if c.char == '+' then some (.keep, cs) else none
  | [] => none

def statedWidth? : List Glyph → Option (Nat × List Glyph)
  | [] => some (0, [])
  | c :: cs =>
    if c.char == '0' then none
    else if c.char.isDigit then some (c.char.toNat - '0'.toNat, cs)
    else some (0, c :: cs)

def blockHeader? (cs : List Glyph) : Option (Chomp × Nat × List Glyph) := do
  match chomp? cs with
  | some (chomp, cs) =>
    let (width, cs) ← statedWidth? cs
    some (chomp, width, ← nextLine? cs)
  | none =>
    let (width, cs) ← statedWidth? cs
    match if width = 0 then none else chomp? cs with
    | some (chomp, cs) => some (chomp, width, ← nextLine? cs)
    | none => some (.clip, width, ← nextLine? cs)

def blockBreaks (indent : Nat) : (widest : Nat) → List Glyph → Option (List Char × Nat × List Glyph)
  | widest, [] => some ([], widest, [])
  | widest, c :: cs =>
    let before := indent == 0 || c.column < indent
    if c.char == ' ' && before then blockBreaks indent (max widest (c.column + 1)) cs
    else if c.char == '\t' && before then none
    else if isBreak c.char then do
      let (breaks, widest, rest) ← blockBreaks indent (max widest c.column) cs
      some (c.char :: breaks, widest, rest)
    else some ([], max widest c.column, c :: cs)

structure BlockText where
  text : List Char
  last : List Char
  trailing : List Char
  rest : List Glyph

def blockLines (folded : Bool) (indent : Nat) :
    (fuel : Nat) → (afterBlank : Bool) → (last trailing : List Char) → List Glyph → Option BlockText
  | 0, _, _, _, _ => none
  | _, _, last, trailing, [] => some ⟨[], last, trailing, []⟩
  | fuel + 1, afterBlank, last, trailing, c :: cs =>
    if c.column != indent then some ⟨[], last, trailing, c :: cs⟩
    else do
      let blank := isBlank c.char
      let joint :=
        if folded && last == ['\n'] && !afterBlank && !blank then
          if trailing.isEmpty then [' '] else trailing
        else last ++ trailing
      let line := (c :: cs).takeWhile fun d => !isBreak d.char
      let after := (c :: cs).dropWhile fun d => !isBreak d.char
      let (breaks, _, rest) ← blockBreaks indent 0 (after.drop 1)
      let more ← blockLines folded indent fuel blank ((after.take 1).map Glyph.char) breaks rest
      some { more with text := joint ++ line.map Glyph.char ++ more.text }

def blockScalar (folded : Bool) (level : Nat) (cs : List Glyph) : Option (List Char × List Glyph) := do
  let (chomp, width, cs) ← blockHeader? cs
  let stated := if width = 0 then 0 else level - 1 + width
  let (breaks, widest, rest) ← blockBreaks stated 0 cs
  let indent := if stated = 0 then max (max widest level) 1 else stated
  let block ← blockLines folded indent (rest.length + 1) false [] breaks rest
  let ending := match chomp with
    | .strip => []
    | .clip => block.last
    | .keep => block.last ++ block.trailing
  some (block.text ++ ending, block.rest)

end EventScript.Yaml
