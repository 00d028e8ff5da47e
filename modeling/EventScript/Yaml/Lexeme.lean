import EventScript.Yaml.Scalar
/-! The lexemes of a YAML text. Block collections show only in the columns of their
parts, and a key only by the colon after it, so both get lexemes of their own here. -/
namespace EventScript.Yaml

inductive Lexeme where
  | directive
  | documentStart
  | documentEnd
  | blockSequence
  | blockMapping
  | blockEnd
  | flowSequence
  | flowSequenceEnd
  | flowMapping
  | flowMappingEnd
  | item
  | comma
  | key
  | value
  | anchor (number : Nat)
  | link (number : Nat)
  | tag (name : String)
  | scalar (style : ScalarStyle) (text : String)
  deriving DecidableEq

structure Candidate where
  needed : Bool
  before : Nat
  start : Glyph

structure Layout where
  rest : List Glyph
  lexemes : Array Lexeme
  columns : List Nat
  candidate : Option Candidate
  suspended : List (Option Candidate)
  mayStartKey : Bool
  versioned : Bool
  handles : List (String × String)
  anchors : List (String × Nat)

namespace Layout

def start (cs : List Glyph) : Layout := ⟨cs, #[], [], none, [], true, false, [], []⟩

def inFlow (s : Layout) : Bool := !s.suspended.isEmpty

def level (s : Layout) : Nat := (s.columns.head?.map (· + 1)).getD 0

def push (s : Layout) (l : Lexeme) (rest : List Glyph) : Layout :=
  { s with lexemes := s.lexemes.push l, rest }

def closeBlocks (s : Layout) (limit : Nat) : Layout :=
  if s.inFlow then s
  else
    let closed := s.columns.takeWhile (limit ≤ ·)
    { s with
      columns := s.columns.drop closed.length
      lexemes := s.lexemes ++ (closed.map fun _ => Lexeme.blockEnd).toArray }

def openBlock (s : Layout) (column before : Nat) (l : Lexeme) : Layout :=
  if s.inFlow || column < s.level then s
  else { s with columns := column :: s.columns, lexemes := s.lexemes.insertIdxIfInBounds before l }

def dropCandidate (s : Layout) : Option Layout :=
  if s.candidate.any (·.needed) then none else some { s with candidate := none }

def saveCandidate (s : Layout) (c : Glyph) : Option Layout :=
  if s.mayStartKey then do
    let s ← s.dropCandidate
    let needed := !s.inFlow && s.level == c.column + 1
    some { s with candidate := some ⟨needed, s.lexemes.size, c⟩ }
  else some s

/-- The candidate for the colon at `c`: a key has one line and 1024 characters. -/
def keyFor (s : Layout) (c : Glyph) : Option (Option Candidate) :=
  match s.candidate with
  | none => some none
  | some k =>
    if k.start.line < c.line || k.start.index + 1024 < c.index then
      if k.needed then none else some none
    else some (some k)

def openFlow (s : Layout) (c : Glyph) (l : Lexeme) (cs : List Glyph) : Option Layout := do
  let s ← s.saveCandidate c
  some { s.push l cs with
    suspended := s.candidate :: s.suspended, candidate := none, mayStartKey := true }

def closeFlow (s : Layout) (l : Lexeme) (cs : List Glyph) : Option Layout := do
  let s ← s.dropCandidate
  some { s.push l cs with
    candidate := s.suspended.head?.getD none, suspended := s.suspended.tail, mayStartKey := false }

def comma (s : Layout) (cs : List Glyph) : Option Layout := do
  let s ← s.dropCandidate
  some { s.push .comma cs with mayStartKey := true }

def item (s : Layout) (c : Glyph) (cs : List Glyph) : Option Layout := do
  if !s.inFlow && !s.mayStartKey then none
  else
    let s ← (s.openBlock c.column s.lexemes.size .blockSequence).dropCandidate
    some { s.push .item cs with mayStartKey := true }

def explicitKey (s : Layout) (c : Glyph) (cs : List Glyph) : Option Layout := do
  if !s.inFlow && !s.mayStartKey then none
  else
    let s ← (s.openBlock c.column s.lexemes.size .blockMapping).dropCandidate
    some { s.push .key cs with mayStartKey := !s.inFlow }

def colon (s : Layout) (c : Glyph) (cs : List Glyph) : Option Layout := do
  match ← s.keyFor c with
  | some k =>
    let s := { s with lexemes := s.lexemes.insertIdxIfInBounds k.before .key, candidate := none }
    let s := s.openBlock k.start.column k.before .blockMapping
    some { s.push .value cs with mayStartKey := false }
  | none =>
    if !s.inFlow && !s.mayStartKey then none
    else
      let s := { s.openBlock c.column s.lexemes.size .blockMapping with candidate := none }
      some { s.push .value cs with mayStartKey := !s.inFlow }

def documentMark (s : Layout) (l : Lexeme) (cs : List Glyph) : Option Layout := do
  let s ← (s.closeBlocks 0).dropCandidate
  some { s.push l cs with mayStartKey := false }

def plainScalar (s : Layout) (c : Glyph) (cs : List Glyph) : Option Layout := do
  let s ← s.saveCandidate c
  let (text, broken, rest) ← plain s.inFlow s.level .empty (c :: cs)
  some { s.push (.scalar .plain (String.ofList text)) rest with mayStartKey := broken }

def quotedScalar (s : Layout) (c : Glyph) (cs : List Glyph) : Option Layout := do
  let s ← s.saveCandidate c
  let (text, rest) ←
    if c.char == '"' then doubleQuoted .closed .empty cs else singleQuoted .empty cs
  some { s.push (.scalar .quoted (String.ofList text)) rest with mayStartKey := false }

def blockScalar (s : Layout) (style : ScalarStyle) (cs : List Glyph) : Option Layout := do
  if s.inFlow then none
  else
    let s ← s.dropCandidate
    let (text, rest) ← Yaml.blockScalar (style = .folded) s.level cs
    some { s.push (.scalar style (String.ofList text)) rest with mayStartKey := true }

def word (cs : List Glyph) : String × List Glyph :=
  let (w, rest) := cs.span fun c => isWord c.char
  (String.ofList (w.map Glyph.char), rest)

def anchorName? (cs : List Glyph) : Option (String × List Glyph) :=
  let (name, rest) := word cs
  let ends := blankAhead rest || rest.head?.any fun c => "?:,]\x7d%@\x60".toList.contains c.char
  if name.isEmpty || !ends then none else some (name, rest)

def anchor (s : Layout) (c : Glyph) (cs : List Glyph) : Option Layout := do
  let s ← s.saveCandidate c
  let (name, rest) ← anchorName? cs
  let number := s.anchors.length
  let others := s.anchors.filter fun a => a.1 != name
  some { s.push (.anchor number) rest with anchors := (name, number) :: others, mayStartKey := false }

def link (s : Layout) (c : Glyph) (cs : List Glyph) : Option Layout := do
  let s ← s.saveCandidate c
  let (name, rest) ← anchorName? cs
  some { s.push (.link (← s.anchors.lookup name)) rest with mayStartKey := false }

def isTagChar (wide : Bool) (c : Char) : Bool :=
  isWord c || ";/?:@&=+$.!~*'()".toList.contains c || (wide && (c == ',' || c == '[' || c == ']'))

/-- The characters of a tag. A percent sign stands before each octet of an encoded
character, of which `left` are to come. -/
def tagText (wide : Bool) : (left code : Nat) → List Glyph → Option (List Char × List Glyph)
  | left, _, [] => if left = 0 then some ([], []) else none
  | left, code, c :: cs =>
    if c.char == '%' then
      match cs with
      | a :: b :: rest => do
        let octet := 16 * (← hexDigit? a.char) + (← hexDigit? b.char)
        if left = 0 then
          if octet < 0x80 then do
            let (text, rest) ← tagText wide 0 0 rest
            some (Char.ofNat octet :: text, rest)
          else if octet / 32 = 6 then tagText wide 1 (octet % 32) rest
          else if octet / 16 = 14 then tagText wide 2 (octet % 16) rest
          else if octet / 8 = 30 then tagText wide 3 (octet % 8) rest
          else none
        else if octet / 64 = 2 then
          let code := 64 * code + octet % 64
          if left = 1 then do
            let (text, rest) ← tagText wide 0 0 rest
            some (Char.ofNat code :: text, rest)
          else tagText wide (left - 1) code rest
        else none
      | _ => none
    else if left != 0 then none
    else if isTagChar wide c.char then do
      let (text, rest) ← tagText wide 0 0 cs
      some (c.char :: text, rest)
    else some ([], c :: cs)

def handle? (cs : List Glyph) : Option (String × List Glyph) :=
  let (w, rest) := word cs
  match rest with
  | c :: rest' =>
    if c.char == '!' then some ("!" ++ w ++ "!", rest')
    else if w.isEmpty then some ("!", rest) else none
  | [] => if w.isEmpty then some ("!", []) else none

def expand? (s : Layout) (handle suffix : String) : Option String := do
  let stem ← (s.handles ++ [("!", "!"), ("!!", "tag:yaml.org,2002:")]).lookup handle
  some (stem ++ suffix)

def tagName? (s : Layout) (cs : List Glyph) : Option (String × List Glyph) := do
  if cs.head?.any fun c => c.char == '<' then
    let (text, rest) ← tagText true 0 0 cs.tail
    match rest with
    | c :: rest =>
      if c.char == '>' && !text.isEmpty then some (String.ofList text, rest) else none
    | [] => none
  else
    let (w, rest) := word cs
    if rest.head?.any fun c => c.char == '!' then
      let (text, rest) ← tagText false 0 0 rest.tail
      if text.isEmpty then none
      else some (← s.expand? ("!" ++ w ++ "!") (String.ofList text), rest)
    else
      let (text, rest) ← tagText false 0 0 rest
      let suffix := w ++ String.ofList text
      if suffix.isEmpty then some ("!", rest) else some (← s.expand? "!" suffix, rest)

def tag (s : Layout) (c : Glyph) (cs : List Glyph) : Option Layout := do
  let s ← s.saveCandidate c
  let (name, rest) ← s.tagName? cs
  if blankAhead rest || (s.inFlow && rest.head?.any fun c => c.char == ',') then
    some { s.push (.tag name) rest with mayStartKey := false }
  else none

def number? (cs : List Glyph) : Option (Nat × List Glyph) :=
  let (digits, rest) := cs.span fun c => c.char.isDigit
  if digits.isEmpty || 9 < digits.length then none
  else some (digits.foldl (fun n c => 10 * n + (c.char.toNat - '0'.toNat)) 0, rest)

def version? (cs : List Glyph) : Option (List Glyph) := do
  match ← number? cs with
  | (1, c :: rest) =>
    let (minor, rest) ← number? rest
    if c.char == '.' && (minor == 1 || minor == 2) then some rest else none
  | _ => none

def handleRule? : List Glyph → Option ((String × String) × List Glyph)
  | [] => none
  | c :: cs => do
    if c.char != '!' then none
    else
      let (handle, rest) ← handle? cs
      if !rest.head?.any fun d => isBlank d.char then none
      else
        let (stem, rest) ← tagText true 0 0 (dropBlanks rest)
        if stem.isEmpty || !blankAhead rest then none
        else some ((handle, String.ofList stem), rest)

def directive (s : Layout) (cs : List Glyph) : Option Layout := do
  let s ← (s.closeBlocks 0).dropCandidate
  let (name, rest) := word cs
  if !blankAhead rest then none
  else if name = "YAML" then
    if s.versioned then none
    else
      let rest ← version? (dropBlanks rest)
      some { s.push .directive (← nextLine? rest) with versioned := true, mayStartKey := false }
  else if name = "TAG" then
    let (rule, rest) ← handleRule? (dropBlanks rest)
    if (s.handles.lookup rule.1).isSome then none
    else
      some { s.push .directive (← nextLine? rest) with
        handles := rule :: s.handles, mayStartKey := false }
  else none

def next (s : Layout) (c : Glyph) (cs : List Glyph) : Option Layout :=
  if c.column == 0 && c.char == '%' then s.directive cs
  else if isDocumentMark '-' (c :: cs) then s.documentMark .documentStart (cs.drop 2)
  else if isDocumentMark '.' (c :: cs) then s.documentMark .documentEnd (cs.drop 2)
  else
    match c.char with
    | '[' => s.openFlow c .flowSequence cs
    | '\x7b' => s.openFlow c .flowMapping cs
    | ']' => s.closeFlow .flowSequenceEnd cs
    | '\x7d' => s.closeFlow .flowMappingEnd cs
    | ',' => s.comma cs
    | '-' => if blankAhead cs then s.item c cs else s.plainScalar c cs
    | '?' => if s.inFlow || blankAhead cs then s.explicitKey c cs else s.plainScalar c cs
    | ':' => if s.inFlow || blankAhead cs then s.colon c cs else s.plainScalar c cs
    | '*' => s.link c cs
    | '&' => s.anchor c cs
    | '!' => s.tag c cs
    | '|' => s.blockScalar .literal cs
    | '>' => s.blockScalar .folded cs
    | '\'' | '"' => s.quotedScalar c cs
    | '\t' | '%' | '@' | '\x60' => none
    | _ => s.plainScalar c cs

/-- Skips blanks, comments, line breaks and a byte order mark that starts a line. Where
a key may start, tabs are no blanks; outside flow collections, one may start on each
new line. -/
def skip (inFlow : Bool) : (mayStartKey inComment : Bool) → List Glyph → Bool × List Glyph
  | mayStartKey, _, [] => (mayStartKey, [])
  | mayStartKey, inComment, c :: cs =>
    if isBreak c.char then skip inFlow (mayStartKey || !inFlow) false cs
    else if inComment || c.char == ' ' || (c.char == '\t' && (inFlow || !mayStartKey)) ||
        (c.char == '\ufeff' && c.column == 0) then
      skip inFlow mayStartKey inComment cs
    else if c.char == '#' then skip inFlow mayStartKey true cs
    else (mayStartKey, c :: cs)

def finish (s : Layout) : Option (List Lexeme) := do
  let s ← (s.closeBlocks 0).dropCandidate
  some s.lexemes.toList

def run (s : Layout) : Option (List Lexeme) :=
  let (mayStartKey, rest) := skip s.inFlow s.mayStartKey false s.rest
  match rest with
  | [] => finish { s with mayStartKey, rest }
  | c :: cs =>
    match next (closeBlocks { s with mayStartKey, rest } (c.column + 1)) c cs with
    | none => none
    | some after => if _ : after.rest.length < s.rest.length then run after else none
termination_by s.rest.length

end Layout

def lexemes? (source : String) : Option (List Lexeme) := do (Layout.start (← glyphs source)).run

end EventScript.Yaml
