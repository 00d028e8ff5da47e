/-! The tree of a YAML document, and the characters of its text with their places. -/
namespace EventScript

inductive ScalarStyle where
  | plain
  | quoted
  | literal
  | folded
  deriving DecidableEq

/-- Anchors are numbered, and a link stands for the node with its number. -/
inductive Yaml where
  | scalar (style : ScalarStyle) (tag : Option String) (text : String)
  | sequence (items : List Yaml)
  | mapping (entries : List (Yaml × Yaml))
  | anchored (number : Nat) (node : Yaml)
  | link (number : Nat)

namespace Yaml

def absent : Yaml := .scalar .plain none ""

mutual

def withAnchor? (number : Nat) : Yaml → Option Yaml
  | anchored n node => withAnchor? number node <|> if n = number then some node else none
  | sequence items => withAnchorIn? number items
  | mapping entries => withAnchorAmong? number entries
  | _ => none

def withAnchorIn? (number : Nat) : List Yaml → Option Yaml
  | [] => none
  | y :: ys => withAnchorIn? number ys <|> withAnchor? number y

def withAnchorAmong? (number : Nat) : List (Yaml × Yaml) → Option Yaml
  | [] => none
  | (k, v) :: rest => withAnchorAmong? number rest <|> withAnchor? number v <|> withAnchor? number k

end

def target? (root : Yaml) : Yaml → Option Yaml
  | anchored _ node => some node
  | link n => withAnchor? n root
  | y => some y

def isBlank (c : Char) : Bool := c == ' ' || c == '\t'

def isBreak (c : Char) : Bool := c == '\n' || c == '\u2028' || c == '\u2029'

def isFlowMark (c : Char) : Bool := c == ',' || c == '[' || c == ']' || c == '\x7b' || c == '\x7d'

def isWord (c : Char) : Bool := c.isAlphanum || c == '_' || c == '-'

def isAllowed (c : Char) : Bool :=
  let n := c.toNat
  n == 0x9 || n == 0xa || n == 0xd || (0x20 ≤ n && n ≤ 0x7e) || n == 0x85 ||
    (0xa0 ≤ n && n ≤ 0xfffd) || 0x10000 ≤ n

def unifyBreaks : List Char → List Char
  | [] => []
  | '\r' :: '\n' :: cs => '\n' :: unifyBreaks cs
  | c :: cs => (if c == '\r' || c == '\x85' then '\n' else c) :: unifyBreaks cs

structure Glyph where
  char : Char
  index : Nat
  line : Nat
  column : Nat

def place (index line column : Nat) : List Char → List Glyph
  | [] => []
  | c :: cs =>
    ⟨c, index, line, column⟩ ::
      if isBreak c then place (index + 1) (line + 1) 0 cs else place (index + 1) line (column + 1) cs

def glyphs (source : String) : Option (List Glyph) :=
  if source.toList.all isAllowed then some (place 0 0 0 (unifyBreaks source.toList)) else none

def blankAhead (cs : List Glyph) : Bool := cs.head?.all fun c => isBlank c.char || isBreak c.char

def isDocumentMark (mark : Char) : List Glyph → Bool
  | a :: b :: c :: cs =>
    a.column == 0 && a.char == mark && b.char == mark && c.char == mark && blankAhead cs
  | _ => false

def atDocumentMark (cs : List Glyph) : Bool := isDocumentMark '-' cs || isDocumentMark '.' cs

def dropBlanks (cs : List Glyph) : List Glyph := cs.dropWhile fun c => isBlank c.char

def nextLine? (cs : List Glyph) : Option (List Glyph) :=
  let cs := dropBlanks cs
  let cs := if cs.head?.any fun c => c.char == '#' then cs.dropWhile fun c => !isBreak c.char else cs
  match cs with
  | [] => some []
  | c :: cs => if isBreak c.char then some cs else none

end Yaml

end EventScript
