import EventScript.Preamble
import EventScript.Node.Parser
import EventScript.Text.Basic
/-! Syntax trees as JavaScript text. Arithmetic stands in parentheses and
comparisons stand bare, except where a comparison would regroup. -/
namespace EventScript

structure EmitOptions where
  preamble : Bool
  indent : Nat
  deriving DecidableEq

namespace EmitOptions

def default : EmitOptions := ⟨true, 2⟩

end EmitOptions

namespace Emit

/-- Bare numerals, and the target's names for what has no digits. -/
def numeral : NumberFormat :=
  { NumberFormat.source with infinity := "Infinity", negativeInfinity := "-Infinity" }

def escapeChar (c : Char) : List Char :=
  if c = '\\' then ['\\', '\\']
  else if c = '\n' then ['\\', 'n']
  else if c = '\r' then ['\\', 'r']
  else if c = '\t' then ['\\', 't']
  else if c = '"' then ['\\', '"']
  else if c = '\'' then ['\\', '\'']
  else [c]

def escapeChars (cs : List Char) : List Char := cs.flatMap escapeChar

def quoteChars (cs : List Char) : List Char := '"' :: escapeChars cs ++ ['"']

def escape (s : String) : String := String.ofList (escapeChars s.toList)

def quote (s : String) : String := String.ofList (quoteChars s.toList)

/- Fixed parts of the output. They stay closed when a definition is opened. -/
@[irreducible] def spelled (s : String) : List Char := s.toList

def ended (position : Position) (cs : List Char) : List Char :=
  match position with
  | .statement => cs ++ [';']
  | .operand => cs

def grouped (group : Bool) (cs : List Char) : List Char :=
  if group then '(' :: cs ++ [')'] else cs

def operator : BinaryOp → List Char
  | .add => spelled " + "
  | .subtract => spelled " - "
  | .multiply => spelled " * "
  | .divide => spelled " / "
  | .same => spelled " === "
  | .differs => spelled " !== "

def separated (parts : List (List Char)) : List Char := List.intercalate (spelled ", ") parts

def indented (indent : Nat) (cs : List Char) : List Char :=
  (Text.lines cs).flatMap fun line => List.replicate indent ' ' ++ line ++ ['\n']

def braced (cs : List Char) : List Char := spelled "\x7b\n" ++ cs ++ ['\x7d']

mutual

/-- A node in its place. A statement where a value is expected is written as it is. -/
def node (indent : Nat) (position : Position) : Node → List Char
  | .literal _ (.number n) => ended position (numeral.chars n)
  | .literal _ (.text s) => ended position (quoteChars s.toList)
  | .name _ s => ended position s.toList
  | .binary _ op l r =>
    let left := grouped (l.isComparison && !op.isComparison) (node indent .operand l)
    let right := grouped r.isComparison (node indent .operand r)
    ended position (grouped (!op.isComparison) (left ++ operator op ++ right))
  | .assign _ target value =>
    let text := target.toList ++ spelled " = " ++ node indent .operand value
    match position with
    | .statement => spelled "var " ++ text ++ [';']
    | .operand => grouped true text
  | .call _ callee arguments =>
    ended position (callee.toList ++ grouped true (separated (operands indent arguments)))
  | .function _ name parameters body =>
    spelled "function " ++ name.toList ++ grouped true (separated (parameters.map String.toList)) ++
      [' '] ++ braced (block indent body)
  | .cond _ condition body branches otherwise =>
    spelled "if (" ++ node indent .operand condition ++ spelled ") " ++ braced (block indent body) ++
      arms indent branches ++
      (if otherwise.isEmpty then [] else spelled " else " ++ braced (block indent otherwise))
  | .loop _ name items body =>
    spelled "for (let " ++ name.toList ++ spelled " of " ++ node indent .operand items ++
      spelled ") " ++ braced (block indent body)
  | .handler _ event body =>
    spelled "__register__(" ++ quoteChars event.toList ++ spelled ", function() " ++
      braced (block indent body) ++ spelled ");"
  | .result _ value => spelled "return " ++ node indent .operand value ++ [';']

def operands (indent : Nat) : List Node → List (List Char)
  | [] => []
  | n :: ns => node indent .operand n :: operands indent ns

def block (indent : Nat) : List Node → List Char
  | [] => []
  | n :: ns => indented indent (node indent .statement n) ++ block indent ns

def arms (indent : Nat) : List (Branch Node) → List Char
  | [] => []
  | ⟨condition, body⟩ :: rest =>
    spelled " else if (" ++ node indent .operand condition ++ spelled ") " ++
      braced (block indent body) ++ arms indent rest

end

def declarations (indent : Nat) (program : List Node) : List Char :=
  program.flatMap fun n => node indent .statement n ++ ['\n']

def program (options : EmitOptions) (program : List Node) : String :=
  (if options.preamble then Preamble.text else "") ++
    String.ofList (declarations options.indent program)

end Emit

def compile (options : EmitOptions) (source : String) : Except SyntaxError String := do
  let program ← parse source
  .ok (Emit.program options program)

end EventScript
