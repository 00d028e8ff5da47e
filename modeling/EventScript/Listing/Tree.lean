import EventScript.Listing.Outline
import EventScript.Listing.Json
import EventScript.Token.Basic
import EventScript.Store
/-! Listings of tokens, trees, values and frames. -/
namespace EventScript

namespace TokenKind

def toJson : TokenKind → Json
  | number n => .record [("Number", .number n)]
  | text s => .record [("Str", .text s)]
  | name s => .record [("Ident", .text s)]
  | kind => .text kind.label

end TokenKind

namespace Token

def toJson (t : Token) : Json := .record [("kind", t.kind.toJson), ("line", .natural t.line)]

def padLeft (width : Nat) (s : String) : String :=
  String.ofList (List.replicate (width - s.length) ' ') ++ s

def padRight (width : Nat) (s : String) : String :=
  s ++ String.ofList (List.replicate (width - s.length) ' ')

def row (t : Token) : String :=
  padLeft 4 (toString t.line) ++ "  " ++ padRight 8 t.kind.label ++ " " ++ t.kind.spelling

end Token

namespace Literal

def outline : Literal → Outline
  | number n => .tuple "Number" [.number n]
  | text s => .tuple "Str" [.text s]

def toJson : Literal → Json
  | number n => .record [("Number", .number n)]
  | text s => .record [("Str", .text s)]

end Literal

namespace Node

def listed (line : Nat) (form : Outline) : Outline :=
  .record "Node" [("kind", form), ("line", .atom (toString line))] true

mutual

def outline : Node → Outline
  | literal line value => listed line (.tuple "Literal" [value.outline])
  | name line s => listed line (.tuple "Identifier" [.text s])
  | binary line op left right => listed line (.record "Binary"
      [("op", .atom op.label), ("left", outline left), ("right", outline right)] true)
  | assign line target value => listed line (.record "Assignment"
      [("target", .text target), ("value", outline value)] true)
  | call line callee arguments => listed line (.record "FuncCall"
      [("name", .text callee), ("args", .list (outlineAll arguments))] true)
  | function line f parameters body => listed line (.record "FuncDef"
      [("name", .text f), ("params", .texts parameters), ("body", .list (outlineAll body))] true)
  | cond line condition body branches otherwise => listed line (.record "If"
      [("condition", outline condition), ("body", .list (outlineAll body)),
        ("elif_branches", .list (outlineBranches branches)),
        ("else_body", .list (outlineAll otherwise))] true)
  | loop line x items body => listed line (.record "For"
      [("var", .text x), ("iterable", outline items), ("body", .list (outlineAll body))] true)
  | handler line event body => listed line (.record "EventHandler"
      [("event_type", .text event), ("body", .list (outlineAll body))] true)
  | result line value => listed line (.tuple "Return" [outline value])

def outlineAll : List Node → List Outline
  | [] => []
  | n :: ns => outline n :: outlineAll ns

def outlineBranches : List (Branch Node) → List Outline
  | [] => []
  | ⟨condition, body⟩ :: rest =>
    .record "ElifBranch" [("condition", outline condition), ("body", .list (outlineAll body))] true ::
      outlineBranches rest

end

def tagged (line : Nat) (form : String) (parts : Json) : Json :=
  .record [("kind", .record [(form, parts)]), ("line", .natural line)]

mutual

def toJson : Node → Json
  | literal line value => tagged line "Literal" value.toJson
  | name line s => tagged line "Identifier" (.text s)
  | binary line op left right => tagged line "Binary" (.record
      [("op", .text op.label), ("left", toJson left), ("right", toJson right)])
  | assign line target value => tagged line "Assignment" (.record
      [("target", .text target), ("value", toJson value)])
  | call line callee arguments => tagged line "FuncCall" (.record
      [("name", .text callee), ("args", .list (toJsonAll arguments))])
  | function line f parameters body => tagged line "FuncDef" (.record
      [("name", .text f), ("params", .list (parameters.map Json.text)),
        ("body", .list (toJsonAll body))])
  | cond line condition body branches otherwise => tagged line "If" (.record
      [("condition", toJson condition), ("body", .list (toJsonAll body)),
        ("elif_branches", .list (toJsonBranches branches)),
        ("else_body", .list (toJsonAll otherwise))])
  | loop line x items body => tagged line "For" (.record
      [("var", .text x), ("iterable", toJson items), ("body", .list (toJsonAll body))])
  | handler line event body => tagged line "EventHandler" (.record
      [("event_type", .text event), ("body", .list (toJsonAll body))])
  | result line value => tagged line "Return" (toJson value)

def toJsonAll : List Node → List Json
  | [] => []
  | n :: ns => toJson n :: toJsonAll ns

def toJsonBranches : List (Branch Node) → List Json
  | [] => []
  | ⟨condition, body⟩ :: rest =>
    .record [("condition", toJson condition), ("body", .list (toJsonAll body))] ::
      toJsonBranches rest

end

end Node

namespace Builtin

def label : Builtin → String
  | print => "Print"
  | commandPrint => "CommandPrint"
  | lang => "Lang"
  | input => "Input"
  | int => "Int"
  | range => "Range"
  | register => "Register"
  | dispatch => "Dispatch"

end Builtin

namespace Value

mutual

def outline : Value → Outline
  | undefined => .atom "Undefined"
  | null => .atom "Null"
  | bool b => .tuple "Bool" [.atom (if b then "true" else "false")]
  | number n => .tuple "Number" [.number n]
  | text s => .tuple "Str" [.text s]
  | list _ items => .tuple "List" [.list (outlineAll items)]
  | function _ closure => .tuple "Function" [.record "Function"
      [("name", .text closure.name), ("params", .texts closure.parameters)] false]
  | builtin b => .tuple "Builtin" [.atom b.label]

def outlineAll : List Value → List Outline
  | [] => []
  | v :: vs => outline v :: outlineAll vs

end

end Value

namespace Frame

def outline (f : Frame) : Outline :=
  .record "Scope"
    [("function", .atom (if f.isFunction then "true" else "false")),
      ("bindings", .atom (toString f.bindings.length))] false

end Frame

end EventScript
