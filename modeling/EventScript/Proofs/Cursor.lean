import EventScript.Node.Parser
import EventScript.Proofs.Grammar

/-! The parser as a walk over numbered tokens. The tokens are kept whole, with what follows
the end mark, and a cursor moves over them; it marks the positions it takes and the tokens
that it looks at. To look where there is no token and to take more turns in a loop than are
allowed are outcomes of their own. -/
namespace EventScript

inductive Stop where
  | fault (e : SyntaxError)
  | outside
  | spent

structure Cursor where
  tokens : Array Token
  position : Nat
  marks : List Nat

namespace Cursor
open Grammar (productMarks sumMarks comparisonMarks)

abbrev Reader := EStateM Stop Cursor

variable {α β : Type}

def mark (i : Nat) (c : Cursor) : Cursor := { c with marks := i :: c.marks }

def stop (s : Stop) : Reader α := fun c => .error s c

def look (i : Nat) : Reader Token := fun c =>
  match c.tokens[i]? with
  | some t => .ok t (c.mark i)
  | none => .error .outside c

def peek : Reader Token := fun c => look (min c.position (c.tokens.size - 1)) c

def previous : Reader Token := fun c => look (c.position - 1) c

/- The last token is never passed. -/
def forward (c : Cursor) : Cursor :=
  if c.position < c.tokens.size - 1 then { c with position := c.position + 1 }.mark (c.position + 1)
  else c

def advance : Reader Token := fun c => previous c.forward

def atEnd : Reader Bool := do
  let t ← peek
  pure (t.kind == .finish)

def check (kind : TokenKind) : Reader Bool := do
  let ended ← atEnd
  if ended then pure false
  else do
    let t ← peek
    pure (t.kind == kind)

def accept (kind : TokenKind) : Reader Bool := do
  let found ← check kind
  if found then do
    let _ ← advance
    pure true
  else pure false

def refuse (f : GrammarFault) : Reader α := do
  let t ← peek
  stop (.fault ⟨.grammar f, t.line⟩)

def expect (kind : TokenKind) (what : Expected) : Reader Nat := do
  let found ← check kind
  if found then do
    let t ← advance
    pure t.line
  else refuse (.missing what)

def expectName (what : Expected) : Reader String := do
  let t ← peek
  match t.kind with
  | .name s => do
    let _ ← advance
    pure s
  | _ => stop (.fault ⟨.grammar (.missing what), t.line⟩)

/- Items up to the closing bracket, which is left. -/
def items (item : Reader α) : (turns : Nat) → Reader (List α)
  | 0 => stop .spent
  | turns + 1 => do
    let closed ← check (.mark .rightBracket)
    if closed then pure []
    else do
      let first ← item
      let more ← accept (.mark .comma)
      if more then do
        let rest ← items item turns
        pure (first :: rest)
      else pure [first]

def enclosed (item : Reader α) (turns : Nat) (close : Expected) : Reader (List α) := do
  let all ← items item turns
  let _ ← expect (.mark .rightBracket) close
  pure all

/- The rule of the first kind that is found, or the last rule. -/
def choose (last : Reader α) : List (TokenKind × Reader α) → Reader α
  | [] => last
  | (kind, rule) :: more => do
    let found ← accept kind
    if found then rule else choose last more

def operators (marks : List (Mark × BinaryOp)) : List (TokenKind × Reader (Option BinaryOp)) :=
  marks.map fun p => (.mark p.1, pure (some p.2))

def operator (marks : List (Mark × BinaryOp)) : Reader (Option BinaryOp) :=
  choose (pure none) (operators marks)

def chain (marks : List (Mark × BinaryOp)) (operand : Reader Node) :
    (turns : Nat) → Node → Reader Node
  | 0, _ => stop .spent
  | turns + 1, left => do
    match ← operator marks with
    | none => pure left
    | some op => do
      let right ← operand
      chain marks operand turns (.binary left.line op left right)

def level (marks : List (Mark × BinaryOp)) (first operand : Reader Node) (turns : Nat) :
    Reader Node := do
  let left ← first
  chain marks operand turns left

def primary (expression : Reader Node) : Reader Node := do
  let group ← accept (.mark .leftParen)
  if group then do
    let inner ← expression
    let _ ← expect (.mark .rightParen) .groupEnd
    pure inner
  else do
    let t ← peek
    match t.kind with
    | .number n => do
      let _ ← advance
      pure (.literal t.line (.number n))
    | .text s => do
      let _ ← advance
      pure (.literal t.line (.text s))
    | .name s => do
      let _ ← advance
      pure (.name t.line s)
    | .finish => stop (.fault ⟨.grammar .endOfInput, t.line⟩)
    | kind => stop (.fault ⟨.grammar (.unexpected kind), t.line⟩)

def suffixed (sign : Mark) (fault : NodeForm → GrammarFault) (first : Reader Node)
    (more : Reader α) (make : Nat → String → α → Node) : Reader Node := do
  let head ← first
  let found ← accept (.mark sign)
  if found then
    match head with
    | .name line name => do
      let inner ← more
      pure (make line name inner)
    | other => stop (.fault ⟨.grammar (fault other.form), other.line⟩)
  else pure head

def call (expression : Reader Node) (turns : Nat) : Reader Node :=
  suffixed .leftBracket .notCallable (primary expression) (enclosed expression turns .argumentsEnd) .call

def product (expression : Reader Node) (turns : Nat) : Reader Node :=
  level productMarks (call expression turns) (primary expression) turns

def sum (expression : Reader Node) (turns : Nat) : Reader Node :=
  level sumMarks (product expression turns) (product expression turns) turns

def comparison (expression : Reader Node) (turns : Nat) : Reader Node :=
  level comparisonMarks (sum expression turns) (sum expression turns) turns

def assignment (expression : Reader Node) (turns : Nat) : Reader Node :=
  suffixed .assign .notAssignable (comparison expression turns) expression .assign

def expression (turns : Nat) : (depth : Nat) → Reader Node
  | 0 => refuse .tooDeep
  | depth + 1 => assignment (expression turns depth) turns

def function (body : Reader (List Node)) (turns : Nat) : Reader Node := do
  let keyword ← previous
  let name ← expectName .functionName
  let _ ← expect (.mark .leftBracket) .parametersStart
  let parameters ← enclosed (expectName .parameterName) turns .parametersEnd
  let _ ← expect (.mark .leftParen) .functionBody
  let statements ← body
  pure (.function keyword.line name parameters statements)

def handler (body : Reader (List Node)) : Reader Node := do
  let keyword ← previous
  let _ ← expect (.mark .leftBracket) .eventStart
  let event ← expectName .eventName
  let _ ← expect (.mark .rightBracket) .eventEnd
  let _ ← expect (.mark .leftParen) .handlerBody
  let statements ← body
  pure (.handler keyword.line event statements)

def guarded (expression : Reader Node) (body : Reader (List Node)) (close start : Expected) :
    Reader (Branch Node) := do
  let _ ← expect (.mark .leftBracket) .conditionStart
  let condition ← expression
  let _ ← expect (.mark .rightBracket) close
  let _ ← expect (.mark .leftParen) start
  let statements ← body
  pure ⟨condition, statements⟩

def branches (branch : Reader (Branch Node)) : (turns : Nat) → Reader (List (Branch Node))
  | 0 => stop .spent
  | turns + 1 => do
    let more ← accept (.keyword .elif)
    if more then do
      let first ← branch
      let rest ← branches branch turns
      pure (first :: rest)
    else pure []

def otherwise (body : Reader (List Node)) : Reader (List Node) := do
  let found ← accept (.keyword .otherwise)
  if found then do
    let _ ← expect (.mark .leftParen) .otherwiseBody
    body
  else pure []

def cond (expression : Reader Node) (body : Reader (List Node)) (turns : Nat) : Reader Node := do
  let keyword ← previous
  let first ← guarded expression body .conditionEnd .condBody
  let more ← branches (guarded expression body .branchEnd .branchBody) turns
  let last ← otherwise body
  pure (.cond keyword.line first.condition first.body more last)

def loop (expression : Reader Node) (body : Reader (List Node)) : Reader Node := do
  let keyword ← previous
  let name ← expectName .loopName
  let _ ← expect (.keyword .within) .loopKeyword
  let iterated ← expression
  let _ ← expect (.mark .leftParen) .loopBody
  let statements ← body
  pure (.loop keyword.line name iterated statements)

def result (expression : Reader Node) : Reader Node := do
  let keyword ← previous
  let value ← expression
  pure (.result keyword.line value)

def declaration (expression : Reader Node) (body : Reader (List Node)) (turns : Nat) : Reader Node :=
  choose expression [(.keyword .function, function body turns), (.keyword .event, handler body),
    (.keyword .cond, cond expression body turns), (.keyword .loop, loop expression body),
    (.keyword .result, result expression)]

/- Declarations up to the closing parenthesis, which is read too. -/
def declarations (declaration : Reader Node) : (turns : Nat) → Reader (List Node)
  | 0 => stop .spent
  | turns + 1 => do
    let closed ← check (.mark .rightParen)
    if closed then do
      let _ ← advance
      pure []
    else do
      let ended ← atEnd
      if ended then refuse (.missing .bodyEnd)
      else do
        let first ← declaration
        let rest ← declarations declaration turns
        pure (first :: rest)

def body (turns : Nat) : (depth : Nat) → Reader (List Node)
  | 0 => refuse .tooDeep
  | depth + 1 =>
    declarations (declaration (expression turns depth) (body turns depth) turns) turns

def program (declaration : Reader Node) : (turns : Nat) → Reader (List Node)
  | 0 => stop .spent
  | turns + 1 => do
    let ended ← atEnd
    if ended then pure []
    else do
      let first ← declaration
      let rest ← program declaration turns
      pure (first :: rest)

def parse (turns : Nat) : Reader (List Node) :=
  program (declaration (expression turns Parser.maxNesting) (body turns Parser.maxNesting) turns) turns

/- An end mark is added where the last token is none. -/
def padded (ts : List Token) : List Token :=
  if ts.getLast?.any (·.kind == .finish) then ts else ts ++ [⟨.finish, Token.lastLine ts⟩]

def start (ts : List Token) : Cursor := ⟨(padded ts).toArray, 0, []⟩

end Cursor

end EventScript
