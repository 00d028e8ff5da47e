import EventScript.Token.Lexer
/-! From tokens to syntax trees. A rule reads a phrase from the front of the
tokens and returns what is left, which is shorter. Expressions and bodies nest at
most `maxNesting` deep: each rule that nests is given the rules of the next level. -/
namespace EventScript.Parser

def maxNesting : Nat := 100

structure Phrase (α : Type) (bound : Nat) where
  value : α
  rest : List Token
  short : rest.length < bound

abbrev Rule (α : Type) := (ts : List Token) → Except SyntaxError (Phrase α ts.length)

abbrev Tail (α : Type) := (ts : List Token) → Except SyntaxError (Phrase α (ts.length + 1))

namespace Phrase

def widen {α : Type} {m n : Nat} (p : Phrase α m) (h : m ≤ n) : Phrase α n :=
  ⟨p.value, p.rest, Nat.lt_of_lt_of_le p.short h⟩

end Phrase

def nextLine (endLine : Nat) : List Token → Nat
  | [] => endLine
  | t :: _ => t.line

def fail {α : Type} (endLine : Nat) (ts : List Token) (f : GrammarFault) : Except SyntaxError α :=
  .error ⟨.grammar f, nextLine endLine ts⟩

def expect (endLine : Nat) (kind : TokenKind) (what : Expected) : Rule Nat
  | [] => fail endLine [] (.missing what)
  | t :: ts =>
    if t.kind = kind then .ok ⟨t.line, ts, by simp⟩ else fail endLine (t :: ts) (.missing what)

def expectName (endLine : Nat) (what : Expected) : Rule String
  | [] => fail endLine [] (.missing what)
  | t :: ts =>
    match t.kind with
    | .name s => .ok ⟨s, ts, by simp⟩
    | _ => fail endLine (t :: ts) (.missing what)

/-- Items up to the closing bracket, which is read too. The last item may have a
comma after it. -/
def items {α : Type} (endLine : Nat) (item : Rule α) (close : Expected) (ts : List Token) :
    Except SyntaxError (Phrase (List α) ts.length) :=
  match ts with
  | [] => do
    let first ← item []
    nomatch first.short
  | t :: rest =>
    if t.kind = .mark .rightBracket then .ok ⟨[], rest, by simp⟩
    else do
      let first ← item (t :: rest)
      have := first.short
      match h : first.rest with
      | [] => fail endLine [] (.missing close)
      | u :: after =>
        have : after.length < rest.length := by simpa [h] using first.short
        if u.kind = .mark .comma then do
          let more ← items endLine item close after
          have := more.short
          .ok ⟨first.value :: more.value, more.rest, by simp; omega⟩
        else if u.kind = .mark .rightBracket then .ok ⟨[first.value], after, by simp; omega⟩
        else fail endLine (u :: after) (.missing close)
termination_by ts.length
decreasing_by simp only [List.length_cons]; omega

def chain (operator? : TokenKind → Option BinaryOp) (operand : Rule Node) (left : Node)
    (ts : List Token) : Except SyntaxError (Phrase Node (ts.length + 1)) :=
  match ts with
  | [] => .ok ⟨left, [], by simp⟩
  | t :: rest =>
    match operator? t.kind with
    | none => .ok ⟨left, t :: rest, by simp⟩
    | some op => do
      let right ← operand rest
      have := right.short
      let more ← chain operator? operand (.binary left.line op left right.value) right.rest
      .ok (more.widen (by simp; omega))
termination_by ts.length
decreasing_by simp only [List.length_cons]; omega

def level (operator? : TokenKind → Option BinaryOp) (first operand : Rule Node) : Rule Node :=
  fun ts => do
    let left ← first ts
    let all ← chain operator? operand left.value left.rest
    .ok (all.widen (by have := left.short; omega))

def product? : TokenKind → Option BinaryOp
  | .mark .star => some .multiply
  | .mark .slash => some .divide
  | _ => none

def sum? : TokenKind → Option BinaryOp
  | .mark .plus => some .add
  | .mark .minus => some .subtract
  | _ => none

def comparison? : TokenKind → Option BinaryOp
  | .mark .same => some .same
  | .mark .differs => some .differs
  | _ => none

def primary (endLine : Nat) (expression : Rule Node) : Rule Node
  | [] => fail endLine [] .endOfInput
  | t :: ts =>
    match t.kind with
    | .mark .leftParen => do
      let inner ← expression ts
      let close ← expect endLine (.mark .rightParen) .groupEnd inner.rest
      .ok ⟨inner.value, close.rest, by have := inner.short; have := close.short; simp; omega⟩
    | .number n => .ok ⟨.literal t.line (.number n), ts, by simp⟩
    | .text s => .ok ⟨.literal t.line (.text s), ts, by simp⟩
    | .name s => .ok ⟨.name t.line s, ts, by simp⟩
    | .finish => fail endLine (t :: ts) .endOfInput
    | kind => fail endLine (t :: ts) (.unexpected kind)

/- After a name the mark starts more of the phrase. After anything else it is a fault. -/
def suffixed {α : Type} (sign : Mark) (fault : NodeForm → GrammarFault) (first : Rule Node)
    (more : Rule α) (make : Nat → String → α → Node) : Rule Node := fun ts => do
  let head ← first ts
  have := head.short
  match h : head.rest with
  | [] => .ok head
  | t :: rest =>
    have : rest.length < head.rest.length := by simp [h]
    if t.kind = .mark sign then
      match head.value with
      | .name line name => do
        let inner ← more rest
        .ok ⟨make line name inner.value, inner.rest, by have := inner.short; omega⟩
      | other => .error ⟨.grammar (fault other.form), other.line⟩
    else .ok head

def call (endLine : Nat) (expression : Rule Node) : Rule Node := fun ts =>
  suffixed .leftBracket .notCallable (primary endLine expression)
    (items endLine expression .argumentsEnd) .call ts

/-- The right operand of a product is a primary: a call there needs parentheses. -/
def product (endLine : Nat) (expression : Rule Node) : Rule Node :=
  level product? (call endLine expression) (primary endLine expression)

def sum (endLine : Nat) (expression : Rule Node) : Rule Node :=
  level sum? (product endLine expression) (product endLine expression)

def comparison (endLine : Nat) (expression : Rule Node) : Rule Node :=
  level comparison? (sum endLine expression) (sum endLine expression)

def assignment (endLine : Nat) (expression : Rule Node) : Rule Node := fun ts =>
  suffixed .assign .notAssignable (comparison endLine expression) expression .assign ts

def expression (endLine : Nat) : (depth : Nat) → Rule Node
  | 0 => fun ts => fail endLine ts .tooDeep
  | depth + 1 => assignment endLine (expression endLine depth)

def function (endLine : Nat) (body : Rule (List Node)) (line : Nat) : Rule Node := fun ts => do
  let name ← expectName endLine .functionName ts
  let open' ← expect endLine (.mark .leftBracket) .parametersStart name.rest
  let parameters ← items endLine (expectName endLine .parameterName) .parametersEnd open'.rest
  let start ← expect endLine (.mark .leftParen) .functionBody parameters.rest
  let body ← body start.rest
  .ok ⟨.function line name.value parameters.value body.value, body.rest, by
    have := name.short; have := open'.short; have := parameters.short; have := start.short
    have := body.short; omega⟩

def handler (endLine : Nat) (body : Rule (List Node)) (line : Nat) : Rule Node := fun ts => do
  let open' ← expect endLine (.mark .leftBracket) .eventStart ts
  let event ← expectName endLine .eventName open'.rest
  let close ← expect endLine (.mark .rightBracket) .eventEnd event.rest
  let start ← expect endLine (.mark .leftParen) .handlerBody close.rest
  let body ← body start.rest
  .ok ⟨.handler line event.value body.value, body.rest, by
    have := open'.short; have := event.short; have := close.short; have := start.short
    have := body.short; omega⟩

def guarded (endLine : Nat) (expression : Rule Node) (body : Rule (List Node))
    (close start : Expected) : Rule (Branch Node) := fun ts => do
  let open' ← expect endLine (.mark .leftBracket) .conditionStart ts
  let condition ← expression open'.rest
  let close ← expect endLine (.mark .rightBracket) close condition.rest
  let start ← expect endLine (.mark .leftParen) start close.rest
  let body ← body start.rest
  .ok ⟨⟨condition.value, body.value⟩, body.rest, by
    have := open'.short; have := condition.short; have := close.short; have := start.short
    have := body.short; omega⟩

def branches (branch : Rule (Branch Node)) (ts : List Token) :
    Except SyntaxError (Phrase (List (Branch Node)) (ts.length + 1)) :=
  match ts with
  | [] => .ok ⟨[], [], by simp⟩
  | t :: rest =>
    if t.kind = .keyword .elif then do
      let first ← branch rest
      have := first.short
      let more ← branches branch first.rest
      .ok ⟨first.value :: more.value, more.rest, by have := more.short; simp; omega⟩
    else .ok ⟨[], t :: rest, by simp⟩
termination_by ts.length
decreasing_by simp only [List.length_cons]; omega

def otherwise (endLine : Nat) (body : Rule (List Node)) : Tail (List Node)
  | [] => .ok ⟨[], [], by simp⟩
  | t :: rest =>
    if t.kind = .keyword .otherwise then do
      let start ← expect endLine (.mark .leftParen) .otherwiseBody rest
      let body ← body start.rest
      .ok ⟨body.value, body.rest, by have := start.short; have := body.short; simp; omega⟩
    else .ok ⟨[], t :: rest, by simp⟩

def cond (endLine : Nat) (expression : Rule Node) (body : Rule (List Node)) (line : Nat) :
    Rule Node := fun ts => do
  let first ← guarded endLine expression body .conditionEnd .condBody ts
  let more ← branches (guarded endLine expression body .branchEnd .branchBody) first.rest
  let last ← otherwise endLine body more.rest
  .ok ⟨.cond line first.value.condition first.value.body more.value last.value, last.rest, by
    have := first.short; have := more.short; have := last.short; omega⟩

def loop (endLine : Nat) (expression : Rule Node) (body : Rule (List Node)) (line : Nat) :
    Rule Node := fun ts => do
  let name ← expectName endLine .loopName ts
  let within ← expect endLine (.keyword .within) .loopKeyword name.rest
  let items ← expression within.rest
  let start ← expect endLine (.mark .leftParen) .loopBody items.rest
  let body ← body start.rest
  .ok ⟨.loop line name.value items.value body.value, body.rest, by
    have := name.short; have := within.short; have := items.short; have := start.short
    have := body.short; omega⟩

def result (expression : Rule Node) (line : Nat) : Rule Node := fun ts => do
  let value ← expression ts
  .ok ⟨.result line value.value, value.rest, value.short⟩

def declaration (endLine : Nat) (expression : Rule Node) (body : Rule (List Node)) : Rule Node
  | [] => expression []
  | t :: ts =>
    let after (rule : Nat → Rule Node) : Except SyntaxError (Phrase Node (t :: ts).length) := do
      let node ← rule t.line ts
      .ok (node.widen (by simp))
    match t.kind with
    | .keyword .function => after (function endLine body)
    | .keyword .event => after (handler endLine body)
    | .keyword .cond => after (cond endLine expression body)
    | .keyword .loop => after (loop endLine expression body)
    | .keyword .result => after (result expression)
    | _ => expression (t :: ts)

def declarations (endLine : Nat) (declaration : Rule Node) (ts : List Token) :
    Except SyntaxError (Phrase (List Node) ts.length) :=
  match ts with
  | [] => fail endLine [] (.missing .bodyEnd)
  | t :: rest =>
    if t.kind = .mark .rightParen then .ok ⟨[], rest, by simp⟩
    else do
      let first ← declaration (t :: rest)
      have := first.short
      let more ← declarations endLine declaration first.rest
      .ok ⟨first.value :: more.value, more.rest, by have := more.short; omega⟩
termination_by ts.length
decreasing_by exact this

def body (endLine : Nat) : (depth : Nat) → Rule (List Node)
  | 0 => fun ts => fail endLine ts .tooDeep
  | depth + 1 =>
    declarations endLine (declaration endLine (expression endLine depth) (body endLine depth))

def program (declaration : Rule Node) (ts : List Token) : Except SyntaxError (List Node) :=
  match ts with
  | [] => .ok []
  | t :: rest => do
    let first ← declaration (t :: rest)
    have := first.short
    let more ← program declaration first.rest
    .ok (first.value :: more)
termination_by ts.length
decreasing_by exact this

def beforeEnd (ts : List Token) : List Token := ts.takeWhile fun t => t.kind != .finish

def endLine (ts : List Token) : Nat :=
  match ts.find? fun t => t.kind == .finish with
  | some t => t.line
  | none => Token.lastLine ts

end EventScript.Parser

namespace EventScript

def parseTokens (ts : List Token) : Except SyntaxError (List Node) :=
  let line := Parser.endLine ts
  let depth := Parser.maxNesting
  Parser.program
    (Parser.declaration line (Parser.expression line depth) (Parser.body line depth))
    (Parser.beforeEnd ts)

def parse (source : String) : Except SyntaxError (List Node) := do parseTokens (← tokenize source)

end EventScript
