import EventScript.Node.Parser
import EventScript.Proofs.Lines

/-! The parser on renumbered tokens. No rule looks at a line, so each gives the
renumbered phrase, or the same fault on the renumbered line. -/
namespace EventScript

def SyntaxError.reline (f : Nat → Nat) (e : SyntaxError) : SyntaxError := { e with line := f e.line }

namespace Node

theorem relineLine (f : Nat → Nat) (n : Node) : (reline f n).line = f n.line := by
  cases n <;> simp only [reline, line]

end Node

namespace Parser
open Node (reline relineAll relineBranches)

variable {α β γ δ : Type}

inductive Renumbered (f : Nat → Nat) (g : α → β) {m n : Nat} :
    Except SyntaxError (Phrase α m) → Except SyntaxError (Phrase β n) → Prop where
  | ok {v v' rest rest' short short'} (value : v' = g v) (same : rest' = rest.map (Token.reline f)) :
      Renumbered f g (.ok ⟨v, rest, short⟩) (.ok ⟨v', rest', short'⟩)
  | error {e} : Renumbered f g (.error e) (.error (e.reline f))

def Renumbers (f : Nat → Nat) (g : α → β) (rule : Rule α) (rule' : Rule β) : Prop :=
  ∀ ts, Renumbered f g (rule ts) (rule' (ts.map (Token.reline f)))

variable {f : Nat → Nat} {g : α → β} {h : γ → δ}

theorem renumberedBind {m n k l : Nat} {x : Except SyntaxError (Phrase α m)}
    {y : Except SyntaxError (Phrase β n)} {next : Phrase α m → Except SyntaxError (Phrase γ k)}
    {next' : Phrase β n → Except SyntaxError (Phrase δ l)} (first : Renumbered f g x y)
    (then' : ∀ v rest rest' short short', rest' = rest.map (Token.reline f) →
      Renumbered f h (next ⟨v, rest, short⟩) (next' ⟨g v, rest', short'⟩)) :
    Renumbered f h (x >>= next) (y >>= next') := by
  cases first with
  | ok value same =>
    subst value
    exact then' _ _ _ _ _ same
  | error => exact .error

theorem nextLineRenumbered (line : Nat) (ts : List Token) :
    nextLine (f line) (ts.map (Token.reline f)) = f (nextLine line ts) := by
  cases ts <;> rfl

theorem failRenumbered {m n : Nat} (line : Nat) (ts : List Token) (fault : GrammarFault) :
    Renumbered f g (fail line ts fault : Except SyntaxError (Phrase α m))
      (fail (f line) (ts.map (Token.reline f)) fault : Except SyntaxError (Phrase β n)) := by
  unfold fail
  rw [nextLineRenumbered]
  exact .error

theorem expectRenumbers (line : Nat) (kind : TokenKind) (what : Expected) :
    Renumbers f f (expect line kind what) (expect (f line) kind what) := by
  intro ts
  cases ts with
  | nil => exact failRenumbered line [] _
  | cons t ts =>
    obtain ⟨found, l⟩ := t
    rw [List.map_cons, Token.reline, expect, expect]
    simp only
    split
    · exact .ok rfl rfl
    · exact failRenumbered line (⟨found, l⟩ :: ts) _

theorem expectNameRenumbers (line : Nat) (what : Expected) :
    Renumbers f id (expectName line what) (expectName (f line) what) := by
  intro ts
  cases ts with
  | nil => exact failRenumbered line [] _
  | cons t ts =>
    obtain ⟨kind, l⟩ := t
    cases kind with
    | name s => exact .ok rfl rfl
    | _ => exact failRenumbered line (_ :: ts) _

theorem itemsRenumber {item : Rule α} {item' : Rule β} (line : Nat) (close : Expected)
    (reads : Renumbers f g item item') : ∀ ts : List Token,
      Renumbered f (List.map g) (items line item close ts)
        (items (f line) item' close (ts.map (Token.reline f)))
  | [] => by
    rw [List.map_nil, items, items]
    refine renumberedBind (reads []) ?_
    intro v rest rest' short short' same
    contradiction
  | ⟨kind, l⟩ :: us => by
    rw [List.map_cons, Token.reline, items, items]
    simp only
    split
    · exact .ok rfl rfl
    · refine renumberedBind (reads (⟨kind, l⟩ :: us)) ?_
      intro v rest rest' short short' same
      cases rest with
      | nil =>
        subst same
        exact failRenumbered line [] _
      | cons u after =>
        obtain ⟨kind, l⟩ := u
        rw [List.map_cons, Token.reline] at same
        subst same
        simp only
        split
        · refine renumberedBind (itemsRenumber line close reads after) ?_
          intro vs rest _ _ _ same
          exact .ok rfl same
        · split
          · exact .ok rfl rfl
          · exact failRenumbered line (⟨kind, l⟩ :: after) _
termination_by ts => ts.length
decreasing_by simp only [List.length_cons] at short ⊢; omega

section Levels

variable {operator? : TokenKind → Option BinaryOp} {first first' operand operand' : Rule Node}

theorem chainRenumbers (operands : Renumbers f (reline f) operand operand') :
    ∀ (ts : List Token) (left : Node), Renumbered f (reline f) (chain operator? operand left ts)
      (chain operator? operand' (reline f left) (ts.map (Token.reline f)))
  | [], left => by
    rw [List.map_nil, chain, chain]
    exact .ok rfl rfl
  | ⟨kind, l⟩ :: us, left => by
    rw [List.map_cons, Token.reline, chain, chain]
    simp only
    cases operator? kind with
    | none => exact .ok rfl rfl
    | some op =>
      refine renumberedBind (operands us) ?_
      intro right rest rest' short short' same
      subst same
      have next := chainRenumbers operands rest (.binary left.line op left right)
      rw [reline, ← Node.relineLine f left] at next
      refine renumberedBind next ?_
      intro v rest _ _ _ same
      exact .ok rfl same
termination_by ts => ts.length
decreasing_by simp only [List.length_cons] at short ⊢; omega

theorem levelRenumbers (firsts : Renumbers f (reline f) first first')
    (operands : Renumbers f (reline f) operand operand') :
    Renumbers f (reline f) (level operator? first operand) (level operator? first' operand') := by
  intro ts
  refine renumberedBind (firsts ts) ?_
  intro left rest _ _ _ same
  subst same
  refine renumberedBind (chainRenumbers operands rest left) ?_
  intro v rest _ _ _ same
  exact .ok rfl same

end Levels

theorem suffixedRenumbers {sign : Mark} {fault : NodeForm → GrammarFault} {first first' : Rule Node}
    {g : α → α} {more more' : Rule α} {make : Nat → String → α → Node}
    (starts : Renumbers f (reline f) first first') (reads : Renumbers f g more more')
    (made : ∀ l x v, reline f (make l x v) = make (f l) x (g v)) :
    Renumbers f (reline f) (suffixed sign fault first more make)
      (suffixed sign fault first' more' make) := by
  intro ts
  refine renumberedBind (starts ts) ?_
  intro head rest rest' short short' same
  cases rest with
  | nil =>
    subst same
    exact .ok rfl rfl
  | cons t us =>
    obtain ⟨kind, l⟩ := t
    rw [List.map_cons, Token.reline] at same
    subst same
    simp only
    split
    · cases head with
      | name l x =>
        simp only [reline]
        refine renumberedBind (reads us) ?_
        intro v rest _ _ _ same
        exact .ok (made l x v).symm same
      | _ =>
        simp only [reline]
        exact .error
    · exact .ok rfl rfl

section Expressions

variable {line : Nat} {expression expression' : Rule Node}
  (reads : Renumbers f (reline f) expression expression')
include reads

theorem primaryRenumbers :
    Renumbers f (reline f) (primary line expression) (primary (f line) expression') := by
  intro ts
  cases ts with
  | nil => exact failRenumbered line [] _
  | cons t us =>
    obtain ⟨kind, l⟩ := t
    cases kind with
    | mark m =>
      cases m with
      | leftParen =>
        refine renumberedBind (reads us) ?_
        intro inner rest _ _ _ same
        subst same
        refine renumberedBind (expectRenumbers line _ _ rest) ?_
        intro _ rest _ _ _ same
        exact .ok rfl same
      | _ => exact failRenumbered line (_ :: us) _
    | number n => exact .ok (by rw [reline]; rfl) rfl
    | text s => exact .ok (by rw [reline]; rfl) rfl
    | name s => exact .ok (by rw [reline]; rfl) rfl
    | keyword | finish => exact failRenumbered line (_ :: us) _

theorem callRenumbers :
    Renumbers f (reline f) (call line expression) (call (f line) expression') := by
  refine suffixedRenumbers (primaryRenumbers reads) (itemsRenumber line _ reads) ?_
  intro l x vs
  rw [reline, Node.relineAllMap]

theorem assignmentRenumbers :
    Renumbers f (reline f) (assignment line expression) (assignment (f line) expression') := by
  have product : Renumbers f (reline f) (product line expression) (product (f line) expression') :=
    levelRenumbers (callRenumbers reads) (primaryRenumbers reads)
  have sum : Renumbers f (reline f) (sum line expression) (sum (f line) expression') :=
    levelRenumbers product product
  refine suffixedRenumbers (levelRenumbers sum sum) reads ?_
  intro l x v
  rw [reline]

end Expressions

theorem expressionRenumbers (line depth : Nat) :
    Renumbers f (reline f) (expression line depth) (expression (f line) depth) := by
  induction depth with
  | zero => exact fun ts => failRenumbered line ts _
  | succ depth ih => exact assignmentRenumbers ih

section Statements

variable {line : Nat} {expression expression' : Rule Node} {body body' : Rule (List Node)}
  (expressions : Renumbers f (reline f) expression expression')
  (bodies : Renumbers f (relineAll f) body body')

include bodies

theorem functionRenumbers (l : Nat) :
    Renumbers f (reline f) (function line body l) (function (f line) body' (f l)) := by
  intro ts
  refine renumberedBind (expectNameRenumbers line _ ts) ?_
  intro name rest _ _ _ same
  subst same
  refine renumberedBind (expectRenumbers line _ _ rest) ?_
  intro _ rest _ _ _ same
  subst same
  refine renumberedBind (itemsRenumber line _ (expectNameRenumbers line _) rest) ?_
  intro parameters rest _ _ _ same
  subst same
  refine renumberedBind (expectRenumbers line _ _ rest) ?_
  intro _ rest _ _ _ same
  subst same
  refine renumberedBind (bodies rest) ?_
  intro inside rest _ _ _ same
  exact .ok (by rw [reline, List.map_id]; rfl) same

theorem handlerRenumbers (l : Nat) :
    Renumbers f (reline f) (handler line body l) (handler (f line) body' (f l)) := by
  intro ts
  refine renumberedBind (expectRenumbers line _ _ ts) ?_
  intro _ rest _ _ _ same
  subst same
  refine renumberedBind (expectNameRenumbers line _ rest) ?_
  intro event rest _ _ _ same
  subst same
  refine renumberedBind (expectRenumbers line _ _ rest) ?_
  intro _ rest _ _ _ same
  subst same
  refine renumberedBind (expectRenumbers line _ _ rest) ?_
  intro _ rest _ _ _ same
  subst same
  refine renumberedBind (bodies rest) ?_
  intro inside rest _ _ _ same
  exact .ok (by rw [reline]; rfl) same

theorem otherwiseRenumbers (ts : List Token) :
    Renumbered f (relineAll f) (otherwise line body ts)
      (otherwise (f line) body' (ts.map (Token.reline f))) := by
  cases ts with
  | nil => exact .ok rfl rfl
  | cons t us =>
    obtain ⟨kind, l⟩ := t
    rw [List.map_cons, Token.reline, otherwise, otherwise]
    simp only
    split
    · refine renumberedBind (expectRenumbers line _ _ us) ?_
      intro _ rest _ _ _ same
      subst same
      refine renumberedBind (bodies rest) ?_
      intro inside rest _ _ _ same
      exact .ok rfl same
    · exact .ok rfl rfl

include expressions

theorem guardedRenumbers (close start : Expected) :
    Renumbers f (fun b => ⟨reline f b.condition, relineAll f b.body⟩)
      (guarded line expression body close start)
      (guarded (f line) expression' body' close start) := by
  intro ts
  refine renumberedBind (expectRenumbers line _ _ ts) ?_
  intro _ rest _ _ _ same
  subst same
  refine renumberedBind (expressions rest) ?_
  intro condition rest _ _ _ same
  subst same
  refine renumberedBind (expectRenumbers line _ _ rest) ?_
  intro _ rest _ _ _ same
  subst same
  refine renumberedBind (expectRenumbers line _ _ rest) ?_
  intro _ rest _ _ _ same
  subst same
  refine renumberedBind (bodies rest) ?_
  intro inside rest _ _ _ same
  exact .ok rfl same

omit expressions bodies in
theorem branchesRenumber {branch branch' : Rule (Branch Node)}
    (reads : Renumbers f (fun b => ⟨reline f b.condition, relineAll f b.body⟩) branch branch') :
    ∀ ts : List Token, Renumbered f (relineBranches f) (branches branch ts)
      (branches branch' (ts.map (Token.reline f)))
  | [] => by
    rw [List.map_nil, branches, branches]
    exact .ok rfl rfl
  | ⟨kind, l⟩ :: us => by
    rw [List.map_cons, Token.reline, branches, branches]
    simp only
    split
    · refine renumberedBind (reads us) ?_
      intro first rest rest' short short' same
      subst same
      refine renumberedBind (branchesRenumber reads rest) ?_
      intro more rest _ _ _ same
      exact .ok (by rw [relineBranches]) same
    · exact .ok rfl rfl
termination_by ts => ts.length
decreasing_by simp only [List.length_cons] at short ⊢; omega

theorem condRenumbers (l : Nat) :
    Renumbers f (reline f) (cond line expression body l) (cond (f line) expression' body' (f l)) := by
  intro ts
  refine renumberedBind (guardedRenumbers expressions bodies _ _ ts) ?_
  intro first rest _ _ _ same
  subst same
  refine renumberedBind (branchesRenumber (guardedRenumbers expressions bodies _ _) rest) ?_
  intro more rest _ _ _ same
  subst same
  refine renumberedBind (otherwiseRenumbers bodies rest) ?_
  intro last rest _ _ _ same
  exact .ok (by rw [reline]) same

theorem loopRenumbers (l : Nat) :
    Renumbers f (reline f) (loop line expression body l) (loop (f line) expression' body' (f l)) := by
  intro ts
  refine renumberedBind (expectNameRenumbers line _ ts) ?_
  intro name rest _ _ _ same
  subst same
  refine renumberedBind (expectRenumbers line _ _ rest) ?_
  intro _ rest _ _ _ same
  subst same
  refine renumberedBind (expressions rest) ?_
  intro items rest _ _ _ same
  subst same
  refine renumberedBind (expectRenumbers line _ _ rest) ?_
  intro _ rest _ _ _ same
  subst same
  refine renumberedBind (bodies rest) ?_
  intro inside rest _ _ _ same
  exact .ok (by rw [reline]; rfl) same

omit bodies in
theorem resultRenumbers (l : Nat) :
    Renumbers f (reline f) (result expression l) (result expression' (f l)) := by
  intro ts
  refine renumberedBind (expressions ts) ?_
  intro value rest _ _ _ same
  exact .ok (by rw [reline]) same

theorem declarationRenumbers :
    Renumbers f (reline f) (declaration line expression body)
      (declaration (f line) expression' body') := by
  have after : ∀ {rule rule' : Nat → Rule Node} {l : Nat} {us : List Token} {m n : Nat}
      (le : us.length ≤ m) (le' : (us.map (Token.reline f)).length ≤ n),
      Renumbers f (reline f) (rule l) (rule' (f l)) →
      Renumbered f (reline f) (rule l us >>= fun p => .ok (p.widen le))
        (rule' (f l) (us.map (Token.reline f)) >>= fun p => .ok (p.widen le')) := by
    intro rule rule' l us m n le le' reads
    refine renumberedBind (reads us) ?_
    intro v rest _ _ _ same
    exact .ok rfl same
  intro ts
  cases ts with
  | nil => exact expressions []
  | cons t us =>
    obtain ⟨kind, l⟩ := t
    cases kind with
    | keyword k =>
      cases k with
      | function => exact after (by simp) (by simp) (functionRenumbers bodies l)
      | event => exact after (by simp) (by simp) (handlerRenumbers bodies l)
      | cond => exact after (by simp) (by simp) (condRenumbers expressions bodies l)
      | loop => exact after (by simp) (by simp) (loopRenumbers expressions bodies l)
      | result => exact after (by simp) (by simp) (resultRenumbers expressions l)
      | _ => exact expressions (_ :: us)
    | _ => exact expressions (_ :: us)

end Statements

theorem declarationsRenumber {declaration declaration' : Rule Node} (line : Nat)
    (reads : Renumbers f (reline f) declaration declaration') : ∀ ts : List Token,
      Renumbered f (relineAll f) (declarations line declaration ts)
        (declarations (f line) declaration' (ts.map (Token.reline f)))
  | [] => by
    rw [List.map_nil, declarations, declarations]
    exact failRenumbered line [] _
  | ⟨kind, l⟩ :: us => by
    rw [List.map_cons, Token.reline, declarations, declarations]
    simp only
    split
    · exact .ok rfl rfl
    · refine renumberedBind (reads (⟨kind, l⟩ :: us)) ?_
      intro first rest rest' short short' same
      subst same
      refine renumberedBind (declarationsRenumber line reads rest) ?_
      intro more rest _ _ _ same
      exact .ok (by rw [relineAll]) same
termination_by ts => ts.length
decreasing_by exact short

theorem bodyRenumbers (line depth : Nat) :
    Renumbers f (relineAll f) (body line depth) (body (f line) depth) := by
  induction depth with
  | zero => exact fun ts => failRenumbered line ts _
  | succ depth ih =>
    exact declarationsRenumber line (declarationRenumbers (expressionRenumbers line depth) ih)

theorem programRenumbers {declaration declaration' : Rule Node}
    (reads : Renumbers f (reline f) declaration declaration') : ∀ ts : List Token,
      program declaration' (ts.map (Token.reline f)) =
        ((program declaration ts).mapError (SyntaxError.reline f)).map (List.map (reline f))
  | [] => by
    rw [List.map_nil, program, program]
    rfl
  | t :: us => by
    have first := reads (t :: us)
    rw [List.map_cons] at first ⊢
    rw [program, program]
    generalize declaration (t :: us) = x at first ⊢
    generalize declaration' (Token.reline f t :: us.map (Token.reline f)) = y at first ⊢
    cases first with
    | error => rfl
    | @ok v _ rest _ short short' value same =>
      subst value same
      have more := programRenumbers reads rest
      simp only [bind, Except.bind, more]
      cases program declaration rest <;> rfl
termination_by ts => ts.length
decreasing_by exact short

theorem beforeEndRenumbered (ts : List Token) :
    beforeEnd (ts.map (Token.reline f)) = (beforeEnd ts).map (Token.reline f) := by
  have kinds : (fun t : Token => t.kind != .finish) ∘ Token.reline f = fun t => t.kind != .finish := rfl
  rw [beforeEnd, List.takeWhile_map, kinds, beforeEnd]

theorem endLineRenumbered {ts : List Token} (some : ts ≠ []) :
    endLine (ts.map (Token.reline f)) = f (endLine ts) := by
  have kinds : (fun t : Token => t.kind == .finish) ∘ Token.reline f = fun t => t.kind == .finish := rfl
  rw [endLine, List.find?_map, kinds, endLine]
  cases ts.find? fun t => t.kind == .finish with
  | some t => rfl
  | none =>
    obtain ⟨last, found⟩ := Option.isSome_iff_exists.mp (List.getLast?_isSome.mpr some)
    simp [Token.lastLine, List.getLast?_map, found, Token.reline]

end Parser

theorem parseRenumbered (f : Nat → Nat) (ts : List Token) :
    parseTokens (ts.map (Token.reline f)) =
      ((parseTokens ts).mapError (SyntaxError.reline f)).map (List.map (Node.reline f)) := by
  by_cases none : ts = []
  · subst none
    have empty : parseTokens [] = .ok [] := by simp [parseTokens, Parser.beforeEnd, Parser.program]
    rw [List.map_nil, empty]
    rfl
  · rw [parseTokens, parseTokens, Parser.beforeEndRenumbered, Parser.endLineRenumbered none]
    exact Parser.programRenumbers (Parser.declarationRenumbers
      (Parser.expressionRenumbers _ _) (Parser.bodyRenumbers _ _)) _

end EventScript
