import EventScript.Node.Basic
import EventScript.Token.Basic

/-! The grammar of programs: which tokens spell which trees. Phrases are joined
by concatenation alone, so nothing here looks ahead or prefers one reading.
A tree carries the line of its first token that is not an opening parenthesis,
and expressions and blocks nest at most as deep as the language's index says. -/
namespace EventScript.Grammar

abbrev Derives (α : Type) := List Token → α → Prop

def startLine? (ts : List Token) : Option Nat :=
  (ts.find? fun t => t.kind != .mark .leftParen).map Token.line

inductive Name : List Token → String → Prop where
  | mk {l s} : Name [⟨.name s, l⟩] s

inductive Enclosed {α : Type} (opening closing : Mark) (inside : Derives α) :
    List Token → α → Prop where
  | mk {l r ts v} (inner : inside ts v) :
      Enclosed opening closing inside (⟨.mark opening, l⟩ :: (ts ++ [⟨.mark closing, r⟩])) v

inductive Separated {α : Type} (item : Derives α) : List Token → List α → Prop where
  | one {ts v} (head : item ts v) : Separated item ts [v]
  | more {ts v l us vs} (head : item ts v) (tail : Separated item us vs) :
      Separated item (ts ++ ⟨.mark .comma, l⟩ :: us) (v :: vs)

/- A list in brackets may be empty, and one that is not may end in a comma. -/
inductive Items {α : Type} (item : Derives α) : List Token → List α → Prop where
  | empty : Items item [] []
  | plain {ts vs} (all : Separated item ts vs) : Items item ts vs
  | trailing {ts vs l} (all : Separated item ts vs) :
      Items item (ts ++ [⟨.mark .comma, l⟩]) vs

abbrev Bracketed {α : Type} (inside : Derives α) : Derives α :=
  Enclosed .leftBracket .rightBracket inside

abbrev Parenthesized {α : Type} (inside : Derives α) : Derives α :=
  Enclosed .leftParen .rightParen inside

section Expressions

variable (E : Derives Node)

inductive Primary : List Token → Node → Prop where
  | number {l n} : Primary [⟨.number n, l⟩] (.literal l (.number n))
  | text {l s} : Primary [⟨.text s, l⟩] (.literal l (.text s))
  | name {l s} : Primary [⟨.name s, l⟩] (.name l s)
  | group {ts n} (inner : Parenthesized E ts n) : Primary ts n

inductive Call : List Token → Node → Prop where
  | primary {ts n} (only : Primary E ts n) : Call ts n
  | apply {ts us l k f vs} (callee : Primary E ts (.name l f))
      (arguments : Bracketed (Items E) us vs) (line : startLine? (ts ++ us) = some k) :
      Call (ts ++ us) (.call k f vs)

/- One level of operators, grouped to the left. -/
inductive Level (marks : List (Mark × BinaryOp)) (first operand : Derives Node) :
    List Token → Node → Prop where
  | first {ts n} (only : first ts n) : Level marks first operand ts n
  | more {ts us l r k m op o} (left : Level marks first operand ts l) (known : (m, op) ∈ marks)
      (right : operand us r) (line : startLine? (ts ++ ⟨.mark m, o⟩ :: us) = some k) :
      Level marks first operand (ts ++ ⟨.mark m, o⟩ :: us) (.binary k op l r)

def productMarks : List (Mark × BinaryOp) := [(.star, .multiply), (.slash, .divide)]

def sumMarks : List (Mark × BinaryOp) := [(.plus, .add), (.minus, .subtract)]

def comparisonMarks : List (Mark × BinaryOp) := [(.same, .same), (.differs, .differs)]

/- Only the first factor may be a call. -/
def Product : Derives Node := Level productMarks (Call E) (Primary E)

def Sum : Derives Node := Level sumMarks (Product E) (Product E)

def Comparison : Derives Node := Level comparisonMarks (Sum E) (Sum E)

inductive Assignment : List Token → Node → Prop where
  | plain {ts n} (only : Comparison E ts n) : Assignment ts n
  | assign {ts us l k x v o} (target : Comparison E ts (.name l x)) (value : E us v)
      (line : startLine? (ts ++ ⟨.mark .assign, o⟩ :: us) = some k) :
      Assignment (ts ++ ⟨.mark .assign, o⟩ :: us) (.assign k x v)

end Expressions

def Expression : Nat → Derives Node
  | 0 => fun _ _ => False
  | depth + 1 => Assignment (Expression depth)

section Statements

variable (E : Derives Node) (B : Derives (List Node))

inductive Guarded : List Token → Branch Node → Prop where
  | mk {cs c bs b} (condition : Bracketed E cs c) (body : B bs b) : Guarded (cs ++ bs) ⟨c, b⟩

inductive Branches : List Token → List (Branch Node) → Prop where
  | none : Branches [] []
  | more {l ts b us bs} (head : Guarded E B ts b) (tail : Branches us bs) :
      Branches (⟨.keyword .elif, l⟩ :: (ts ++ us)) (b :: bs)

inductive Otherwise : List Token → List Node → Prop where
  | none : Otherwise [] []
  | body {l ts b} (body : B ts b) : Otherwise (⟨.keyword .otherwise, l⟩ :: ts) b

inductive Declaration : List Token → Node → Prop where
  | function {l ns f ps xs bs b} (name : Name ns f) (parameters : Bracketed (Items Name) ps xs)
      (body : B bs b) :
      Declaration (⟨.keyword .function, l⟩ :: (ns ++ ps ++ bs)) (.function l f xs b)
  | handler {l es e bs b} (event : Bracketed Name es e) (body : B bs b) :
      Declaration (⟨.keyword .event, l⟩ :: (es ++ bs)) (.handler l e b)
  | cond {l fs c b ms gs os o} (first : Guarded E B fs ⟨c, b⟩) (more : Branches E B ms gs)
      (last : Otherwise B os o) :
      Declaration (⟨.keyword .cond, l⟩ :: (fs ++ ms ++ os)) (.cond l c b gs o)
  | loop {l ns x w is i bs b} (name : Name ns x) (items : E is i) (body : B bs b) :
      Declaration (⟨.keyword .loop, l⟩ :: (ns ++ ⟨.keyword .within, w⟩ :: (is ++ bs)))
        (.loop l x i b)
  | result {l vs v} (value : E vs v) : Declaration (⟨.keyword .result, l⟩ :: vs) (.result l v)
  | expression {ts n} (only : E ts n) : Declaration ts n

inductive Declarations : List Token → List Node → Prop where
  | nil : Declarations [] []
  | cons {ts n us ns} (head : Declaration E B ts n) (tail : Declarations us ns) :
      Declarations (ts ++ us) (n :: ns)

end Statements

def Block : Nat → Derives (List Node)
  | 0 => fun _ _ => False
  | depth + 1 => Parenthesized (Declarations (Expression depth) (Block depth))

def Program (depth : Nat) : Derives (List Node) := Declarations (Expression depth) (Block depth)

theorem startLineAppend {ts : List Token} {l : Nat} (h : startLine? ts = some l) (us : List Token) :
    startLine? (ts ++ us) = some l := by
  obtain ⟨t, found, same⟩ := Option.map_eq_some_iff.mp h
  simp [startLine?, List.find?_append, found, same]

def Lined (L : Derives Node) : Prop := ∀ ts n, L ts n → startLine? ts = some n.line

section Lines

variable {E : Derives Node}

theorem primaryLined (lined : Lined E) : Lined (Primary E) := by
  intro ts n h
  cases h with
  | number => rfl
  | text => rfl
  | name => rfl
  | group inner =>
    obtain ⟨inner⟩ := inner
    exact startLineAppend (lined _ _ inner) _

theorem callLined (lined : Lined E) : Lined (Call E) := by
  intro ts n h
  cases h with
  | primary only => exact primaryLined lined _ _ only
  | apply callee arguments line => exact line

theorem levelLined {marks : List (Mark × BinaryOp)} {first operand : Derives Node}
    (lined : Lined first) : Lined (Level marks first operand) := by
  intro ts n h
  cases h with
  | first only => exact lined _ _ only
  | more left known right line => exact line

theorem comparisonLined (lined : Lined E) : Lined (Comparison E) :=
  levelLined (levelLined (levelLined (callLined lined)))

theorem assignmentLined (lined : Lined E) : Lined (Assignment E) := by
  intro ts n h
  cases h with
  | plain only => exact comparisonLined lined _ _ only
  | assign target value line => exact line

theorem expressionLined (depth : Nat) : Lined (Expression depth) := by
  induction depth with
  | zero => intro ts n h; contradiction
  | succ depth ih => exact assignmentLined ih

end Lines

def startsExpression : TokenKind → Bool
  | .number _ | .text _ | .name _ | .mark .leftParen => true
  | _ => false

def startsDeclaration : TokenKind → Bool
  | .keyword .function | .keyword .event | .keyword .cond | .keyword .loop | .keyword .result => true
  | kind => startsExpression kind

def Opening (first : TokenKind → Bool) (ts : List Token) : Prop :=
  ∃ t us, ts = t :: us ∧ first t.kind

theorem openingAppend {first : TokenKind → Bool} {ts : List Token} (h : Opening first ts)
    (us : List Token) : Opening first (ts ++ us) := by
  obtain ⟨t, rest, rfl, start⟩ := h
  exact ⟨t, rest ++ us, rfl, start⟩

def Opens {α : Type} (first : TokenKind → Bool) (L : Derives α) : Prop :=
  ∀ ts v, L ts v → Opening first ts

section Openings

variable {E : Derives Node} {B : Derives (List Node)}

theorem nameOpens : Opens startsExpression Name := by
  intro ts s h
  cases h
  exact ⟨_, [], rfl, rfl⟩

theorem primaryOpens : Opens startsExpression (Primary E) := by
  intro ts n h
  cases h with
  | number => exact ⟨_, [], rfl, rfl⟩
  | text => exact ⟨_, [], rfl, rfl⟩
  | name => exact ⟨_, [], rfl, rfl⟩
  | group inner =>
    obtain ⟨inner⟩ := inner
    exact ⟨_, _, rfl, rfl⟩

theorem callOpens : Opens startsExpression (Call E) := by
  intro ts n h
  cases h with
  | primary only => exact primaryOpens _ _ only
  | apply callee arguments line => exact openingAppend (primaryOpens _ _ callee) _

theorem levelOpens {marks : List (Mark × BinaryOp)} {first operand : Derives Node}
    (opens : Opens startsExpression first) : Opens startsExpression (Level marks first operand) := by
  intro ts n h
  induction h with
  | first only => exact opens _ _ only
  | more left known right line ih => exact openingAppend ih _

theorem comparisonOpens : Opens startsExpression (Comparison E) :=
  levelOpens (levelOpens (levelOpens callOpens))

theorem assignmentOpens : Opens startsExpression (Assignment E) := by
  intro ts n h
  cases h with
  | plain only => exact comparisonOpens _ _ only
  | assign target value line => exact openingAppend (comparisonOpens _ _ target) _

theorem expressionOpens (depth : Nat) : Opens startsExpression (Expression depth) := by
  cases depth with
  | zero => intro ts n h; contradiction
  | succ depth => exact assignmentOpens

theorem startsExpressionDeclaration {kind : TokenKind} (h : startsExpression kind) :
    startsDeclaration kind := by
  unfold startsExpression at h
  split at h
  · rfl
  · rfl
  · rfl
  · rfl
  · contradiction

theorem declarationOpens (opens : Opens startsExpression E) :
    Opens startsDeclaration (Declaration E B) := by
  intro ts n h
  cases h with
  | function => exact ⟨_, _, rfl, rfl⟩
  | handler => exact ⟨_, _, rfl, rfl⟩
  | cond => exact ⟨_, _, rfl, rfl⟩
  | loop => exact ⟨_, _, rfl, rfl⟩
  | result => exact ⟨_, _, rfl, rfl⟩
  | expression only =>
    obtain ⟨t, us, rfl, start⟩ := opens _ _ only
    exact ⟨t, us, rfl, startsExpressionDeclaration start⟩

end Openings

end EventScript.Grammar
