import EventScript.Proofs.Rules
import EventScript.Proofs.Numerals
import EventScript.Proofs.Concatenation

/-! What the trees of accepted sources look like. Where a value is used there stands
an expression, every name is a word and no keyword, and numbers have no sign. Names
and numbers come from tokens, whose spellings say so; the rest is the grammar. -/
namespace EventScript

def isWord (s : String) : Bool :=
  match s.toList with
  | [] => false
  | c :: cs => Lexer.isWordStart c && cs.all Lexer.isWordChar

def isName (s : String) : Bool := isWord s && (Keyword.ofWord? s).isNone

namespace Node

def wellFormed : Position → Node → Bool
  | _, literal _ (.number n) => n.isUnsigned
  | _, literal _ (.text _) => true
  | _, name _ s => isName s
  | _, binary .. => true
  | _, assign _ s _ => isName s
  | _, call _ s _ => isName s
  | .statement, function _ s ps _ => isName s && ps.all isName
  | .statement, loop _ s _ _ => isName s
  | .statement, handler _ s _ => isName s
  | .statement, cond .. => true
  | .statement, result .. => true
  | .operand, _ => false

/- What may stand as an operand may stand on its own. -/
theorem obeysAlone {n : Node} (h : n.obeys wellFormed .operand = true) :
    n.obeys wellFormed .statement = true := by
  cases n with
  | function | cond | loop | handler | result =>
    simp only [obeys, wellFormed, Bool.false_and, Bool.false_eq_true] at h
  | literal line v =>
    cases v <;> exact h
  | name | binary | assign | call => exact h

end Node

namespace Lexical

def tokenSound : TokenKind → Bool
  | .name s => isName s
  | .number n => n.isUnsigned
  | _ => true

theorem nameSound {c : Char} {cs : List Char} (start : StartsWord c) (word : ∀ d ∈ cs, InWord d)
    (free : ∀ k : Keyword, k.spelling ≠ String.ofList (c :: cs)) :
    isName (String.ofList (c :: cs)) = true := by
  have first : Lexer.isWordStart c = true := (Lexer.wordStartIff c).mpr start
  have rest : cs.all Lexer.isWordChar = true :=
    List.all_eq_true.mpr fun d member => (Lexer.wordCharIff d).mpr (word d member)
  have none : Keyword.ofWord? (String.ofList (c :: cs)) = none := (Lexer.keywordNone _).mpr free
  rw [isName, isWord, String.toList_ofList]
  simp only [first, rest, none, Bool.and_self, Option.isNone_none]

theorem lexemeSound {lexeme after : List Char} {kind : TokenKind} (h : Lexeme lexeme kind after) :
    tokenSound kind = true := by
  cases h with
  | name start word free ends => exact nameSound start word free
  | _ => rfl

theorem cutSound {line : Nat} {cs : List Char} {ts : List Token} (h : Cut line cs ts) :
    ∀ t ∈ ts, tokenSound t.kind = true := by
  induction h with
  | finish last => exact List.forall_mem_nil _
  | token before spells after ih => exact List.forall_mem_cons.mpr ⟨lexemeSound spells, ih⟩

end Lexical

namespace Grammar
open Node (wellFormed obeyAll obeyBranches obeyAllIff)
open Lexical (tokenSound)

variable {α : Type}

/- Every phrase spelled by sound tokens means something good. -/
def Yields (good : α → Prop) (L : Derives α) : Prop :=
  ∀ ts v, L ts v → (∀ t ∈ ts, tokenSound t.kind = true) → good v

def Operand (n : Node) : Prop := n.obeys wellFormed .operand = true

def Body (ns : List Node) : Prop := obeyAll wellFormed .statement ns = true

theorem nameYields : Yields (fun s => isName s = true) Name := by
  intro ts s phrase sound
  cases phrase
  exact sound _ List.mem_cons_self

theorem enclosedYields {good : α → Prop} {opening closing : Mark} {L : Derives α}
    (h : Yields good L) : Yields good (Enclosed opening closing L) := by
  intro ts v phrase sound
  obtain ⟨inner⟩ := phrase
  simp only [List.forall_mem_cons, List.forall_mem_append] at sound
  exact h _ _ inner sound.2.1

theorem separatedYields {good : α → Prop} {I : Derives α} (h : Yields good I) :
    Yields (fun vs => ∀ v ∈ vs, good v) (Separated I) := by
  intro ts vs phrase sound
  induction phrase with
  | one head => exact List.forall_mem_singleton.mpr (h _ _ head sound)
  | more head tail ih =>
    simp only [List.forall_mem_append, List.forall_mem_cons] at sound
    exact List.forall_mem_cons.mpr ⟨h _ _ head sound.1, ih sound.2.2⟩

theorem itemsYield {good : α → Prop} {I : Derives α} (h : Yields good I) :
    Yields (fun vs => ∀ v ∈ vs, good v) (Items I) := by
  intro ts vs phrase sound
  cases phrase with
  | empty => exact List.forall_mem_nil _
  | plain all => exact separatedYields h _ _ all sound
  | trailing all =>
    simp only [List.forall_mem_append] at sound
    exact separatedYields h _ _ all sound.1

section Expressions

variable {E : Derives Node}

theorem primaryYields (h : Yields Operand E) : Yields Operand (Primary E) := by
  intro ts n phrase sound
  cases phrase with
  | number => exact sound _ List.mem_cons_self
  | text => rfl
  | name => exact sound _ List.mem_cons_self
  | group inner => exact enclosedYields h _ _ inner sound

theorem callYields (h : Yields Operand E) : Yields Operand (Call E) := by
  intro ts n phrase sound
  cases phrase with
  | primary only => exact primaryYields h _ _ only sound
  | apply callee arguments line =>
    simp only [List.forall_mem_append] at sound
    have name := primaryYields h _ _ callee sound.1
    have values := enclosedYields (itemsYield h) _ _ arguments sound.2
    simp only [Operand, Node.obeys, wellFormed, Bool.and_eq_true, obeyAllIff] at name ⊢
    exact ⟨name, values⟩

theorem levelYields {marks : List (Mark × BinaryOp)} {first operand : Derives Node}
    (hf : Yields Operand first) (ho : Yields Operand operand) :
    Yields Operand (Level marks first operand) := by
  intro ts n phrase sound
  induction phrase with
  | first only => exact hf _ _ only sound
  | more left known right line ih =>
    simp only [List.forall_mem_append, List.forall_mem_cons] at sound
    have operand := ho _ _ right sound.2.2
    simp only [Operand, Node.obeys, wellFormed, Bool.and_eq_true]
    exact ⟨⟨trivial, ih sound.1⟩, operand⟩

theorem comparisonYields (h : Yields Operand E) : Yields Operand (Comparison E) := by
  have product : Yields Operand (Product E) := levelYields (callYields h) (primaryYields h)
  have sum : Yields Operand (Sum E) := levelYields product product
  exact levelYields sum sum

theorem assignmentYields (h : Yields Operand E) : Yields Operand (Assignment E) := by
  intro ts n phrase sound
  cases phrase with
  | plain only => exact comparisonYields h _ _ only sound
  | assign target value line =>
    simp only [List.forall_mem_append, List.forall_mem_cons] at sound
    have name := comparisonYields h _ _ target sound.1
    have assigned := h _ _ value sound.2.2
    simp only [Operand, Node.obeys, wellFormed, Bool.and_eq_true] at name ⊢
    exact ⟨name, assigned⟩

end Expressions

theorem expressionYields (depth : Nat) : Yields Operand (Expression depth) := by
  induction depth with
  | zero =>
    intro ts n phrase
    contradiction
  | succ depth ih => exact assignmentYields ih

section Statements

variable {E : Derives Node} {B : Derives (List Node)}

theorem guardedYields (hE : Yields Operand E) (hB : Yields Body B) :
    Yields (fun b => Operand b.condition ∧ Body b.body) (Guarded E B) := by
  intro ts b phrase sound
  obtain ⟨condition, body⟩ := phrase
  simp only [List.forall_mem_append] at sound
  exact ⟨enclosedYields hE _ _ condition sound.1, hB _ _ body sound.2⟩

theorem branchesYield (hE : Yields Operand E) (hB : Yields Body B) :
    Yields (fun bs => obeyBranches wellFormed bs = true) (Branches E B) := by
  intro ts bs phrase sound
  induction phrase with
  | none => rfl
  | more head tail ih =>
    simp only [List.forall_mem_append, List.forall_mem_cons] at sound
    have first := guardedYields hE hB _ _ head sound.2.1
    simp only [obeyBranches, Bool.and_eq_true]
    exact ⟨first, ih sound.2.2⟩

theorem otherwiseYields (hB : Yields Body B) : Yields Body (Otherwise B) := by
  intro ts ns phrase sound
  cases phrase with
  | none => rfl
  | body block =>
    simp only [List.forall_mem_cons] at sound
    exact hB _ _ block sound.2

theorem declarationYields (hE : Yields Operand E) (hB : Yields Body B) :
    Yields (fun n => n.obeys wellFormed .statement = true) (Declaration E B) := by
  intro ts n phrase sound
  cases phrase with
  | function name parameters body =>
    simp only [List.forall_mem_cons, List.forall_mem_append] at sound
    have called := nameYields _ _ name sound.2.1.1
    have named := enclosedYields (itemsYield nameYields) _ _ parameters sound.2.1.2
    have inside := hB _ _ body sound.2.2
    simp only [Node.obeys, wellFormed, Bool.and_eq_true, List.all_eq_true]
    exact ⟨⟨called, named⟩, inside⟩
  | handler event body =>
    simp only [List.forall_mem_cons, List.forall_mem_append] at sound
    have named := enclosedYields nameYields _ _ event sound.2.1
    have inside := hB _ _ body sound.2.2
    simp only [Node.obeys, wellFormed, Bool.and_eq_true]
    exact ⟨named, inside⟩
  | cond first more last =>
    simp only [List.forall_mem_cons, List.forall_mem_append] at sound
    have guarded := guardedYields hE hB _ _ first sound.2.1.1
    have branches := branchesYield hE hB _ _ more sound.2.1.2
    have otherwise := otherwiseYields hB _ _ last sound.2.2
    simp only [Node.obeys, wellFormed, Bool.and_eq_true]
    exact ⟨⟨⟨⟨trivial, guarded.1⟩, guarded.2⟩, branches⟩, otherwise⟩
  | loop name items body =>
    simp only [List.forall_mem_cons, List.forall_mem_append] at sound
    have named := nameYields _ _ name sound.2.1
    have source := hE _ _ items sound.2.2.2.1
    have inside := hB _ _ body sound.2.2.2.2
    simp only [Node.obeys, wellFormed, Bool.and_eq_true]
    exact ⟨⟨named, source⟩, inside⟩
  | result value =>
    simp only [List.forall_mem_cons] at sound
    have given := hE _ _ value sound.2
    simp only [Node.obeys, wellFormed, Bool.and_eq_true]
    exact ⟨trivial, given⟩
  | expression only => exact Node.obeysAlone (hE _ _ only sound)

theorem declarationsYield (hE : Yields Operand E) (hB : Yields Body B) :
    Yields Body (Declarations E B) := by
  intro ts ns phrase sound
  induction phrase with
  | nil => rfl
  | cons head tail ih =>
    simp only [List.forall_mem_append] at sound
    have first := declarationYields hE hB _ _ head sound.1
    simp only [Body, obeyAll, Bool.and_eq_true]
    exact ⟨first, ih sound.2⟩

end Statements

theorem blockYields (depth : Nat) : Yields Body (Block depth) := by
  induction depth with
  | zero =>
    intro ts n phrase
    contradiction
  | succ depth ih => exact enclosedYields (declarationsYield (expressionYields depth) ih)

theorem programYields (depth : Nat) : Yields Body (Program depth) :=
  declarationsYield (expressionYields depth) (blockYields depth)

end Grammar

theorem parseWellFormed {source : String} {p : List Node} (h : parse source = .ok p) :
    Node.obeyAll Node.wellFormed .statement p = true := by
  obtain ⟨ts, cut, phrase⟩ := (parseIff source p).mp h
  exact Grammar.programYields _ _ _ phrase (Lexical.cutSound cut)

/- A function and a call of it, with an assignment as its argument. -/
def keepingTree : List Node :=
  [.function 1 "f" ["a"] [.assign 1 "g" (.name 1 "a")], .call 2 "f" [.assign 2 "h" (.name 2 "f")]]

def keepingTokens : List Token :=
  [⟨.keyword .function, 1⟩, ⟨.name "f", 1⟩, ⟨.mark .leftBracket, 1⟩, ⟨.name "a", 1⟩,
    ⟨.mark .rightBracket, 1⟩, ⟨.mark .leftParen, 1⟩, ⟨.name "g", 1⟩, ⟨.mark .assign, 1⟩,
    ⟨.name "a", 1⟩, ⟨.mark .rightParen, 1⟩, ⟨.name "f", 2⟩, ⟨.mark .leftBracket, 2⟩, ⟨.name "h", 2⟩,
    ⟨.mark .assign, 2⟩, ⟨.name "f", 2⟩, ⟨.mark .rightBracket, 2⟩]

namespace Lexical

theorem keepingCut : Cut 1 "function f[a](g=a)\nf[h=f]".toList keepingTokens := by
  have keyword : Lexeme "function".toList (.keyword .function) " f[a](g=a)\nf[h=f]".toList := by
    refine Lexeme.keyword (k := .function) ?_
    intro c rest same
    cases same
    decide
  have opening : ∀ after, Lexeme ['['] (.mark .leftBracket) after := fun _ =>
    .mark (m := .leftBracket) (by decide)
  have closing : ∀ after, Lexeme [']'] (.mark .rightBracket) after := fun _ =>
    .mark (m := .rightBracket) (by decide)
  have begins : ∀ after, Lexeme ['('] (.mark .leftParen) after := fun _ =>
    .mark (m := .leftParen) (by decide)
  have ends : ∀ after, Lexeme [')'] (.mark .rightParen) after := fun _ =>
    .mark (m := .rightParen) (by decide)
  have equals : ∀ {c after}, ¬ (c = '=' ∨ c = '!') → Lexeme ['='] (.mark .assign) (c :: after) := by
    intro c after other
    refine .assign ?_
    intro d rest same
    cases same
    exact other
  have f : ∀ {d after}, ¬ InWord d → Lexeme ['f'] (.name "f") (d :: after) :=
    letterBefore (by decide) (by intro k; cases k <;> decide)
  have a : ∀ {d after}, ¬ InWord d → Lexeme ['a'] (.name "a") (d :: after) :=
    letterBefore (by decide) (by intro k; cases k <;> decide)
  have g : ∀ {d after}, ¬ InWord d → Lexeme ['g'] (.name "g") (d :: after) :=
    letterBefore (by decide) (by intro k; cases k <;> decide)
  have h : ∀ {d after}, ¬ InWord d → Lexeme ['h'] (.name "h") (d :: after) :=
    letterBefore (by decide) (by intro k; cases k <;> decide)
  have second : Cut 2 "f[h=f]".toList (keepingTokens.drop 10) :=
    cutLexeme (f (by decide)) (cutLexeme (opening _) (cutLexeme (h (by decide))
      (cutLexeme (equals (by decide)) (cutLexeme (f (by decide)) (cutLexeme (closing _) (.finish .nil))))))
  have body : Cut 1 "(g=a)\nf[h=f]".toList (keepingTokens.drop 5) :=
    cutLexeme (begins _) (cutLexeme (g (by decide)) (cutLexeme (equals (by decide))
      (cutLexeme (a (by decide)) (cutLexeme (ends _) (cutFiller .newline second)))))
  have head : Cut 1 " f[a](g=a)\nf[h=f]".toList (keepingTokens.drop 1) :=
    cutFiller (.blank (.inl rfl)) (cutLexeme (f (by decide)) (cutLexeme (opening _)
      (cutLexeme (a (by decide)) (cutLexeme (closing _) body))))
  exact cutLexeme keyword head

end Lexical

theorem keepingParses : parse "function f[a](g=a)\nf[h=f]" = .ok keepingTree :=
  (parseIff _ _).mpr ⟨_, Lexical.keepingCut, (parseTokensIff keepingTokens _).mp (by cbv)⟩

end EventScript
