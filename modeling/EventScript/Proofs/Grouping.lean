import EventScript.Proofs.Faithful
import EventScript.Proofs.Parts

/-! Written expressions keep their grouping. Parentheses stand where the precedence of the
written language would group otherwise, so the text of a parsed expression is read whole,
as that expression and as no other one. -/
namespace EventScript

theorem Node.expressionObeys {position : Position} {e : Node} (expression : e.isExpression = true)
    (h : e.obeys wellFormed position = true) : e.obeys wellFormed .operand = true := by
  cases e with
  | literal line v => cases v <;> exact h
  | name | binary | assign | call => exact h
  | function | cond | loop | handler | result => contradiction

namespace Script

theorem writtenReads {e : Node} (h : e.obeys Node.writable .operand = true) (indent : Nat)
    (n : Node) : Reads (Emit.node indent .operand e) n ↔ n = e.unlined := by
  have scans : Scans (Emit.node indent .operand e) e.symbols := by
    have all := expressionWritten indent e h [] [] (by rintro c rest ⟨⟩) .finish
    rwa [List.append_nil, List.append_nil] at all
  constructor
  · rintro ⟨ss, depth, other, made⟩
    cases scansUnique scans other
    exact expressionUnique made (symbolsExpression h)
  · rintro rfl
    exact ⟨e.symbols, _, scans, symbolsExpression h⟩

end Script

theorem expressionsKeepTheirGrouping {source : String} {p : List Node}
    (parsed : parse source = .ok p) {position : Position} {e : Node}
    (stands : Node.Stands p position e) (expression : e.isExpression = true)
    (finite : e.obeys Node.finite .operand = true) (indent : Nat) (n : Node) :
    Script.Reads (Emit.node indent .operand e) n ↔ n = e.unlined := by
  have formed := Node.standsObeys (parseWellFormed parsed) stands
  exact Script.writtenReads (Node.obeysBoth (Node.expressionObeys expression formed) finite) indent n

/- A comparison with a comparison, which would go to the left without its parentheses. -/
def comparedTree : Node :=
  .binary 1 .same (.name 1 "g") (.binary 1 .same (.name 1 "g")
    (.binary 1 .subtract (.literal 1 (.number oneRead)) (.name 1 "g")))

def comparedTokens : List Token :=
  [⟨.name "g", 1⟩, ⟨.mark .same, 1⟩, ⟨.mark .leftParen, 1⟩, ⟨.name "g", 1⟩, ⟨.mark .same, 1⟩,
    ⟨.number oneRead, 1⟩, ⟨.mark .minus, 1⟩, ⟨.name "g", 1⟩, ⟨.mark .rightParen, 1⟩]

namespace Lexical

theorem comparedCut : Cut 1 "g==(g==1-g)".toList comparedTokens := by
  have same (after : List Char) : Lexeme ['=', '='] (.mark .same) after :=
    .mark (m := .same) (by decide)
  have opening : Lexeme ['('] (.mark .leftParen) "g==1-g)".toList :=
    .mark (m := .leftParen) (by decide)
  have closing : Lexeme [')'] (.mark .rightParen) [] := .mark (m := .rightParen) (by decide)
  exact cutLexeme (gLexeme (by decide)) (cutLexeme (same _) (cutLexeme opening
    (cutLexeme (gLexeme (by decide)) (cutLexeme (same _) (cutLexeme (oneLexeme _)
      (cutLexeme (minusLexeme _) (cutLexeme (gLexeme (by decide))
        (cutLexeme closing (.finish .nil)))))))))

end Lexical

theorem comparedParses : parse "g==(g==1-g)" = .ok [comparedTree] := by
  refine (parseIff _ _).mpr ⟨_, Lexical.comparedCut, (parseTokensIff comparedTokens _).mp ?_⟩
  unfold comparedTokens comparedTree
  generalize oneRead = n
  cbv

theorem comparedKeepsGrouping :
    parse "g==(g==1-g)" = .ok [comparedTree] ∧
      Node.Stands [comparedTree] .statement comparedTree ∧ comparedTree.isExpression = true ∧
      comparedTree.obeys Node.finite .operand = true ∧
      ∀ indent n, Script.Reads (Emit.node indent .operand comparedTree) n ↔
        n = comparedTree.unlined := by
  have stands : Node.Stands [comparedTree] .statement comparedTree := .top List.mem_cons_self
  have finite : comparedTree.obeys Node.finite .operand = true := by
    simp [comparedTree, Node.obeys, Node.finite, oneFinite]
  exact ⟨comparedParses, stands, rfl, finite,
    expressionsKeepTheirGrouping comparedParses stands rfl finite⟩

end EventScript
