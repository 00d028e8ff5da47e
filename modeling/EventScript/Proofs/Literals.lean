import EventScript.Proofs.Symbols

/-! Literals that are written and read again. Escaping leaves no quote, slash or newline
bare and spells each with an escape that is known, so a quoted text is one lexeme; and a
numeral is the digits of its number, with a point between them or none. -/
namespace EventScript

namespace Lexical

theorem quotedLexeme (s : String) (after : List Char) :
    Lexeme (Emit.quoteChars s.toList) (.text s) after := by
  have whole : Lexeme ('"' :: (Emit.escapeChars s.toList ++ ['"']))
      (.text (String.ofList s.toList)) after := .text (.inl rfl) (Script.escapedBody s.toList)
  rwa [String.ofList_toList] at whole

theorem splitsLexeme {cs ds fs after : List Char} (splits : Decimal.Splits cs ds fs)
    (ends : NotNext IsDigit after) (bare : ∀ rest, after = '.' :: rest → NotNext IsDigit rest) :
    Lexeme cs (.number ((Decimal.ofParts ds fs).toNumber false)) after := by
  obtain ⟨some, whole, fraction, joined⟩ := splits
  cases fs with
  | nil =>
    rw [joined]
    exact .whole some whole ends bare
  | cons f fs =>
    rw [joined]
    exact .fraction some whole (List.cons_ne_nil f fs) fraction ends

theorem numeralLexeme {n : Number} {after : List Char} (finite : n.isFinite = true)
    (unsigned : n.isUnsigned = true) (ends : NotNext IsDigit after)
    (bare : ∀ rest, after = '.' :: rest → NotNext IsDigit rest) :
    Lexeme (Emit.numeral.chars n) (.number n) after := by
  obtain ⟨ds, fs, splits, same⟩ := Emit.numeralSplits finite unsigned
  have whole := splitsLexeme splits ends bare
  rwa [same] at whole

end Lexical

theorem tokenizeLexeme {lexeme : List Char} {kind : TokenKind}
    (spells : Lexical.Lexeme lexeme kind []) :
    tokenize (String.ofList lexeme) = .ok [⟨kind, 1⟩, ⟨.finish, 1⟩] := by
  have cut : Lexical.Cut 1 (lexeme ++ []) [⟨kind, 1⟩] := Lexical.cutLexeme spells (.finish .nil)
  rw [List.append_nil] at cut
  refine (tokenizeIff _ _).mpr ⟨[⟨kind, 1⟩], rfl, ?_⟩
  rwa [String.toList_ofList]

theorem literalsSurviveRendering :
    (∀ s : String, tokenize (Emit.quote s) = .ok [⟨.text s, 1⟩, ⟨.finish, 1⟩]) ∧
      ∀ n : Number, n.isFinite = true → n.isUnsigned = true → ∀ indent line,
        tokenize (String.ofList (Emit.node indent .operand (.literal line (.number n)))) =
          .ok [⟨.number n, 1⟩, ⟨.finish, 1⟩] := by
  constructor
  · intro s
    exact tokenizeLexeme (Lexical.quotedLexeme s [])
  · intro n finite unsigned indent line
    rw [Emit.node]
    apply tokenizeLexeme
    exact Lexical.numeralLexeme finite unsigned (by rintro c rest ⟨⟩) (by rintro rest ⟨⟩)

/- The number nearest to a tenth, whose exact digits are far longer than the written ones. -/
def tenth : Number := .signed false 4591870180066957722 (by decide +kernel)

theorem tenthSurvives :
    tenth.isFinite = true ∧ tenth.isUnsigned = true ∧
      tokenize (String.ofList (Emit.node 2 .operand (.literal 7 (.number tenth)))) =
        .ok [⟨.number tenth, 1⟩, ⟨.finish, 1⟩] := by
  have finite : tenth.isFinite = true := by decide +kernel
  exact ⟨finite, rfl, literalsSurviveRendering.2 tenth finite rfl 2 7⟩

end EventScript
