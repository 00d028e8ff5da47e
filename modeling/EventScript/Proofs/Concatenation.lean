import EventScript.Emit
import EventScript.Proofs.Lines
import EventScript.Proofs.Parsing
import EventScript.Proofs.Scanning

/-! Two texts joined by a newline. A text that can be cut into tokens leaves
nothing open at its end, and no token that starts a declaration continues the one
before it, so the joined text reads as the one program after the other. -/
namespace EventScript

namespace Lexical

theorem notNextJoined {p : Char → Prop} {after : List Char} (h : NotNext p after) (other : ¬ p '\n')
    (b : List Char) : NotNext p (after ++ '\n' :: b) := by
  rintro c rest same
  cases after with
  | nil =>
    obtain ⟨rfl, _⟩ := List.cons.inj same
    exact other
  | cons d ds =>
    obtain ⟨rfl, _⟩ := List.cons.inj same
    exact h _ _ rfl

theorem fillerJoined {piece after : List Char} (h : Filler piece after) (b : List Char) :
    Filler piece (after ++ '\n' :: b) := by
  cases h with
  | blank blank => exact .blank blank
  | newline => exact .newline
  | remark inLine ends =>
    -- A remark that the first text leaves open now runs up to the newline.
    refine .remark inLine (.inr ?_)
    rcases ends with rfl | next
    · rfl
    · simp [List.head?_append, next]
  | comment first => exact .comment first

theorem gapJoined {gap after : List Char} (h : Gap gap after) (b : List Char) :
    Gap gap (after ++ '\n' :: b) := by
  induction h with
  | nil => exact .nil
  | cons head tail ih =>
    refine .cons ?_ ih
    rw [← List.append_assoc]
    exact fillerJoined head b

theorem lexemeJoined {lexeme : List Char} {kind : TokenKind} {after : List Char}
    (h : Lexeme lexeme kind after) (b : List Char) : Lexeme lexeme kind (after ++ '\n' :: b) := by
  cases h with
  | mark other => exact .mark other
  | assign alone => exact .assign (notNextJoined alone (by decide) b)
  | whole some digits ends bare =>
    refine .whole some digits (notNextJoined ends (by decide) b) ?_
    intro rest same
    cases after with
    | nil => cases same
    | cons c cs =>
      obtain ⟨rfl, rfl⟩ := List.cons.inj same
      exact notNextJoined (bare cs rfl) (by decide) b
  | fraction some digits more fraction ends =>
    exact .fraction some digits more fraction (notNextJoined ends (by decide) b)
  | keyword ends => exact .keyword (notNextJoined ends (by decide) b)
  | name start word free ends => exact .name start word free (notNextJoined ends (by decide) b)
  | text quote inside => exact .text quote inside

theorem cutGap {line : Nat} {gap cs : List Char} {ts : List Token} (before : Gap gap cs)
    (tail : Cut (line + newlines gap) cs ts) : Cut line (gap ++ cs) ts := by
  induction before generalizing line with
  | nil => exact tail
  | @cons piece gap after head more ih =>
    rw [newlinesAppend, ← Nat.add_assoc] at tail
    rw [List.append_assoc]
    exact cutFiller head (ih tail)

theorem cutJoined {line : Nat} {a b : List Char} {ts us : List Token} (first : Cut line a ts)
    (second : Cut (line + newlines a + 1) b us) : Cut line (a ++ '\n' :: b) (ts ++ us) := by
  induction first with
  | @finish line gap last =>
    refine cutGap (gapJoined last b) ?_
    have rest : Cut (line + newlines gap) (['\n'] ++ b) us := cutFiller .newline second
    exact rest
  | @token line gap lexeme kind cs ts before spells after ih =>
    have joined := gapJoined before b
    rw [List.append_assoc] at joined
    rw [List.append_assoc, List.append_assoc]
    refine .token joined (lexemeJoined spells b) (ih ?_)
    rw [newlinesAppend, newlinesAppend, ← Nat.add_assoc, ← Nat.add_assoc] at second
    rwa [newlinesAppend, ← Nat.add_assoc]

theorem cutShifted {line : Nat} {cs : List Char} {ts : List Token} (h : Cut line cs ts) (k : Nat) :
    Cut (line + k) cs (ts.map (Token.reline (· + k))) := by
  induction h with
  | finish last => exact .finish last
  | @token line gap lexeme kind cs ts before spells after ih =>
    have shift : line + newlines gap + k = line + k + newlines gap := by omega
    rw [List.map_cons, Token.reline, shift]
    refine .token before spells ?_
    rwa [Nat.add_right_comm]

end Lexical

theorem Grammar.declarationsJoined {E : Derives Node} {B : Derives (List Node)}
    {ts us : List Token} {ns ms : List Node} (first : Declarations E B ts ns)
    (second : Declarations E B us ms) : Declarations E B (ts ++ us) (ns ++ ms) := by
  induction first with
  | nil => exact second
  | cons head tail ih =>
    rw [List.append_assoc]
    exact .cons head ih

theorem parseIff (source : String) (p : List Node) :
    parse source = .ok p ↔
      ∃ ts, Lexical.Cut 1 source.toList ts ∧ Grammar.Program Parser.maxNesting ts p := by
  have ended : ∀ {line ts}, Lexical.Cut 1 source.toList ts →
      Parser.beforeEnd (ts ++ [⟨.finish, line⟩]) = ts := by
    intro line ts cut
    rw [Parser.beforeEndAppend (Lexical.cutFinish cut)]
    exact List.append_nil ts
  constructor
  · intro h
    cases tokens : tokenize source with
    | error e => rw [parse, tokens] at h; cases h
    | ok ts =>
      obtain ⟨body, rfl, cut⟩ := (tokenizeIff source ts).mp tokens
      rw [parse, tokens] at h
      have phrase := (parseTokensIff _ p).mp h
      rw [ended cut] at phrase
      exact ⟨body, cut, phrase⟩
  · rintro ⟨ts, cut, phrase⟩
    have tokens := (tokenizeIff source _).mpr ⟨ts, rfl, cut⟩
    rw [parse, tokens]
    refine (parseTokensIff _ p).mpr ?_
    rwa [ended cut]

theorem compileParsed {options : EmitOptions} {source : String} {p : List Node}
    (h : parse source = .ok p) : compile options source = .ok (Emit.program options p) := by
  rw [compile, h]
  rfl

theorem parseJoined {a b : String} {pa pb : List Node} (first : parse a = .ok pa)
    (second : parse b = .ok pb) :
    parse (a ++ "\n" ++ b) =
      .ok (pa ++ pb.map (Node.reline fun line => line + (1 + Lexical.newlines a.toList))) := by
  obtain ⟨ts, cutA, phraseA⟩ := (parseIff a pa).mp first
  obtain ⟨us, cutB, phraseB⟩ := (parseIff b pb).mp second
  have shifted := Lexical.cutShifted cutB (1 + Lexical.newlines a.toList)
  have line : 1 + (1 + Lexical.newlines a.toList) = 1 + Lexical.newlines a.toList + 1 := by omega
  rw [line] at shifted
  have joined := Lexical.cutJoined cutA shifted
  refine (parseIff _ _).mpr ⟨_, by simpa using joined, ?_⟩
  rw [← Node.relineAllMap]
  exact Grammar.declarationsJoined phraseA (Grammar.programRelines _ _ _ phraseB)

theorem emitJoined (indent : Nat) (f : Nat → Nat) (pa pb : List Node) :
    Emit.program ⟨false, indent⟩ (pa ++ pb.map (Node.reline f)) =
      Emit.program ⟨false, indent⟩ pa ++ Emit.program ⟨false, indent⟩ pb := by
  simp [Emit.program, Emit.declarationsAppend, Emit.declarationsReline]

theorem joinedSourcesCompileInTurn {a b : String} {pa pb : List Node} (first : parse a = .ok pa)
    (second : parse b = .ok pb) :
    parse (a ++ "\n" ++ b) =
        .ok (pa ++ pb.map (Node.reline fun line => line + (1 + Lexical.newlines a.toList))) ∧
      ∀ indent, ∃ ca cb, compile ⟨false, indent⟩ a = .ok ca ∧ compile ⟨false, indent⟩ b = .ok cb ∧
        compile ⟨false, indent⟩ (a ++ "\n" ++ b) = .ok (ca ++ cb) := by
  have joined := parseJoined first second
  refine ⟨joined, ?_⟩
  intro indent
  refine ⟨_, _, compileParsed first, compileParsed second, ?_⟩
  rw [compileParsed joined, emitJoined]

namespace Lexical

theorem letterLexeme {c : Char} {after : List Char} (letter : IsLetter c)
    (free : ∀ k : Keyword, k.spelling ≠ String.ofList [c]) (ends : NotNext InWord after) :
    Lexeme [c] (.name (String.ofList [c])) after :=
  .name (.inl letter) (by simp) free ends

theorem letterBefore {c d : Char} {after : List Char} (letter : IsLetter c)
    (free : ∀ k : Keyword, k.spelling ≠ String.ofList [c]) (ends : ¬ InWord d) :
    Lexeme [c] (.name (String.ofList [c])) (d :: after) := by
  refine letterLexeme letter free ?_
  intro e rest same
  cases same
  exact ends

theorem remarkCut : Cut 1 "f && call".toList [⟨.name "f", 1⟩] := by
  have f : Lexeme ['f'] (.name "f") " && call".toList :=
    letterLexeme (by decide) (by intro k; cases k <;> decide) (by rintro c rest ⟨⟩; decide)
  have remark : Filler "&& call".toList [] := .remark (by decide) (.inl rfl)
  exact cutLexeme f (.finish (.cons (.blank (.inl rfl)) (.cons remark .nil)))

theorem groupCut : Cut 1 "(g)\n h".toList
    [⟨.mark .leftParen, 1⟩, ⟨.name "g", 1⟩, ⟨.mark .rightParen, 1⟩, ⟨.name "h", 2⟩] := by
  have g : Lexeme ['g'] (.name "g") ")\n h".toList :=
    letterLexeme (by decide) (by intro k; cases k <;> decide) (by rintro c rest ⟨⟩; decide)
  have h : Lexeme ['h'] (.name "h") [] :=
    letterLexeme (by decide) (by intro k; cases k <;> decide) (by rintro c rest ⟨⟩)
  have opening : Lexeme ['('] (.mark .leftParen) "g)\n h".toList :=
    .mark (m := .leftParen) (by decide)
  have closing : Lexeme [')'] (.mark .rightParen) "\n h".toList :=
    .mark (m := .rightParen) (by decide)
  have blank : Filler [' '] ['h'] := .blank (.inl rfl)
  have last : Cut 1 "\n h".toList [⟨.name "h", 2⟩] :=
    cutFiller .newline (cutFiller blank (cutLexeme h (.finish .nil)))
  exact cutLexeme opening (cutLexeme g (cutLexeme closing last))

end Lexical

/- The first text ends inside a remark, and the second one starts with a mark that
could not continue the first. -/
theorem openRemarkThenGroup :
    parse "f && call" = .ok [.name 1 "f"] ∧
      parse "(g)\n h" = .ok [.name 1 "g", .name 2 "h"] ∧
      parse ("f && call" ++ "\n" ++ "(g)\n h") = .ok [.name 1 "f", .name 2 "g", .name 3 "h"] ∧
      ∀ indent, ∃ ca cb, compile ⟨false, indent⟩ "f && call" = .ok ca ∧
        compile ⟨false, indent⟩ "(g)\n h" = .ok cb ∧
        compile ⟨false, indent⟩ ("f && call" ++ "\n" ++ "(g)\n h") = .ok (ca ++ cb) := by
  have first : parse "f && call" = .ok [.name 1 "f"] :=
    (parseIff _ _).mpr ⟨_, Lexical.remarkCut, (parseTokensIff [⟨.name "f", 1⟩] _).mp (by cbv)⟩
  have second : parse "(g)\n h" = .ok [.name 1 "g", .name 2 "h"] :=
    (parseIff _ _).mpr ⟨_, Lexical.groupCut, (parseTokensIff [⟨.mark .leftParen, 1⟩, ⟨.name "g", 1⟩,
      ⟨.mark .rightParen, 1⟩, ⟨.name "h", 2⟩] _).mp (by cbv)⟩
  obtain ⟨joined, compiled⟩ := joinedSourcesCompileInTurn first second
  have oneLine : Lexical.newlines "f && call".toList = 0 := by decide
  rw [oneLine] at joined
  exact ⟨first, second, joined, compiled⟩

end EventScript
