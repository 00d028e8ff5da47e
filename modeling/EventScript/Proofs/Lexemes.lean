import EventScript.Number.Decimal
import EventScript.Token.Basic

/-! The lexical grammar: how a text is cut into gaps and lexemes. Where a piece
may end depends on what follows it, so the relations carry the rest of the text:
a remark runs up to its newline, and words, numbers and the lone equals sign are
as long as they can be. -/
namespace EventScript.Lexical

def newlines (cs : List Char) : Nat := cs.count '\n'

def IsDigit (c : Char) : Prop := '0' ≤ c ∧ c ≤ '9'

def IsLetter (c : Char) : Prop := ('A' ≤ c ∧ c ≤ 'Z') ∨ ('a' ≤ c ∧ c ≤ 'z')

def StartsWord (c : Char) : Prop := IsLetter c ∨ c = '_'

def InWord (c : Char) : Prop := IsLetter c ∨ IsDigit c ∨ c = '_'

instance (c : Char) : Decidable (IsDigit c) := inferInstanceAs (Decidable (_ ∧ _))

instance (c : Char) : Decidable (IsLetter c) := inferInstanceAs (Decidable (_ ∨ _))

instance (c : Char) : Decidable (InWord c) := inferInstanceAs (Decidable (_ ∨ _))

/- The text ends, or its first character is not of the class. -/
def NotNext (p : Char → Prop) (cs : List Char) : Prop := ∀ c rest, cs = c :: rest → ¬ p c

inductive Filler : List Char → List Char → Prop where
  | blank {c after} (blank : c = ' ' ∨ c = '\t' ∨ c = '\r') : Filler [c] after
  | newline {after} : Filler ['\n'] after
  | remark {body after} (inLine : '\n' ∉ body) (ends : after = [] ∨ after.head? = some '\n') :
      Filler ('&' :: '&' :: body) after
  | comment {body after} (first : ¬ ['&', '#'] <:+: body) :
      Filler ('#' :: '&' :: (body ++ ['&', '#'])) after

inductive Gap : List Char → List Char → Prop where
  | nil {after} : Gap [] after
  | cons {piece gap after} (head : Filler piece (gap ++ after)) (tail : Gap gap after) :
      Gap (piece ++ gap) after

def escapes : List (Char × Char) :=
  [('n', '\n'), ('r', '\r'), ('t', '\t'), ('\\', '\\'), ('"', '"'), ('\'', '\'')]

/- The characters between two quotes, and the text they stand for. -/
inductive TextBody (quote : Char) : List Char → List Char → Prop where
  | nil : TextBody quote [] []
  | plain {c cs s} (ordinary : c ≠ quote ∧ c ≠ '\\' ∧ c ≠ '\n') (tail : TextBody quote cs s) :
      TextBody quote (c :: cs) (c :: s)
  | escape {e c cs s} (known : (e, c) ∈ escapes) (tail : TextBody quote cs s) :
      TextBody quote ('\\' :: e :: cs) (c :: s)

inductive Lexeme : List Char → TokenKind → List Char → Prop where
  | mark {m after} (other : m ≠ .assign) : Lexeme m.spelling.toList (.mark m) after
  | assign {after} (alone : NotNext (fun c => c = '=' ∨ c = '!') after) :
      Lexeme ['='] (.mark .assign) after
  | whole {ds after} (some : ds ≠ []) (digits : ∀ d ∈ ds, IsDigit d) (ends : NotNext IsDigit after)
      (bare : ∀ rest, after = '.' :: rest → NotNext IsDigit rest) :
      Lexeme ds (.number ((Decimal.ofParts ds []).toNumber false)) after
  | fraction {ds fs after} (some : ds ≠ []) (digits : ∀ d ∈ ds, IsDigit d) (more : fs ≠ [])
      (fraction : ∀ d ∈ fs, IsDigit d) (ends : NotNext IsDigit after) :
      Lexeme (ds ++ '.' :: fs) (.number ((Decimal.ofParts ds fs).toNumber false)) after
  | keyword {k after} (ends : NotNext InWord after) :
      Lexeme (Keyword.spelling k).toList (.keyword k) after
  | name {c cs after} (start : StartsWord c) (word : ∀ d ∈ cs, InWord d)
      (free : ∀ k : Keyword, k.spelling ≠ String.ofList (c :: cs)) (ends : NotNext InWord after) :
      Lexeme (c :: cs) (.name (String.ofList (c :: cs))) after
  | text {q body s after} (quote : q = '"' ∨ q = '\'') (inside : TextBody q body s) :
      Lexeme (q :: (body ++ [q])) (.text (String.ofList s)) after

/- A text that starts on the given line, cut into gaps and the lexemes of tokens. -/
inductive Cut : Nat → List Char → List Token → Prop where
  | finish {line gap} (last : Gap gap []) : Cut line gap []
  | token {line gap lexeme kind cs ts} (before : Gap gap (lexeme ++ cs))
      (spells : Lexeme lexeme kind cs) (after : Cut (line + newlines (gap ++ lexeme)) cs ts) :
      Cut line (gap ++ (lexeme ++ cs)) (⟨kind, line + newlines gap⟩ :: ts)

theorem newlinesAppend (cs ds : List Char) : newlines (cs ++ ds) = newlines cs + newlines ds :=
  List.count_append

theorem newlinesNone {cs : List Char} (h : '\n' ∉ cs) : newlines cs = 0 := List.count_eq_zero.mpr h

theorem startsInWord {c : Char} (h : StartsWord c) : InWord c := by
  rcases h with letter | rfl
  · exact .inl letter
  · exact .inr (.inr rfl)

theorem startsNoDigit {c : Char} (h : StartsWord c) : ¬ IsDigit c := by
  rintro ⟨_, high⟩
  rcases h with (⟨low, _⟩ | ⟨low, _⟩) | rfl
  · exact absurd (Char.le_trans low high) (by decide)
  · exact absurd (Char.le_trans low high) (by decide)
  · exact absurd high (by decide)

theorem inWordAll {cs : List Char} (h : cs.all (fun c => decide (InWord c)) = true) :
    ∀ c ∈ cs, InWord c := by
  simpa using h

theorem keywordWord (k : Keyword) :
    ∃ c cs, k.spelling.toList = c :: cs ∧ StartsWord c ∧ ∀ d ∈ cs, InWord d := by
  cases k <;> exact ⟨_, _, rfl, .inl (by decide), inWordAll (by decide)⟩

theorem digitsLine {ds : List Char} (digits : ∀ d ∈ ds, IsDigit d) : '\n' ∉ ds := by
  intro member
  exact absurd (digits _ member) (by decide)

theorem textBodyLine {q : Char} {body s : List Char} (h : TextBody q body s) : '\n' ∉ body := by
  induction h with
  | nil => exact List.not_mem_nil
  | plain ordinary tail ih => simp [ih, ordinary.2.2.symm]
  | escape known tail ih =>
    simp only [List.mem_cons, not_or]
    refine ⟨by decide, ?_, ih⟩
    rintro rfl
    revert known
    simp [escapes]

theorem lexemeLine {lexeme : List Char} {kind : TokenKind} {after : List Char}
    (h : Lexeme lexeme kind after) : newlines lexeme = 0 := by
  cases h with
  | @mark m => cases m <;> rfl
  | assign => rfl
  | whole some digits => exact newlinesNone (digitsLine digits)
  | fraction some digits more fraction =>
    apply newlinesNone
    simp [digitsLine digits, digitsLine fraction]
  | @keyword k => cases k <;> rfl
  | name start word =>
    apply newlinesNone
    intro member
    rcases List.mem_cons.mp member with rfl | member
    · exact absurd (startsInWord start) (by decide)
    · exact absurd (word _ member) (by decide)
  | text quote inside =>
    apply newlinesNone
    have other : ∀ q, q = '"' ∨ q = '\'' → '\n' ≠ q := by rintro q (rfl | rfl) <;> decide
    simp [textBodyLine inside, other _ quote]

theorem lexemeFinish {lexeme : List Char} {kind : TokenKind} {after : List Char}
    (h : Lexeme lexeme kind after) : kind ≠ .finish := by
  cases h <;> simp

theorem cutFinish {line : Nat} {cs : List Char} {ts : List Token} (h : Cut line cs ts) :
    ∀ t ∈ ts, t.kind ≠ .finish := by
  induction h with
  | finish last => simp
  | token before spells after ih =>
    intro t member
    rcases List.mem_cons.mp member with rfl | member
    · exact lexemeFinish spells
    · exact ih t member

theorem cutFiller {line : Nat} {piece cs : List Char} {ts : List Token} (head : Filler piece cs)
    (tail : Cut (line + newlines piece) cs ts) : Cut line (piece ++ cs) ts := by
  cases tail with
  | finish last => exact .finish (.cons (by simpa using head) last)
  | @token _ gap lexeme kind rest ts before spells after =>
    have gaps : Gap (piece ++ gap) (lexeme ++ rest) := .cons head before
    have lines : line + newlines piece + newlines gap = line + newlines (piece ++ gap) := by
      rw [newlinesAppend]; omega
    rw [← List.append_assoc, lines]
    refine .token gaps spells ?_
    rwa [List.append_assoc, newlinesAppend, ← Nat.add_assoc]

theorem cutLexeme {line : Nat} {lexeme cs : List Char} {kind : TokenKind} {ts : List Token}
    (spells : Lexeme lexeme kind cs) (tail : Cut line cs ts) :
    Cut line (lexeme ++ cs) (⟨kind, line⟩ :: ts) := by
  refine .token .nil spells ?_
  simpa [lexemeLine spells] using tail

end EventScript.Lexical
