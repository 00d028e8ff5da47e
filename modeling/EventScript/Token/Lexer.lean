import EventScript.SyntaxError
/-! From source text to tokens. The text is read piece by piece: a piece is a gap
(blank, newline or comment) or one token, and always the longest that fits. -/
namespace EventScript.Lexer

inductive Piece where
  | gap (newlines : Nat)
  | token (kind : TokenKind)

abbrev Step := Except LexicalFault (Piece × List Char)

def isBlank (c : Char) : Bool := c == ' ' || c == '\t' || c == '\r'

def isWordStart (c : Char) : Bool := c.isAlpha || c == '_'

def isWordChar (c : Char) : Bool := c.isAlphanum || c == '_'

def mark? : Char → Option Mark
  | '[' => some .leftBracket
  | ']' => some .rightBracket
  | '(' => some .leftParen
  | ')' => some .rightParen
  | ',' => some .comma
  | '+' => some .plus
  | '-' => some .minus
  | '*' => some .star
  | '/' => some .slash
  | _ => none

def equals : List Char → Mark × List Char
  | '=' :: cs => (.same, cs)
  | '!' :: cs => (.differs, cs)
  | cs => (.assign, cs)

def closeComment : List Char → Option (Nat × List Char)
  | [] => none
  | '&' :: '#' :: cs => some (0, cs)
  | c :: cs => (closeComment cs).map fun (n, rest) => (if c = '\n' then n + 1 else n, rest)

def unescape? : Char → Option Char
  | 'n' => some '\n'
  | 'r' => some '\r'
  | 't' => some '\t'
  | '\\' => some '\\'
  | '"' => some '"'
  | '\'' => some '\''
  | _ => none

/-- The characters of a text literal up to its closing quote, and what follows. A
text ends on the line where it starts. -/
def readText (quote : Char) : List Char → Except LexicalFault (List Char × List Char)
  | [] => .error .openText
  | c :: cs =>
    if c = '\n' then .error .openText
    else if c = quote then .ok ([], cs)
    else if c = '\\' then
      match cs with
      | [] => .error .openText
      | e :: cs =>
        if e = '\n' then .error .openText
        else match unescape? e with
          | none => .error (.escape e)
          | some c => (readText quote cs).map fun (s, rest) => (c :: s, rest)
    else (readText quote cs).map fun (s, rest) => (c :: s, rest)

def splitNumber (cs : List Char) : List Char × List Char :=
  let whole := cs.takeWhile Char.isDigit
  match cs.dropWhile Char.isDigit with
  | '.' :: d :: rest =>
    if Char.isDigit d then
      (whole ++ '.' :: (d :: rest).takeWhile Char.isDigit, (d :: rest).dropWhile Char.isDigit)
    else (whole, '.' :: d :: rest)
  | rest => (whole, rest)

def readNumber (cs : List Char) : Except LexicalFault (Number × List Char) :=
  let (spelling, rest) := splitNumber cs
  match Decimal.read? spelling with
  | some n => .ok (n, rest)
  | none => .error (.number (String.ofList spelling))

def wordKind (word : String) : TokenKind :=
  match Keyword.ofWord? word with
  | some k => .keyword k
  | none => .name word

def readWord (cs : List Char) : TokenKind × List Char :=
  (wordKind (String.ofList (cs.takeWhile isWordChar)), cs.dropWhile isWordChar)

def piece (c : Char) (cs : List Char) : Step :=
  if isBlank c then .ok (.gap 0, cs)
  else if c = '\n' then .ok (.gap 1, cs)
  else if c = '=' then
    let (m, rest) := equals cs
    .ok (.token (.mark m), rest)
  else if c = '&' ∧ cs.head? = some '&' then .ok (.gap 0, cs.dropWhile (· != '\n'))
  else if c = '#' ∧ cs.head? = some '&' then
    match closeComment cs.tail with
    | none => .error .openComment
    | some (newlines, rest) => .ok (.gap newlines, rest)
  else if c = '"' ∨ c = '\'' then
    (readText c cs).map fun (s, rest) => (.token (.text (String.ofList s)), rest)
  else if Char.isDigit c then
    (readNumber (c :: cs)).map fun (n, rest) => (.token (.number n), rest)
  else if isWordStart c then
    let (k, rest) := readWord (c :: cs)
    .ok (.token k, rest)
  else match mark? c with
    | some m => .ok (.token (.mark m), cs)
    | none => .error (.unexpected c)

theorem equalsShorter (cs : List Char) : (equals cs).2.length ≤ cs.length := by
  unfold equals
  split <;> simp

theorem closeCommentShorter {cs rest : List Char} {n : Nat} (h : closeComment cs = some (n, rest)) :
    rest.length ≤ cs.length := by
  induction cs using closeComment.induct generalizing n with
  | case1 => simp [closeComment] at h
  | case2 cs => simp [closeComment] at h; simp [h.2]; omega
  | case3 c cs other ih =>
    rw [closeComment.eq_3 _ _ other] at h
    obtain ⟨⟨m, r⟩, hm, same⟩ := Option.map_eq_some_iff.mp h
    simp only [Prod.mk.injEq] at same
    have := ih (same.2 ▸ hm)
    simp only [List.length_cons]; omega

theorem readTextShorter {q : Char} {cs s rest : List Char} (h : readText q cs = .ok (s, rest)) :
    rest.length ≤ cs.length := by
  fun_induction readText q cs generalizing s with
  | case3 cs => simp at h; simp [← h.2]
  | case7 e cs _ c _ _ _ ih =>
    cases hr : readText q cs with
    | error e => simp [hr, Except.map] at h
    | ok p =>
      simp only [hr, Except.map, Except.ok.injEq, Prod.mk.injEq] at h
      have := ih (s := p.1) (by rw [hr, ← h.2])
      simp only [List.length_cons]; omega
  | case8 c cs _ _ _ ih =>
    cases hr : readText q cs with
    | error e => simp [hr, Except.map] at h
    | ok p =>
      simp only [hr, Except.map, Except.ok.injEq, Prod.mk.injEq] at h
      have := ih (s := p.1) (by rw [hr, ← h.2])
      simp only [List.length_cons]; omega
  | _ => simp at h

theorem splitNumberShorter {c : Char} {cs : List Char} (h : Char.isDigit c) :
    (splitNumber (c :: cs)).2.length ≤ cs.length := by
  have drop (p : Char → Bool) (l : List Char) : (l.dropWhile p).length ≤ l.length :=
    (List.dropWhile_sublist p).length_le
  have start : (List.dropWhile Char.isDigit (c :: cs)) = cs.dropWhile Char.isDigit := by
    simp [h]
  unfold splitNumber
  rw [start]
  have small := drop Char.isDigit cs
  split
  · rename_i d rest eq
    rw [eq] at small
    simp only [List.length_cons] at small
    split
    · have := drop Char.isDigit (d :: rest)
      simp only [List.length_cons] at this
      show (List.dropWhile Char.isDigit (d :: rest)).length ≤ cs.length
      omega
    · simpa using small
  · exact small

theorem readNumberShorter {c : Char} {cs rest : List Char} {n : Number} (digit : Char.isDigit c)
    (h : readNumber (c :: cs) = .ok (n, rest)) : rest.length ≤ cs.length := by
  have short : (splitNumber (c :: cs)).2.length ≤ cs.length := splitNumberShorter digit
  simp only [readNumber] at h
  split at h
  · simp only [Except.ok.injEq, Prod.mk.injEq] at h
    rwa [h.2] at short
  · simp at h

theorem pieceShorter {c : Char} {cs rest : List Char} {p : Piece} (h : piece c cs = .ok (p, rest)) :
    rest.length ≤ cs.length := by
  have drop (p : Char → Bool) (l : List Char) : (l.dropWhile p).length ≤ l.length :=
    (List.dropWhile_sublist p).length_le
  unfold piece at h
  split at h
  · simp at h; simp [h.2]
  split at h
  · simp at h; simp [h.2]
  split at h
  · simp at h; simpa [h.2] using equalsShorter cs
  split at h
  · simp only [Except.ok.injEq, Prod.mk.injEq] at h
    exact h.2 ▸ drop _ cs
  split at h
  · split at h
    · simp at h
    · rename_i n r hc
      simp only [Except.ok.injEq, Prod.mk.injEq] at h
      have := closeCommentShorter hc
      rw [List.length_tail] at this
      rw [← h.2]; omega
  split at h
  · cases hr : readText c cs with
    | error e => simp [hr, Except.map] at h
    | ok t =>
      simp only [hr, Except.map, Except.ok.injEq, Prod.mk.injEq] at h
      exact readTextShorter (s := t.1) (by rw [hr, ← h.2])
  split at h
  · rename_i digit
    cases hr : readNumber (c :: cs) with
    | error e => simp [hr, Except.map] at h
    | ok t =>
      simp only [hr, Except.map, Except.ok.injEq, Prod.mk.injEq] at h
      exact readNumberShorter (n := t.1) digit (by rw [hr, ← h.2])
  split at h
  · rename_i start
    simp only [Except.ok.injEq, Prod.mk.injEq] at h
    have word : isWordChar c := by
      simp only [isWordStart, isWordChar, Bool.or_eq_true, Char.isAlphanum] at start ⊢
      rcases start with alpha | under
      · exact .inl (.inl alpha)
      · exact .inr under
    have : (readWord (c :: cs)).2 = cs.dropWhile isWordChar := by simp [readWord, word]
    rw [← h.2, this]
    exact drop _ cs
  split at h
  · simp only [Except.ok.injEq, Prod.mk.injEq] at h
    simp [h.2]
  · simp at h

def scan (line : Nat) : List Char → Except SyntaxError (List Token)
  | [] => .ok []
  | c :: cs =>
    match h : piece c cs with
    | .error f => .error ⟨.lexical f, line⟩
    | .ok (.gap newlines, rest) =>
      have := pieceShorter h
      scan (line + newlines) rest
    | .ok (.token kind, rest) =>
      have := pieceShorter h
      (scan line rest).map (⟨kind, line⟩ :: ·)
termination_by cs => cs.length
decreasing_by all_goals (simp only [List.length_cons]; omega)

end EventScript.Lexer

namespace EventScript

/-- The tokens of a source text. The end stands on the line of the last token. -/
def tokenize (source : String) : Except SyntaxError (List Token) :=
  (Lexer.scan 1 source.toList).map fun ts => ts ++ [⟨.finish, Token.lastLine ts⟩]

end EventScript
