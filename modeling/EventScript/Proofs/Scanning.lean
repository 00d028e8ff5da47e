import EventScript.Token.Lexer
import EventScript.Proofs.Decimals

/-! The lexer reads the lexical grammar. Both directions go piece by piece: what
`piece` takes from a text is a filler or a lexeme that the rest of the text lets
end there, and every filler or lexeme at the front of a text is what it takes. -/
namespace EventScript.Lexer
open Lexical

theorem letterIff (c : Char) : Char.isAlpha c ↔ IsLetter c := by
  have upper : c.isUpper = decide (c.val ≥ 'A'.val ∧ c.val ≤ 'Z'.val) := rfl
  have lower : c.isLower = (decide (c.val ≥ 'a'.val) && decide (c.val ≤ 'z'.val)) := rfl
  have either : c.isAlpha = (c.isUpper || c.isLower) := rfl
  simp [either, upper, lower, IsLetter, Char.le_def]

theorem wordStartIff (c : Char) : isWordStart c ↔ StartsWord c := by
  simp [isWordStart, StartsWord, letterIff]

theorem wordCharIff (c : Char) : isWordChar c ↔ InWord c := by
  simp [isWordChar, InWord, Char.isAlphanum, letterIff, digitIff, or_assoc]

/- Neither half of the closing mark can be the end of the body. -/
theorem closingInfix {c : Char} {body rest : List Char}
    (other : ∀ cs, c = '&' → body ++ '&' :: '#' :: rest = '#' :: cs → False)
    (first : ¬ ['&', '#'] <:+: body) : ¬ ['&', '#'] <:+: c :: body := by
  rw [List.infix_cons_iff]
  rintro (start | inside)
  · rw [List.cons_prefix_cons] at start
    obtain ⟨same, start⟩ := start
    obtain ⟨tail, start⟩ := start
    exact other (tail ++ '&' :: '#' :: rest) same.symm (by rw [← start]; rfl)
  · exact first inside

theorem closeCommentSound {cs rest : List Char} {n : Nat} (h : closeComment cs = some (n, rest)) :
    ∃ body, cs = body ++ '&' :: '#' :: rest ∧ ¬ ['&', '#'] <:+: body ∧ newlines body = n := by
  induction cs using closeComment.induct generalizing n with
  | case1 => simp [closeComment] at h
  | case2 cs =>
    simp only [closeComment, Option.some.injEq, Prod.mk.injEq] at h
    obtain ⟨rfl, rfl⟩ := h
    exact ⟨[], rfl, by simp, rfl⟩
  | case3 c cs other ih =>
    rw [closeComment.eq_3 _ _ other] at h
    obtain ⟨⟨m, r⟩, found, same⟩ := Option.map_eq_some_iff.mp h
    simp only [Prod.mk.injEq] at same
    obtain ⟨count, rfl⟩ := same
    obtain ⟨body, rfl, first, rfl⟩ := ih found
    refine ⟨c :: body, rfl, closingInfix other first, ?_⟩
    rw [← count]
    by_cases line : c = '\n' <;> simp [newlines, line]

theorem closeCommentComplete {body : List Char} (first : ¬ ['&', '#'] <:+: body)
    (rest : List Char) : closeComment (body ++ '&' :: '#' :: rest) = some (newlines body, rest) := by
  induction body with
  | nil => rfl
  | cons c body ih =>
    have tail : ¬ ['&', '#'] <:+: body := fun h => first (List.infix_cons h)
    have other : ∀ cs, c = '&' → body ++ '&' :: '#' :: rest = '#' :: cs → False := by
      rintro cs rfl same
      cases body with
      | nil => cases same
      | cons d body =>
        cases same
        exact first ⟨[], body, rfl⟩
    rw [List.cons_append, closeComment.eq_3 _ _ other, ih tail]
    by_cases line : c = '\n' <;> simp [newlines, line]

theorem unescapeIff (e c : Char) : unescape? e = some c ↔ (e, c) ∈ escapes := by
  unfold unescape?
  split <;> simp_all [escapes, eq_comm]

theorem mapOk {ε α β : Type} {x : Except ε α} {f : α → β} {b : β} (h : x.map f = .ok b) :
    ∃ a, x = .ok a ∧ f a = b := by
  cases x with
  | error e => cases h
  | ok a => exact ⟨a, rfl, Except.ok.inj h⟩

theorem readTextSound {q : Char} {cs s rest : List Char} (h : readText q cs = .ok (s, rest)) :
    ∃ body, cs = body ++ q :: rest ∧ TextBody q body s := by
  fun_induction readText q cs generalizing s with
  | case3 cs =>
    cases h
    exact ⟨[], rfl, .nil⟩
  | case7 e cs inLine c escape _ _ ih =>
    obtain ⟨⟨t, r⟩, read, same⟩ := mapOk h
    cases same
    obtain ⟨body, rfl, inside⟩ := ih read
    exact ⟨'\\' :: e :: body, rfl, .escape ((unescapeIff _ _).mp escape) inside⟩
  | case8 c cs inLine quote slash ih =>
    obtain ⟨⟨t, r⟩, read, same⟩ := mapOk h
    cases same
    obtain ⟨body, rfl, inside⟩ := ih read
    exact ⟨c :: body, rfl, .plain ⟨quote, slash, inLine⟩ inside⟩
  | _ => cases h

theorem escapesLine {e c : Char} (known : (e, c) ∈ escapes) : e ≠ '\n' := by
  rintro rfl
  revert known
  simp [escapes]

theorem readTextComplete {q : Char} (quote : q = '"' ∨ q = '\'') {body s : List Char}
    (inside : TextBody q body s) (rest : List Char) :
    readText q (body ++ q :: rest) = .ok (s, rest) := by
  have inLine : q ≠ '\n' := by rcases quote with rfl | rfl <;> decide
  have slash : '\\' ≠ q := by rcases quote with rfl | rfl <;> decide
  induction inside with
  | nil =>
    rw [List.nil_append, readText.eq_def]
    simp [inLine]
  | plain ordinary tail ih =>
    obtain ⟨other, plain, line⟩ := ordinary
    rw [List.cons_append, readText.eq_def]
    simp [other, plain, line, ih, Except.map]
  | escape known tail ih =>
    rw [List.cons_append, List.cons_append, readText.eq_def]
    simp [slash, escapesLine known, (unescapeIff _ _).mpr known, ih, Except.map]

theorem readNumberWhole {ds after : List Char} (some : ds ≠ []) (digits : ∀ d ∈ ds, IsDigit d)
    (ends : NotNext IsDigit after) (bare : ∀ rest, after = '.' :: rest → NotNext IsDigit rest) :
    readNumber (ds ++ after) = .ok ((Decimal.ofParts ds []).toNumber false, after) := by
  obtain ⟨take, drop⟩ := runRead digitIff digits ends
  have split : splitNumber (ds ++ after) = (ds, after) := by
    unfold splitNumber
    rw [take, drop]
    split
    · rename_i d rest
      have stop : ¬ Char.isDigit d := fun h => bare _ rfl d rest rfl ((digitIff d).mp h)
      simp [stop]
    · rfl
  simp only [readNumber, split, Decimal.significandNumber (.whole some digits)]

theorem readNumberFraction {ds fs after : List Char} (some : ds ≠ []) (digits : ∀ d ∈ ds, IsDigit d)
    (more : fs ≠ []) (fraction : ∀ d ∈ fs, IsDigit d) (ends : NotNext IsDigit after) :
    readNumber (ds ++ '.' :: (fs ++ after)) = .ok ((Decimal.ofParts ds fs).toNumber false, after) := by
  obtain ⟨take, drop⟩ := runRead digitIff digits (Decimal.pointNoDigit (fs ++ after))
  obtain ⟨takeMore, dropMore⟩ := runRead digitIff fraction ends
  have split : splitNumber (ds ++ '.' :: (fs ++ after)) = (ds ++ '.' :: fs, after) := by
    unfold splitNumber
    rw [take, drop]
    obtain ⟨d, fs, rfl⟩ := List.exists_cons_of_ne_nil more
    have digit : Char.isDigit d := (digitIff d).mpr (fraction d (by simp))
    simp only [List.cons_append, digit, if_true] at takeMore dropMore ⊢
    rw [takeMore, dropMore]
  simp only [readNumber, split, Decimal.significandNumber (.pointed some digits fraction)]

/- What starts with a digit is a number: the reader of decimals does not refuse it. -/
theorem readNumberSound {c : Char} (digit : Char.isDigit c) (cs : List Char) :
    ∃ lexeme n rest, readNumber (c :: cs) = .ok (n, rest) ∧ c :: cs = lexeme ++ rest ∧
      Lexeme lexeme (.number n) rest := by
  obtain ⟨digits, ends⟩ := runTaken digitIff (c :: cs)
  have some : (c :: cs).takeWhile Char.isDigit ≠ [] := by simp [digit]
  have whole := List.takeWhile_append_dropWhile (p := Char.isDigit) (l := c :: cs)
  generalize (c :: cs).takeWhile Char.isDigit = ds at *
  generalize (c :: cs).dropWhile Char.isDigit = after at *
  rw [← whole]
  by_cases point : ∃ d rest, after = '.' :: d :: rest ∧ IsDigit d
  · obtain ⟨d, rest, rfl, more⟩ := point
    obtain ⟨fraction, last⟩ := runTaken digitIff (d :: rest)
    have nonempty : (d :: rest).takeWhile Char.isDigit ≠ [] := by simp [(digitIff d).mpr more]
    have places := List.takeWhile_append_dropWhile (p := Char.isDigit) (l := d :: rest)
    generalize (d :: rest).takeWhile Char.isDigit = fs at *
    generalize (d :: rest).dropWhile Char.isDigit = after at *
    rw [← places]
    exact ⟨ds ++ '.' :: fs, _, after, readNumberFraction some digits nonempty fraction last, by simp,
      .fraction some digits nonempty fraction last⟩
  · have bare : ∀ rest, after = '.' :: rest → NotNext IsDigit rest := by
      rintro rest rfl d more rfl digit
      exact point ⟨d, more, rfl, digit⟩
    exact ⟨ds, _, after, readNumberWhole some digits ends bare, rfl, .whole some digits ends bare⟩

theorem keywordIff (word : String) (k : Keyword) :
    Keyword.ofWord? word = some k ↔ k.spelling = word := by
  constructor
  · intro found
    simpa using List.find?_some found
  · rintro rfl
    cases k <;> rfl

theorem keywordNone (word : String) :
    Keyword.ofWord? word = none ↔ ∀ k : Keyword, k.spelling ≠ word := by
  constructor
  · intro none k same
    rw [(keywordIff word k).mpr same] at none
    contradiction
  · intro free
    cases found : Keyword.ofWord? word with
    | none => rfl
    | some k => exact absurd ((keywordIff word k).mp found) (free k)

theorem readWordSound {c : Char} {cs : List Char} (start : isWordStart c) :
    ∃ lexeme, c :: cs = lexeme ++ (readWord (c :: cs)).2 ∧
      Lexeme lexeme (readWord (c :: cs)).1 (readWord (c :: cs)).2 := by
  have starts := (wordStartIff c).mp start
  have head : isWordChar c := (wordCharIff c).mpr (startsInWord starts)
  obtain ⟨word, ends⟩ := runTaken wordCharIff cs
  unfold readWord wordKind
  simp only [List.takeWhile_cons, List.dropWhile_cons, head, if_true]
  have whole : c :: cs = (c :: cs.takeWhile isWordChar) ++ cs.dropWhile isWordChar := by simp
  generalize cs.takeWhile isWordChar = ws at *
  generalize cs.dropWhile isWordChar = after at *
  refine ⟨c :: ws, whole, ?_⟩
  cases found : Keyword.ofWord? (String.ofList (c :: ws)) with
  | none => exact .name starts word ((keywordNone _).mp found) ends
  | some k =>
    have spelled : k.spelling.toList = c :: ws := by
      rw [(keywordIff _ _).mp found, String.toList_ofList]
    rw [← spelled]
    exact .keyword ends

theorem readWordComplete {ws after : List Char} (word : ∀ d ∈ ws, InWord d)
    (ends : NotNext InWord after) :
    readWord (ws ++ after) = (wordKind (String.ofList ws), after) := by
  obtain ⟨take, drop⟩ := runRead wordCharIff word ends
  rw [readWord, take, drop]

def Taken : Piece → List Char → List Char → Prop
  | .gap n, cs, rest => ∃ filler, cs = filler ++ rest ∧ Filler filler rest ∧ newlines filler = n
  | .token kind, cs, rest => ∃ lexeme, cs = lexeme ++ rest ∧ Lexeme lexeme kind rest

theorem equalsTaken (cs : List Char) :
    Taken (.token (.mark (equals cs).1)) ('=' :: cs) (equals cs).2 := by
  unfold equals
  split
  · exact ⟨Mark.same.spelling.toList, rfl, .mark (by decide)⟩
  · exact ⟨Mark.differs.spelling.toList, rfl, .mark (by decide)⟩
  · rename_i same differs
    refine ⟨['='], rfl, .assign ?_⟩
    rintro c rest rfl (rfl | rfl)
    · exact same rest rfl
    · exact differs rest rfl

theorem markTaken {c : Char} {m : Mark} (found : mark? c = some m) (cs : List Char) :
    Taken (.token (.mark m)) (c :: cs) cs := by
  have spelled : m.spelling.toList = [c] ∧ m ≠ .assign := by
    unfold mark? at found
    split at found <;> cases found <;> exact ⟨rfl, by decide⟩
  refine ⟨m.spelling.toList, by rw [spelled.1]; rfl, .mark spelled.2⟩

theorem remarkTaken (cs : List Char) :
    Taken (.gap 0) ('&' :: '&' :: cs) (cs.dropWhile (· != '\n')) := by
  obtain ⟨inLine, ends⟩ := runTaken (P := (· ≠ '\n')) (p := (· != '\n')) (by simp) cs
  have noLine : '\n' ∉ cs.takeWhile (· != '\n') := fun member => inLine _ member rfl
  refine ⟨'&' :: '&' :: cs.takeWhile (· != '\n'), by simp, .remark noLine ?_, ?_⟩
  · cases rest : cs.dropWhile (· != '\n') with
    | nil => exact .inl rfl
    | cons c more =>
      have line : c = '\n' := by simpa using ends c more rest
      exact .inr (by rw [line]; rfl)
  · have := newlinesNone noLine
    simpa [newlines] using this

theorem pieceSound {c : Char} {cs rest : List Char} {p : Piece} (h : piece c cs = .ok (p, rest)) :
    Taken p (c :: cs) rest := by
  unfold piece at h
  split at h
  · rename_i blank
    cases h
    have kind : c = ' ' ∨ c = '\t' ∨ c = '\r' := by simpa [isBlank, or_assoc] using blank
    refine ⟨[c], rfl, .blank kind, ?_⟩
    rcases kind with rfl | rfl | rfl <;> rfl
  split at h
  · rename_i line
    cases h
    exact ⟨['\n'], by rw [line]; rfl, .newline, rfl⟩
  split at h
  · rename_i sign
    cases h
    exact sign ▸ equalsTaken cs
  split at h
  · rename_i remark
    cases h
    obtain ⟨rfl, second⟩ := remark
    cases cs with
    | nil => contradiction
    | cons d cs =>
      cases Option.some.inj second
      exact remarkTaken cs
  split at h
  · rename_i comment
    obtain ⟨rfl, second⟩ := comment
    cases cs with
    | nil => contradiction
    | cons d cs =>
      cases Option.some.inj second
      split at h
      · cases h
      · rename_i n r closed
        cases h
        obtain ⟨body, same, first, rfl⟩ := closeCommentSound closed
        rw [List.tail_cons] at same
        exact ⟨'#' :: '&' :: (body ++ ['&', '#']), by simp [same], .comment first, by simp [newlines]⟩
  split at h
  · rename_i quote
    obtain ⟨⟨s, r⟩, read, same⟩ := mapOk h
    cases same
    obtain ⟨body, rfl, inside⟩ := readTextSound read
    exact ⟨c :: (body ++ [c]), by simp, .text quote inside⟩
  split at h
  · rename_i digit
    obtain ⟨lexeme, n, after, read, same, spells⟩ := readNumberSound digit cs
    rw [read] at h
    cases h
    exact ⟨lexeme, same, spells⟩
  split at h
  · rename_i start
    cases h
    exact readWordSound start
  split at h
  · rename_i m found
    cases h
    exact markTaken found cs
  · cases h

theorem fillerPiece {filler after : List Char} (h : Filler filler after) :
    ∃ c cs, filler ++ after = c :: cs ∧ piece c cs = .ok (.gap (newlines filler), after) := by
  cases h with
  | @blank c _ blank =>
    refine ⟨c, after, rfl, ?_⟩
    rcases blank with rfl | rfl | rfl <;> rfl
  | newline => exact ⟨'\n', after, rfl, rfl⟩
  | @remark body _ inLine ends =>
    refine ⟨'&', '&' :: (body ++ after), rfl, ?_⟩
    have stop : NotNext (· ≠ '\n') after := by
      rintro c rest rfl
      simpa using ends
    have body : ∀ c ∈ body, c ≠ '\n' := fun c member same => inLine (same ▸ member)
    have drop := (runRead (P := (· ≠ '\n')) (p := (· != '\n')) (by simp) body stop).2
    have count := newlinesNone inLine
    simp only [newlines] at count
    simp [piece, isBlank, drop, newlines, count]
  | @comment body _ first =>
    refine ⟨'#', '&' :: (body ++ '&' :: '#' :: after), by simp, ?_⟩
    have closed := closeCommentComplete first after
    simp [piece, isBlank, closed, newlines]

theorem pieceDigit {c : Char} (digit : Char.isDigit c) (cs : List Char) :
    piece c cs = (readNumber (c :: cs)).map fun (n, rest) => (.token (.number n), rest) := by
  have other : ∀ d, Char.isDigit d = false → c ≠ d := by
    rintro d none rfl
    rw [digit] at none
    contradiction
  simp [piece, isBlank, digit, other]

theorem pieceWord {c : Char} (start : isWordStart c) (cs : List Char) :
    piece c cs = .ok (.token (readWord (c :: cs)).1, (readWord (c :: cs)).2) := by
  have other : ∀ d, isWordStart d = false → c ≠ d := by
    rintro d none rfl
    rw [start] at none
    contradiction
  have digit : ¬ Char.isDigit c := fun digit =>
    startsNoDigit ((wordStartIff c).mp start) ((digitIff c).mp digit)
  simp (disch := decide) [piece, isBlank, digit, start, other]

theorem pieceRun {c : Char} {cs after : List Char} (start : StartsWord c)
    (word : ∀ d ∈ cs, InWord d) (ends : NotNext InWord after) :
    piece c (cs ++ after) = .ok (.token (wordKind (String.ofList (c :: cs))), after) := by
  have all : ∀ d ∈ c :: cs, InWord d := by
    intro d member
    rcases List.mem_cons.mp member with rfl | member
    · exact startsInWord start
    · exact word d member
  rw [pieceWord ((wordStartIff c).mpr start), ← List.cons_append, readWordComplete all ends]

theorem lexemePiece {lexeme after : List Char} {kind : TokenKind} (h : Lexeme lexeme kind after) :
    ∃ c cs, lexeme ++ after = c :: cs ∧ piece c cs = .ok (.token kind, after) := by
  cases h with
  | @mark m _ other =>
    cases m with
    | assign => contradiction
    | _ => exact ⟨_, _, rfl, rfl⟩
  | assign alone =>
    refine ⟨'=', after, rfl, ?_⟩
    have single : equals after = (.assign, after) := by
      unfold equals
      split
      · exact absurd (.inl rfl) (alone _ _ rfl)
      · exact absurd (.inr rfl) (alone _ _ rfl)
      · rfl
    simp [piece, isBlank, single]
  | whole some digits ends bare =>
    cases lexeme with
    | nil => contradiction
    | cons d ds =>
      refine ⟨d, ds ++ after, rfl, ?_⟩
      have digit : Char.isDigit d := (digitIff d).mpr (digits d (by simp))
      rw [pieceDigit digit, ← List.cons_append, readNumberWhole some digits ends bare]
      rfl
  | @fraction ds fs _ some digits more fraction ends =>
    cases ds with
    | nil => contradiction
    | cons d ds =>
      refine ⟨d, ds ++ '.' :: (fs ++ after), by simp, ?_⟩
      have digit : Char.isDigit d := (digitIff d).mpr (digits d (by simp))
      rw [pieceDigit digit, ← List.cons_append, readNumberFraction some digits more fraction ends]
      rfl
  | @keyword k _ ends =>
    obtain ⟨c, cs, spelled, start, word⟩ := keywordWord k
    refine ⟨c, cs ++ after, by rw [spelled]; rfl, ?_⟩
    have kept : wordKind (String.ofList (c :: cs)) = .keyword k := by
      rw [← spelled, String.ofList_toList, wordKind, (keywordIff _ k).mpr rfl]
    rw [pieceRun start word ends, kept]
  | @name c cs _ start word free ends =>
    refine ⟨c, cs ++ after, rfl, ?_⟩
    have named : wordKind (String.ofList (c :: cs)) = .name (String.ofList (c :: cs)) := by
      rw [wordKind, (keywordNone _).mpr free]
    rw [pieceRun start word ends, named]
  | @text q body s _ quote inside =>
    refine ⟨q, body ++ q :: after, by simp, ?_⟩
    have read := readTextComplete quote inside after
    rcases quote with rfl | rfl <;> simp [piece, isBlank, read, Except.map]

section Scan

variable {line : Nat} {c : Char} {cs rest : List Char}

theorem scanGap {n : Nat} (h : piece c cs = .ok (.gap n, rest)) :
    scan line (c :: cs) = scan (line + n) rest := by
  rw [scan]
  split
  · rename_i bad; rw [h] at bad; cases bad
  · rename_i same; rw [h] at same; cases same; rfl
  · rename_i bad; rw [h] at bad; cases bad

theorem scanToken {kind : TokenKind} (h : piece c cs = .ok (.token kind, rest)) :
    scan line (c :: cs) = (scan line rest).map (⟨kind, line⟩ :: ·) := by
  rw [scan]
  split
  · rename_i bad; rw [h] at bad; cases bad
  · rename_i bad; rw [h] at bad; cases bad
  · rename_i same; rw [h] at same; cases same; rfl

theorem scanError {f : LexicalFault} (h : piece c cs = .error f) :
    scan line (c :: cs) = .error ⟨.lexical f, line⟩ := by
  rw [scan]
  split
  · rename_i same; rw [h] at same; cases same; rfl
  · rename_i bad; rw [h] at bad; cases bad
  · rename_i bad; rw [h] at bad; cases bad

end Scan

theorem gapScan {gap after : List Char} (h : Gap gap after) (line : Nat) :
    scan line (gap ++ after) = scan (line + newlines gap) after := by
  induction h generalizing line with
  | nil => rfl
  | cons head tail ih =>
    obtain ⟨c, cs, same, taken⟩ := fillerPiece head
    rw [List.append_assoc, same, scanGap taken, ih, newlinesAppend, Nat.add_assoc]

theorem lexemeScan {lexeme after : List Char} {kind : TokenKind} (h : Lexeme lexeme kind after)
    (line : Nat) : scan line (lexeme ++ after) = (scan line after).map (⟨kind, line⟩ :: ·) := by
  obtain ⟨c, cs, same, taken⟩ := lexemePiece h
  rw [same, scanToken taken]

theorem scanComplete {line : Nat} {cs : List Char} {ts : List Token} (h : Cut line cs ts) :
    scan line cs = .ok ts := by
  induction h with
  | @finish line gap last =>
    have read := gapScan last line
    rw [List.append_nil] at read
    rw [read, scan]
  | token before spells after ih =>
    rw [gapScan before, lexemeScan spells]
    rw [newlinesAppend, lexemeLine spells] at ih
    rw [Nat.add_zero] at ih
    rw [ih]
    rfl

theorem scanSound : ∀ {line : Nat} (cs : List Char) {ts : List Token},
    scan line cs = .ok ts → Cut line cs ts
  | line, [], ts, h => by
    rw [scan] at h
    cases h
    exact .finish .nil
  | line, c :: cs, ts, h => by
    cases taken : piece c cs with
    | error f => rw [scanError taken] at h; cases h
    | ok result =>
      obtain ⟨p, rest⟩ := result
      have shorter := pieceShorter taken
      have sound := pieceSound taken
      cases p with
      | gap n =>
        rw [scanGap taken] at h
        obtain ⟨filler, same, gap, rfl⟩ := sound
        rw [same]
        exact cutFiller gap (scanSound rest h)
      | token kind =>
        rw [scanToken taken] at h
        obtain ⟨more, read, rfl⟩ := mapOk h
        obtain ⟨lexeme, same, spells⟩ := sound
        rw [same]
        exact cutLexeme spells (scanSound rest read)
termination_by _ cs => cs.length
decreasing_by all_goals (simp only [List.length_cons]; omega)

end EventScript.Lexer

namespace EventScript

theorem tokenizeIff (source : String) (ts : List Token) :
    tokenize source = .ok ts ↔
      ∃ body, ts = body ++ [⟨.finish, Token.lastLine body⟩] ∧ Lexical.Cut 1 source.toList body := by
  unfold tokenize
  constructor
  · intro h
    obtain ⟨body, read, rfl⟩ := Lexer.mapOk h
    exact ⟨body, rfl, Lexer.scanSound _ read⟩
  · rintro ⟨body, rfl, cut⟩
    rw [Lexer.scanComplete cut]
    rfl

theorem tokenizesExactlyTheLexicalGrammar (source : String) (ts : List Token) :
    tokenize source = .ok ts ↔
      ∃ body, ts = body ++ [⟨.finish, Token.lastLine body⟩] ∧ (∀ t ∈ body, t.kind ≠ .finish) ∧
        Lexical.Cut 1 source.toList body := by
  rw [tokenizeIff]
  constructor
  · rintro ⟨body, same, cut⟩
    exact ⟨body, same, Lexical.cutFinish cut, cut⟩
  · rintro ⟨body, same, _, cut⟩
    exact ⟨body, same, cut⟩

end EventScript
