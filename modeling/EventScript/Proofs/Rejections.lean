import EventScript.Proofs.Scanning

/-! Rejected texts. What stands before the first bad construct is cut into tokens in the
same way whatever follows, so it is accepted alone; and a bad construct stays bad when
the text ends inside it, so nothing longer is accepted. The fault is found at the start
of the construct, on the line where it starts. -/
namespace EventScript

namespace Lexical

/- A token, a gap or a comment may start with the character, before the others. -/
def Opens (c : Char) (cs : List Char) : Prop :=
  c ∈ [' ', '\t', '\r', '\n'] ∨ c ∈ ['[', ']', '(', ')', ',', '+', '-', '*', '/', '='] ∨
    c ∈ ['"', '\''] ∨ IsDigit c ∨ StartsWord c ∨ c ∈ ['&', '#'] ∧ cs.head? = some '&'

/- Where the body of a text literal cannot go on, and no quote closes it. -/
inductive Breaks : List Char → LexicalFault → Prop where
  | finish : Breaks [] .openText
  | newline {rest} : Breaks ('\n' :: rest) .openText
  | slash : Breaks ['\\'] .openText
  | slashNewline {rest} : Breaks ('\\' :: '\n' :: rest) .openText
  | unknown {e rest} (inLine : e ≠ '\n') (free : ∀ c, (e, c) ∉ escapes) :
      Breaks ('\\' :: e :: rest) (.escape e)

inductive Malformed : List Char → LexicalFault → Prop where
  | stray {c cs} (other : ¬ Opens c cs) : Malformed (c :: cs) (.unexpected c)
  | comment {body} (endless : ¬ ['&', '#'] <:+: body) : Malformed ('#' :: '&' :: body) .openComment
  | text {q body s rest f} (quote : q = '"' ∨ q = '\'') (inside : TextBody q body s)
      (breaks : Breaks rest f) : Malformed (q :: (body ++ rest)) f

theorem numberFormed {cs : List Char} {spelling : String} : ¬ Malformed cs (.number spelling) := by
  rintro (_ | _ | ⟨_, _, breaks⟩)
  cases breaks

section Starts

variable {start after : List Char} (inside : start <+: after)
include inside

theorem notNextStart {p : Char → Prop} (h : NotNext p after) : NotNext p start := by
  rintro c rest rfl
  obtain ⟨more, rfl⟩ := inside
  exact h c (rest ++ more) rfl

theorem fillerStart {piece : List Char} (h : Filler piece after) : Filler piece start := by
  cases h with
  | blank blank => exact .blank blank
  | newline => exact .newline
  | remark inLine ends =>
    refine .remark inLine ?_
    obtain ⟨more, rfl⟩ := inside
    cases start with
    | nil => exact .inl rfl
    | cons c cs => exact ends.imp_left (absurd · (List.cons_ne_nil _ _))
  | comment first => exact .comment first

theorem lexemeStart {lexeme : List Char} {kind : TokenKind} (h : Lexeme lexeme kind after) :
    Lexeme lexeme kind start := by
  cases h with
  | mark other => exact .mark other
  | assign alone => exact .assign (notNextStart inside alone)
  | whole some digits ends bare =>
    refine .whole some digits (notNextStart inside ends) ?_
    rintro rest rfl
    obtain ⟨more, rfl⟩ := inside
    exact notNextStart (List.prefix_append rest more) (bare _ rfl)
  | fraction some digits more fraction ends =>
    exact .fraction some digits more fraction (notNextStart inside ends)
  | keyword ends => exact .keyword (notNextStart inside ends)
  | name start word free ends => exact .name start word free (notNextStart inside ends)
  | text quote inside => exact .text quote inside

end Starts

theorem opensMore {c : Char} {cs : List Char} (h : Opens c cs) (more : List Char) :
    Opens c (cs ++ more) := by
  rcases h with blank | mark | quote | digit | word | ⟨known, next⟩
  · exact .inl blank
  · exact .inr (.inl mark)
  · exact .inr (.inr (.inl quote))
  · exact .inr (.inr (.inr (.inl digit)))
  · exact .inr (.inr (.inr (.inr (.inl word))))
  · exact .inr (.inr (.inr (.inr (.inr ⟨known, by simp [List.head?_append, next]⟩))))

end Lexical

namespace Lexer
open Lexical

theorem unescapeNone (e : Char) : unescape? e = none ↔ ∀ c, (e, c) ∉ escapes := by
  constructor
  · intro none c known
    rw [(unescapeIff e c).mpr known] at none
    contradiction
  · intro free
    cases found : unescape? e with
    | none => rfl
    | some c => exact absurd ((unescapeIff e c).mp found) (free c)

theorem mapError {ε α β : Type} {x : Except ε α} {f : α → β} {e : ε} (h : x.map f = .error e) :
    x = .error e := by
  cases x with
  | error => exact congrArg Except.error (Except.error.inj h)
  | ok => cases h

theorem readTextBreaks {q : Char} {cs : List Char} {f : LexicalFault}
    (h : readText q cs = .error f) :
    ∃ body s rest, cs = body ++ rest ∧ TextBody q body s ∧ Breaks rest f := by
  fun_induction readText q cs with
  | case1 => cases h; exact ⟨[], [], [], rfl, .nil, .finish⟩
  | case2 cs => cases h; exact ⟨[], [], _, rfl, .nil, .newline⟩
  | case3 => cases h
  | case4 => cases h; exact ⟨[], [], _, rfl, .nil, .slash⟩
  | case5 cs => cases h; exact ⟨[], [], _, rfl, .nil, .slashNewline⟩
  | case6 e cs inLine escape =>
    cases h
    exact ⟨[], [], _, rfl, .nil, .unknown inLine ((unescapeNone e).mp escape)⟩
  | case7 e cs inLine c escape _ _ ih =>
    obtain ⟨body, s, rest, rfl, inside, breaks⟩ := ih (mapError h)
    have known := (unescapeIff e c).mp escape
    exact ⟨'\\' :: e :: body, c :: s, rest, rfl, .escape known inside, breaks⟩
  | case8 c cs inLine quote slash ih =>
    obtain ⟨body, s, rest, rfl, inside, breaks⟩ := ih (mapError h)
    exact ⟨c :: body, c :: s, rest, rfl, .plain ⟨quote, slash, inLine⟩ inside, breaks⟩

theorem breaksReadText {q : Char} (quote : q = '"' ∨ q = '\'') {body s rest : List Char}
    {f : LexicalFault} (inside : TextBody q body s) (breaks : Breaks rest f) :
    readText q (body ++ rest) = .error f := by
  have slash : '\\' ≠ q := by rcases quote with rfl | rfl <;> decide
  induction inside with
  | nil =>
    cases breaks with
    | unknown inLine free =>
      rw [List.nil_append, readText.eq_def]
      simp [slash, inLine, (unescapeNone _).mpr free]
    | _ => simp [readText.eq_def, slash]
  | plain ordinary tail ih =>
    obtain ⟨other, plain, line⟩ := ordinary
    rw [List.cons_append, readText.eq_def]
    simp [other, plain, line, ih, Except.map]
  | escape known tail ih =>
    rw [List.cons_append, List.cons_append, readText.eq_def]
    simp [slash, escapesLine known, (unescapeIff _ _).mpr known, ih, Except.map]

theorem closeCommentNone {cs : List Char} (h : closeComment cs = none) : ¬ ['&', '#'] <:+: cs := by
  induction cs using closeComment.induct with
  | case1 => simp
  | case2 cs => simp [closeComment] at h
  | case3 c cs other ih =>
    rw [closeComment.eq_3 _ _ other, Option.map_eq_none_iff] at h
    rw [List.infix_cons_iff]
    rintro (⟨rest, first⟩ | later)
    · cases first
      exact other rest rfl rfl
    · exact ih h later

theorem closeCommentOpen {cs : List Char} (endless : ¬ ['&', '#'] <:+: cs) :
    closeComment cs = none := by
  cases found : closeComment cs with
  | none => rfl
  | some result =>
    obtain ⟨n, rest⟩ := result
    obtain ⟨body, rfl, _⟩ := closeCommentSound found
    exact absurd ⟨body, rest, by simp⟩ endless

theorem pieceMalformed {c : Char} {cs : List Char} {f : LexicalFault}
    (h : piece c cs = .error f) : Malformed (c :: cs) f := by
  unfold piece at h
  split at h
  · cases h
  rename_i blank
  split at h
  · cases h
  rename_i line
  split at h
  · cases h
  rename_i sign
  split at h
  · cases h
  rename_i remark
  split at h
  · rename_i comment
    obtain ⟨rfl, second⟩ := comment
    cases cs with
    | nil => contradiction
    | cons d cs =>
      cases Option.some.inj second
      split at h
      · rename_i endless
        cases h
        exact .comment (closeCommentNone endless)
      · cases h
  rename_i comment
  split at h
  · rename_i quote
    obtain ⟨body, s, rest, rfl, inside, breaks⟩ := readTextBreaks (mapError h)
    exact .text quote inside breaks
  rename_i quote
  split at h
  · rename_i digit
    obtain ⟨_, n, rest, read, _⟩ := readNumberSound digit cs
    rw [read] at h
    cases h
  rename_i digit
  split at h
  · cases h
  rename_i start
  split at h
  · cases h
  rename_i mark
  cases h
  refine .stray ?_
  rintro (white | known | quoted | number | word | ⟨known, next⟩)
  · simp_all [isBlank]
  · simp only [List.mem_cons, List.not_mem_nil, or_false] at known
    rcases known with rfl | rfl | rfl | rfl | rfl | rfl | rfl | rfl | rfl | rfl <;>
      contradiction
  · simp_all
  · exact digit ((digitIff c).mpr number)
  · exact start ((wordStartIff c).mpr word)
  · simp_all

theorem markNone {c : Char} (h : c ∉ ['[', ']', '(', ')', ',', '+', '-', '*', '/', '=']) :
    mark? c = none := by
  unfold mark?
  split <;> simp_all

theorem strayPiece {c : Char} {cs : List Char} (other : ¬ Opens c cs) :
    piece c cs = .error (.unexpected c) := by
  simp only [Opens, not_or] at other
  obtain ⟨white, mark, quote, digit, word, pair⟩ := other
  have number : ¬ Char.isDigit c := fun h => digit ((digitIff c).mp h)
  have start : ¬ isWordStart c := fun h => word ((wordStartIff c).mp h)
  have none := markNone mark
  simp only [List.mem_cons, List.not_mem_nil, or_false, not_or] at white mark quote pair
  have remark : ¬ (c = '&' ∧ cs.head? = some '&') := fun h => pair ⟨.inl h.1, h.2⟩
  have comment : ¬ (c = '#' ∧ cs.head? = some '&') := fun h => pair ⟨.inr h.1, h.2⟩
  simp [piece, isBlank, white, mark, quote, remark, comment, number, start, none]

theorem malformedPiece {cs : List Char} {f : LexicalFault} (h : Malformed cs f) :
    ∃ c rest, cs = c :: rest ∧ piece c rest = .error f := by
  cases h with
  | stray other => exact ⟨_, _, rfl, strayPiece other⟩
  | @comment body endless =>
    exact ⟨'#', '&' :: body, rfl, by simp [piece, isBlank, closeCommentOpen endless]⟩
  | @text q body s rest f quote inside breaks =>
    refine ⟨q, body ++ rest, rfl, ?_⟩
    have read := breaksReadText quote inside breaks
    rcases quote with rfl | rfl <;> simp [piece, isBlank, read, Except.map]

theorem malformedUnique {cs : List Char} {f g : LexicalFault} (h : Malformed cs f)
    (k : Malformed cs g) : f = g := by
  obtain ⟨c, rest, rfl, first⟩ := malformedPiece h
  obtain ⟨d, more, same, second⟩ := malformedPiece k
  obtain ⟨rfl, rfl⟩ := List.cons.inj same
  exact Except.error.inj (first.symm.trans second)

/- A text that ends inside a bad construct still starts with one. -/
theorem malformedStart {bad start : List Char} {f : LexicalFault} (h : Malformed bad f)
    (inside : start <+: bad) (some : start ≠ []) : ∃ g, Malformed start g := by
  obtain ⟨more, same⟩ := inside
  cases start with
  | nil => contradiction
  | cons c cs =>
    cases h with
    | stray other =>
      obtain ⟨rfl, rfl⟩ := List.cons.inj same
      exact ⟨_, .stray fun opens => other (opensMore opens more)⟩
    | comment endless =>
      obtain ⟨rfl, body⟩ := List.cons.inj same
      cases cs with
      | nil => exact ⟨_, .stray (by simp [Opens, IsDigit, StartsWord, IsLetter])⟩
      | cons d cs =>
        obtain ⟨rfl, rfl⟩ := List.cons.inj body
        refine ⟨_, .comment fun closed => endless ?_⟩
        exact closed.trans (List.prefix_append cs more).isInfix
    | @text q body s rest _ quote inside breaks =>
      obtain ⟨rfl, whole⟩ := List.cons.inj same
      cases read : readText c cs with
      | error g =>
        obtain ⟨body, s, rest, rfl, inside, breaks⟩ := readTextBreaks read
        exact ⟨g, .text quote inside breaks⟩
      | ok result =>
        -- A quote that closes the literal would close it in the longer text too.
        obtain ⟨t, after⟩ := result
        obtain ⟨closed, rfl, inner⟩ := readTextSound read
        have fails := breaksReadText quote inside breaks
        have reads := readTextComplete quote inner (after ++ more)
        have split : (closed ++ c :: after) ++ more = closed ++ c :: (after ++ more) := by simp
        have same : closed ++ c :: (after ++ more) = body ++ rest := split.symm.trans whole
        rw [← same, reads] at fails
        cases fails

theorem scanFiller {filler after : List Char} (h : Filler filler after) (line : Nat) :
    scan line (filler ++ after) = scan (line + newlines filler) after := by
  obtain ⟨c, cs, same, taken⟩ := fillerPiece h
  rw [same, scanGap taken]

/- A text is read up to a bad construct as if nothing followed, or any start of it. -/
theorem scanMalformed : ∀ {line : Nat} (cs : List Char) {e : SyntaxError}, scan line cs = .error e →
    ∃ pre bad f ts, cs = pre ++ bad ∧ Malformed bad f ∧ e = ⟨.lexical f, line + newlines pre⟩ ∧
      ∀ start, start <+: bad →
        scan line (pre ++ start) = (scan (line + newlines pre) start).map (ts ++ ·)
  | line, [], e, h => by
    rw [scan] at h
    cases h
  | line, c :: cs, e, h => by
    cases taken : piece c cs with
    | error f =>
      rw [scanError taken] at h
      cases h
      refine ⟨[], c :: cs, f, [], rfl, pieceMalformed taken, rfl, ?_⟩
      intro start _
      simp only [List.nil_append, newlines, List.count_nil, Nat.add_zero]
      cases scan line start <;> rfl
    | ok result =>
      obtain ⟨p, rest⟩ := result
      have shorter := pieceShorter taken
      have sound := pieceSound taken
      cases p with
      | gap n =>
        rw [scanGap taken] at h
        obtain ⟨filler, same, gap, rfl⟩ := sound
        obtain ⟨pre, bad, f, ts, rfl, malformed, rfl, resumes⟩ := scanMalformed rest h
        refine ⟨filler ++ pre, bad, f, ts, by rw [same, List.append_assoc], malformed, ?_, ?_⟩
        · rw [newlinesAppend, Nat.add_assoc]
        · intro start inside
          have shorter := fillerStart ((List.prefix_append_right_inj pre).mpr inside) gap
          rw [List.append_assoc, scanFiller shorter, resumes start inside, newlinesAppend,
            Nat.add_assoc]
      | token kind =>
        rw [scanToken taken] at h
        obtain ⟨lexeme, same, spells⟩ := sound
        obtain ⟨pre, bad, f, ts, rfl, malformed, rfl, resumes⟩ := scanMalformed rest (mapError h)
        have lines : newlines (lexeme ++ pre) = newlines pre := by
          rw [newlinesAppend, lexemeLine spells, Nat.zero_add]
        refine ⟨lexeme ++ pre, bad, f, ⟨kind, line⟩ :: ts, by rw [same, List.append_assoc],
          malformed, by rw [lines], ?_⟩
        intro start inside
        have shorter := lexemeStart ((List.prefix_append_right_inj pre).mpr inside) spells
        rw [List.append_assoc, lexemeScan shorter, resumes start inside, lines]
        cases scan (line + newlines pre) start <;> rfl
termination_by _ cs => cs.length
decreasing_by all_goals (simp only [List.length_cons]; omega)

theorem scanRejected {line : Nat} {cs : List Char} {f : LexicalFault} (h : Malformed cs f) :
    scan line cs = .error ⟨.lexical f, line⟩ := by
  obtain ⟨c, rest, rfl, failed⟩ := malformedPiece h
  exact scanError failed

end Lexer

theorem tokenizeAccepts (source : String) :
    (∃ ts, tokenize source = .ok ts) ↔ ∃ ts, Lexer.scan 1 source.toList = .ok ts := by
  unfold tokenize
  cases Lexer.scan 1 source.toList <;> simp [Except.map]

theorem noNumber {a : String} (other : a.toList.take 9 ≠ "Invalid number ".toList.take 9)
    (long : 9 ≤ a.toList.length) (x y : String) : a ++ x ≠ "Invalid number " ++ y := by
  intro same
  have start := congrArg (fun s => s.toList.take 9) same
  simp only [String.toList_append] at start
  rw [List.take_append_of_le_length long, List.take_append_of_le_length (by decide)] at start
  exact other start

theorem malformedNoNumber {cs : List Char} {f : LexicalFault} (h : Lexical.Malformed cs f)
    (digits : String) : f.message ≠ "Invalid number " ++ digits := by
  cases f with
  | number => exact absurd h Lexical.numberFormed
  | unexpected c | escape c => exact noNumber (by decide) (by decide) _ digits
  | openComment =>
    have other : "Unterminated multiline comment" ++ "" ≠ "Invalid number " ++ digits :=
      noNumber (by decide) (by decide) _ digits
    rwa [String.append_empty] at other
  | openText =>
    have other : "Unterminated string literal" ++ "" ≠ "Invalid number " ++ digits :=
      noNumber (by decide) (by decide) _ digits
    rwa [String.append_empty] at other

theorem rejectedAtTheFirstBadConstruct {source : String} {e : SyntaxError}
    (rejected : tokenize source = .error e) :
    ∃ pre bad : String, source = pre ++ bad ∧ (∃ ts, tokenize pre = .ok ts) ∧
      (∀ start : String, start.toList <+: source.toList → (∃ ts, tokenize start = .ok ts) →
        start.toList <+: pre.toList) ∧
      e.line = 1 + Lexical.newlines pre.toList ∧
      (∃ f, Lexical.Malformed bad.toList f ∧ (∀ g, Lexical.Malformed bad.toList g → g = f) ∧
        ((∃ c, f = .unexpected c ∧ e.message = "Unexpected character " ++ c.toString) ∨
          (f = .openComment ∧ e.message = "Unterminated multiline comment") ∨
          (f = .openText ∧ e.message = "Unterminated string literal") ∨
          ∃ c, f = .escape c ∧ e.message = "Invalid escape sequence \\" ++ c.toString)) ∧
      ∀ digits, e.message ≠ "Invalid number " ++ digits := by
  obtain ⟨pre, bad, f, ts, whole, malformed, rfl, resumes⟩ :=
    Lexer.scanMalformed source.toList (Lexer.mapError rejected)
  have accepted : Lexer.scan 1 pre = .ok ts := by
    have alone := resumes [] List.nil_prefix
    simpa [Lexer.scan, Except.map] using alone
  refine ⟨String.ofList pre, String.ofList bad, ?_, ?_, ?_, ?_, ⟨f, ?_, ?_, ?_⟩, ?_⟩
  · rw [← String.ofList_append, ← whole, String.ofList_toList]
  · exact (tokenizeAccepts _).mpr ⟨ts, by rw [String.toList_ofList, accepted]⟩
  · intro start inside accepts
    rw [whole] at inside
    obtain ⟨us, read⟩ := (tokenizeAccepts start).mp accepts
    rcases List.prefix_or_prefix_of_prefix inside (List.prefix_append pre bad) with within | ⟨more, same⟩
    · rwa [String.toList_ofList]
    · rw [← same] at inside read ⊢
      have start := (List.prefix_append_right_inj pre).mp inside
      cases more with
      | nil => simp
      | cons c cs =>
        -- What is longer ends inside the bad construct.
        obtain ⟨g, again⟩ := Lexer.malformedStart malformed start (List.cons_ne_nil c cs)
        rw [resumes _ start, Lexer.scanRejected again] at read
        cases read
  · rw [String.toList_ofList]
  · rwa [String.toList_ofList]
  · intro g other
    rw [String.toList_ofList] at other
    exact Lexer.malformedUnique other malformed
  · cases f with
    | number => exact absurd malformed Lexical.numberFormed
    | unexpected c => exact .inl ⟨c, rfl, rfl⟩
    | openComment => exact .inr (.inl ⟨rfl, rfl⟩)
    | openText => exact .inr (.inr (.inl ⟨rfl, rfl⟩))
    | escape c => exact .inr (.inr (.inr ⟨c, rfl, rfl⟩))
  · exact malformedNoNumber malformed

namespace Lexical

theorem unknownEscape : Malformed "\"\\n\\q".toList (.escape 'q') := by
  have free : ∀ c, ('q', c) ∉ escapes := by
    intro c
    simp [escapes]
  have known : ('n', '\n') ∈ escapes := by decide
  exact .text (.inl rfl) (.escape known .nil) (.unknown (by decide) free)

theorem spanningComment (after : List Char) : Filler "#& a\n& &#".toList after := by
  have first : ¬ ['&', '#'] <:+: " a\n& ".toList := by decide
  exact .comment first

end Lexical

/- The literal starts on the line on which the comment before it ends. -/
theorem unknownEscapeRejected :
    tokenize "(#& a\n& &#\"\\n\\q" = .error ⟨.lexical (.escape 'q'), 2⟩ ∧
      ∃ pre bad : String, "(#& a\n& &#\"\\n\\q" = pre ++ bad ∧ (∃ ts, tokenize pre = .ok ts) ∧
        2 = 1 + Lexical.newlines pre.toList ∧
        ∃ f, Lexical.Malformed bad.toList f ∧ ∀ g, Lexical.Malformed bad.toList g → g = f := by
  have rejected : tokenize "(#& a\n& &#\"\\n\\q" = .error ⟨.lexical (.escape 'q'), 2⟩ := by
    have opening : Lexical.Lexeme ['('] (.mark .leftParen) ("#& a\n& &#".toList ++ "\"\\n\\q".toList) :=
      .mark (m := .leftParen) (by decide)
    have first := Lexer.lexemeScan opening 1
    rw [Lexer.scanFiller (Lexical.spanningComment _), Lexer.scanRejected Lexical.unknownEscape] at first
    rw [tokenize]
    exact congrArg (Except.map _) first
  obtain ⟨pre, bad, whole, accepted, _, line, ⟨f, malformed, only, _⟩, _⟩ :=
    rejectedAtTheFirstBadConstruct rejected
  exact ⟨rejected, pre, bad, whole, accepted, line, f, malformed, only⟩

end EventScript
