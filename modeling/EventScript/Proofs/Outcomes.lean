import EventScript.Proofs.Parsing

/-! What becomes of the tokens that a rule of the parser is given: a phrase is read, or
the nesting is too deep, or the rule is stuck on a token. What was read before that token
begins a phrase of the language, and no rule looks beyond the token it stops at, so
whatever follows it does not change the outcome. -/
namespace EventScript.Parser
open Grammar

variable {α β : Type}

/- The tokens can be continued to a phrase. -/
def Begins (L : Derives α) (ts : List Token) : Prop := ∃ more v, L (ts ++ more) v

theorem beginsHere {L : Derives α} {ts : List Token} {v : α} (phrase : L ts v) : Begins L ts :=
  ⟨[], v, by rwa [List.append_nil]⟩

/- The line of the end of the tokens, and levels of nesting beyond those that a rule has. -/
structure Setting where
  endLine : Nat
  spare : Nat

abbrev Reading (α : Type) := Setting → List Token → Except SyntaxError (α × List Token)

def forget {n : Nat} : Except SyntaxError (Phrase α n) → Except SyntaxError (α × List Token)
  | .ok p => .ok (p.value, p.rest)
  | .error e => .error e

def reading {bound : List Token → Nat}
    (rule : Setting → (ts : List Token) → Except SyntaxError (Phrase α (bound ts))) : Reading α :=
  fun s ts => forget (rule s ts)

def give (v : α) : Reading α := fun _ ts => .ok (v, ts)

def andThen (read : Reading α) (next : α → Reading β) : Reading β := fun s ts =>
  match read s ts with
  | .ok (v, rest) => next v s rest
  | .error e => .error e

theorem forgetBind {m n : Nat} {x : Except SyntaxError (Phrase α m)}
    {f : Phrase α m → Except SyntaxError (Phrase β n)} {read : Reading α} {next : α → Reading β}
    {s : Setting} {ts : List Token} (first : forget x = read s ts)
    (second : ∀ v rest short, forget (f ⟨v, rest, short⟩) = next v s rest) :
    forget (x >>= f) = andThen read next s ts := by
  unfold andThen
  rw [← first]
  cases x with
  | ok p => exact second p.value p.rest p.short
  | error e => rfl

theorem forgetWiden {m n : Nat} (x : Except SyntaxError (Phrase α m)) (h : m ≤ n) :
    forget (x >>= fun p => .ok (p.widen h)) = forget x := by
  cases x with
  | ok p => rfl
  | error e => rfl

theorem readingShort {rule : Setting → Rule α} {s : Setting} {ts rest : List Token} {v : α}
    (h : reading rule s ts = .ok (v, rest)) : rest.length < ts.length := by
  unfold reading at h
  cases given : rule s ts with
  | ok p =>
    rw [given] at h
    cases h
    exact p.short
  | error e =>
    rw [given] at h
    contradiction

/- How an error names the first token of `rest`. An error about the phrase on the left of
that token has the line of the phrase, and a name in place of the phrase would be right. -/
inductive Blames (line : Nat) (begins : List Token → Prop) (before rest : List Token) :
    SyntaxError → Prop where
  | missing (what : Expected) :
      Blames line begins before rest ⟨.grammar (.missing what), nextLine line rest⟩
  | endOfInput (ended : ∀ t us, rest = t :: us → t.kind = .finish) :
      Blames line begins before rest ⟨.grammar .endOfInput, nextLine line rest⟩
  | unexpected {t us} (next : rest = t :: us) :
      Blames line begins before rest ⟨.grammar (.unexpected t.kind), t.line⟩
  | target (outer left : List Token) {t us n depth} (next : rest = t :: us)
      (sign : t.kind = .mark .assign) (split : before = outer ++ left)
      (phrase : Comparison (Expression depth) left n)
      (named : ∀ x l, begins (outer ++ [⟨.name x, l⟩, t])) :
      Blames line begins before rest ⟨.grammar (.notAssignable n.form), n.line⟩
  | callee (outer left : List Token) {t us n depth} (next : rest = t :: us)
      (bracket : t.kind = .mark .leftBracket) (split : before = outer ++ left)
      (phrase : Primary (Expression depth) left n)
      (named : ∀ x l, begins (outer ++ [⟨.name x, l⟩, t])) :
      Blames line begins before rest ⟨.grammar (.notCallable n.form), n.line⟩

theorem blamesUnder {line : Nat} {begins inside : List Token → Prop} {before rest : List Token}
    {e : SyntaxError} (h : Blames line inside before rest e) {done : List Token}
    (under : ∀ ts, inside ts → begins (done ++ ts)) :
    Blames line begins (done ++ before) rest e := by
  cases h with
  | missing what => exact .missing what
  | endOfInput ended => exact .endOfInput ended
  | unexpected next => exact .unexpected next
  | target outer left next sign split phrase named =>
    refine .target (done ++ outer) left next sign (by rw [split, List.append_assoc]) phrase ?_
    intro x l
    rw [List.append_assoc]
    exact under _ (named x l)
  | callee outer left next bracket split phrase named =>
    refine .callee (done ++ outer) left next bracket (by rw [split, List.append_assoc]) phrase ?_
    intro x l
    rw [List.append_assoc]
    exact under _ (named x l)

theorem blamesSign {line : Nat} {begins : List Token → Prop} {before rest : List Token}
    {e : SyntaxError} {found : NodeForm} (h : Blames line begins before rest e)
    (fault : e.fault = .grammar (.notAssignable found)) :
    ∃ t us, rest = t :: us ∧ t.kind = .mark .assign := by
  cases h with
  | target outer left next sign => exact ⟨_, _, next, sign⟩
  | _ => simp at fault

/- What a rule makes of tokens that stand after the tokens `done`. Only the next token after a
phrase decides that the phrase ends, and only the token that it is stuck on that it is stuck. -/
inductive Outcome (line : Nat) (read : Reading α) (L : Derives α) (done ts : List Token) : Prop where
  | reads (pre rest : List Token) (v : α) (split : ts = pre ++ rest) (phrase : L (done ++ pre) v)
      (steady : ∀ s more, more.head? = rest.head? → read s (pre ++ more) = .ok (v, more))
  | deep (l : Nat) (error : read ⟨line, 0⟩ ts = .error ⟨.grammar .tooDeep, l⟩)
  | stuck (pre rest : List Token) (e : SyntaxError) (split : ts = pre ++ rest)
      (begins : Begins L (done ++ pre)) (blamed : Blames line (Begins L) (done ++ pre) rest e)
      (error : read ⟨line, 0⟩ ts = .error e)
      (steady : ∀ t us, rest = t :: us → ∀ s more, read s (pre ++ t :: more) = .error e)

section Outcomes

variable {line : Nat} {read : Reading α} {next : α → Reading β} {L : Derives α} {N : Derives β}
  {done ts : List Token}

theorem beginsUnder {N : Derives α} (under : ∀ p v, L p v → N (done ++ p) v) (p : List Token)
    (h : Begins L p) : Begins N (done ++ p) := by
  obtain ⟨more, v, phrase⟩ := h
  exact ⟨more, v, by rw [List.append_assoc]; exact under _ v phrase⟩

theorem outcomeUnder {N : Derives α} (h : Outcome line read L [] ts)
    (under : ∀ p v, L p v → N (done ++ p) v) : Outcome line read N done ts := by
  cases h with
  | reads pre rest v split phrase steady => exact .reads pre rest v split (under pre v phrase) steady
  | deep l error => exact .deep l error
  | stuck pre rest e split begins blamed error steady =>
    exact .stuck pre rest e split (beginsUnder under pre begins)
      (blamesUnder blamed (beginsUnder under)) error steady

/- Only the next token tells where the readings may differ. -/
theorem outcomeAlike {other : Reading α} (h : Outcome line other L done ts)
    (alike : ∀ s us, us.head? = ts.head? → read s us = other s us) :
    Outcome line read L done ts := by
  cases h with
  | reads pre rest v split phrase steady =>
    refine .reads pre rest v split phrase ?_
    intro s more head
    rw [alike s _ (by rw [split, List.head?_append, List.head?_append, head])]
    exact steady s more head
  | deep l error => exact .deep l (by rw [alike _ ts rfl]; exact error)
  | stuck pre rest e split begins blamed error steady =>
    refine .stuck pre rest e split begins blamed (by rw [alike _ ts rfl]; exact error) ?_
    rintro t us rfl s more
    rw [alike s _ (by rw [split, List.head?_append, List.head?_append]; rfl)]
    exact steady t us rfl s more

theorem outcomeStop {v : α} (phrase : L done v)
    (steady : ∀ s more, more.head? = ts.head? → read s more = .ok (v, more)) :
    Outcome line read L done ts :=
  .reads [] ts v rfl (by rwa [List.append_nil]) steady

/- A part that may be missing, and is known by its first token. -/
theorem outcomeUnless (starts : TokenKind → Prop) {v : α} (phrase : L done v)
    (skips : ∀ s us, (∀ t more, us = t :: more → ¬ starts t.kind) → read s us = .ok (v, us))
    (takes : ∀ t us, ts = t :: us → starts t.kind → Outcome line read L done (t :: us)) :
    Outcome line read L done ts := by
  by_cases going : ∃ t us, ts = t :: us ∧ starts t.kind
  · obtain ⟨t, us, rfl, start⟩ := going
    exact takes t us rfl start
  · refine outcomeStop phrase ?_
    intro s more head
    refine skips s more ?_
    rintro t us rfl start
    obtain ⟨rest, same⟩ := List.head?_eq_some_iff.mp head.symm
    exact going ⟨t, rest, same, start⟩

theorem outcomeEnd {e : SyntaxError} (begins : Begins L done)
    (blamed : Blames line (Begins L) done [] e) (error : read ⟨line, 0⟩ [] = .error e) :
    Outcome line read L done [] := by
  rw [← List.append_nil done] at begins blamed
  exact .stuck [] [] e rfl begins blamed error (by rintro t us ⟨⟩)

theorem outcomeRefused {t : Token} {e : SyntaxError} (begins : Begins L done)
    (blamed : Blames line (Begins L) done (t :: ts) e)
    (error : ∀ s more, read s (t :: more) = .error e) : Outcome line read L done (t :: ts) := by
  rw [← List.append_nil done] at begins blamed
  refine .stuck [] (t :: ts) e rfl begins blamed (error _ ts) ?_
  rintro u us ⟨⟩ s more
  exact error s more

theorem outcomeGive {v : α} (phrase : L done v) : Outcome line (give v) L done ts :=
  outcomeStop phrase fun _ _ _ => rfl

theorem outcomeToken {after : Reading α} {t : Token} (h : Outcome line after L (done ++ [t]) ts)
    (same : ∀ s us, read s (t :: us) = after s us) : Outcome line read L done (t :: ts) := by
  have shift (p : List Token) : done ++ [t] ++ p = done ++ t :: p := by simp
  cases h with
  | reads pre rest v split phrase steady =>
    refine .reads (t :: pre) rest v (by rw [split, List.cons_append]) (by rwa [shift] at phrase) ?_
    intro s more head
    rw [List.cons_append, same]
    exact steady s more head
  | deep l error => exact .deep l (by rw [same]; exact error)
  | stuck pre rest e split begins blamed error steady =>
    rw [shift] at begins blamed
    refine .stuck (t :: pre) rest e (by rw [split, List.cons_append]) begins blamed
      (by rw [same]; exact error) ?_
    intro u us next s more
    rw [List.cons_append, same]
    exact steady u us next s more

theorem outcomeThen (first : Outcome line read L [] ts)
    (go : ∀ pre v, L pre v → Begins N (done ++ pre))
    (second : ∀ pre v rest, ts = pre ++ rest → L pre v → read ⟨line, 0⟩ ts = .ok (v, rest) →
      Outcome line (next v) N (done ++ pre) rest) :
    Outcome line (andThen read next) N done ts := by
  cases first with
  | reads pre rest v split phrase steady =>
    subst split
    have here := steady ⟨line, 0⟩ rest rfl
    have ahead {p us vs : List Token} (head : us.head? = vs.head?) :
        (p ++ us).head? = (p ++ vs).head? := by rw [List.head?_append, List.head?_append, head]
    cases second pre v rest rfl phrase here with
    | reads post after w split phrase steady' =>
      subst split
      refine .reads (pre ++ post) after w (List.append_assoc ..).symm
        (by rwa [List.append_assoc] at phrase) ?_
      intro s more head
      rw [List.append_assoc, andThen, steady s _ (ahead head)]
      exact steady' s more head
    | deep l error => exact .deep l (by rw [andThen, here]; exact error)
    | stuck post after e split begins blamed error steady' =>
      subst split
      rw [List.append_assoc] at begins blamed
      refine .stuck (pre ++ post) after e (List.append_assoc ..).symm begins blamed
        (by rw [andThen, here]; exact error) ?_
      rintro t us rfl s more
      rw [List.append_assoc, andThen, steady s (post ++ t :: more) (ahead rfl)]
      exact steady' t us rfl s more
  | deep l error => exact .deep l (by rw [andThen, error])
  | stuck pre rest e split begins blamed error steady =>
    have under (p : List Token) (h : Begins L p) : Begins N (done ++ p) := by
      obtain ⟨more, v, phrase⟩ := h
      obtain ⟨post, w, whole⟩ := go _ v phrase
      exact ⟨more ++ post, w, by simpa using whole⟩
    refine .stuck pre rest e split (under pre begins) (blamesUnder blamed under)
      (by rw [andThen, error]) ?_
    intro t us next s more
    rw [andThen, steady t us next s more]

theorem outcomeMap {f : α → β} (h : Outcome line read L [] ts)
    (under : ∀ p v, L p v → N (done ++ p) (f v)) :
    Outcome line (andThen read fun v => give (f v)) N done ts := by
  refine outcomeThen h ?_ ?_
  · intro pre v phrase
    exact beginsHere (under pre v phrase)
  · intro pre v rest _ phrase _
    exact outcomeGive (under pre v phrase)

end Outcomes

structure Judged (line : Nat) (read : Reading α) (L : Derives α) : Prop where
  outcome : ∀ ts, Outcome line read L [] ts
  phrase : ∃ ts v, L ts v

inductive Then (L : Derives α) (M : α → Derives β) : List Token → β → Prop where
  | mk {pre post v w} (first : L pre v) (second : M v post w) : Then L M (pre ++ post) w

inductive Returns (v : α) : List Token → α → Prop where
  | mk : Returns v [] v

section Judgements

variable {line : Nat} {read : Reading α} {next : α → Reading β} {L : Derives α} {M : α → Derives β}

theorem judgedGive (v : α) : Judged line (give v) (Returns v) where
  outcome _ := outcomeGive .mk
  phrase := ⟨[], v, .mk⟩

theorem judgedThen (first : Judged line read L) (second : ∀ v, Judged line (next v) (M v)) :
    Judged line (andThen read next) (Then L M) where
  outcome ts := by
    refine outcomeThen (first.outcome ts) ?_ ?_
    · intro pre v phrase
      obtain ⟨post, w, more⟩ := (second v).phrase
      exact ⟨post, w, .mk phrase more⟩
    · intro pre v rest _ phrase _
      exact outcomeUnder ((second v).outcome rest) fun _ _ more => .mk phrase more
  phrase := by
    obtain ⟨pre, v, phrase⟩ := first.phrase
    obtain ⟨post, w, more⟩ := (second v).phrase
    exact ⟨_, w, .mk phrase more⟩

theorem judgedAs {other : Reading α} {N : Derives α} (h : Judged line read L)
    (same : ∀ s ts, other s ts = read s ts) (wider : ∀ ts v, L ts v → N ts v) :
    Judged line other N where
  outcome ts := outcomeAlike (outcomeUnder (h.outcome ts) wider) fun s us _ => same s us
  phrase := by
    obtain ⟨ts, v, phrase⟩ := h.phrase
    exact ⟨ts, v, wider ts v phrase⟩

end Judgements

end EventScript.Parser
