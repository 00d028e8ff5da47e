import EventScript.Proofs.Cursor
import EventScript.Proofs.Parsing

/-! The walk over numbered tokens and the rules of the parser read the same phrases. The
cursor stays at or before the first end mark, so each token that it looks at is there; each
phrase takes it forward, so no loop has more turns than there are tokens. -/
namespace EventScript.Cursor
open EventScript.Parser (Phrase Rule beforeEnd endLine Lists)

variable {α β : Type}

def endIndex (ts : List Token) : Nat := (padded ts).findIdx (·.kind == .finish)

/- The marks are all that was looked at and every place that was stood at. -/
structure Inside (ts : List Token) (c : Cursor) : Prop where
  tokens : c.tokens = (padded ts).toArray
  position : c.position ≤ endIndex ts
  marks : ∀ m ∈ c.marks, m ≤ endIndex ts

/- What is left before the end mark. -/
structure Stands (ts us : List Token) (c : Cursor) : Prop extends Inside ts c where
  ahead : (beforeEnd ts).drop c.position = us

/- A rule of a keyword takes its line from the token that was read last. -/
def Behind (t : Token) (c : Cursor) : Prop := c.tokens[c.position - 1]? = some t

/- Both give the same value and leave the same tokens, or both end with the same fault. -/
inductive Traces (ts : List Token) {n : Nat} :
    Except SyntaxError (Phrase α n) → EStateM.Result Stop Cursor α → Prop where
  | ok {p : Phrase α n} {c : Cursor} (stands : Stands ts p.rest c) : Traces ts (.ok p) (.ok p.value c)
  | error {e : SyntaxError} {c : Cursor} (inside : Inside ts c) :
      Traces ts (.error e) (.error (.fault e) c)

def Follows (ts : List Token) (rule : Rule α) (reader : Reader α) : Prop :=
  ∀ us c, Stands ts us c → Traces ts (rule us) (reader c)

theorem Traces.value {ts : List Token} {n : Nat} {p : Phrase α n} {r : EStateM.Result Stop Cursor α}
    (traces : Traces ts (.ok p) r) : ∃ c, r = .ok p.value c ∧ Stands ts p.rest c := by
  cases traces with
  | ok stands => exact ⟨_, rfl, stands⟩

theorem Traces.fault {ts : List Token} {n : Nat} {e : SyntaxError} {r : EStateM.Result Stop Cursor α}
    (traces : Traces ts (.error e : Except SyntaxError (Phrase α n)) r) :
    ∃ c, r = .error (.fault e) c ∧ Inside ts c := by
  cases traces with
  | error inside => exact ⟨_, rfl, inside⟩

theorem thenOk {m : Reader α} {k : α → Reader β} {c c' : Cursor} {v : α} (done : m c = .ok v c') :
    (m >>= k) c = k v c' := by
  change EStateM.bind m k c = _
  simp only [EStateM.bind, done]

theorem thenError {m : Reader α} {k : α → Reader β} {c c' : Cursor} {stop : Stop}
    (done : m c = .error stop c') : (m >>= k) c = .error stop c' := by
  change EStateM.bind m k c = _
  simp only [EStateM.bind, done]

theorem Traces.bind {ts : List Token} {m n : Nat} {x : Except SyntaxError (Phrase α m)}
    {f : Phrase α m → Except SyntaxError (Phrase β n)} {reader : Reader α} {k : α → Reader β}
    {c : Cursor} (first : Traces ts x (reader c))
    (next : ∀ p c', Stands ts p.rest c' → Traces ts (f p) (k p.value c')) :
    Traces ts (x >>= f) ((reader >>= k) c) := by
  cases x with
  | ok p =>
    obtain ⟨c', done, stands⟩ := first.value
    rw [thenOk done]
    exact next p c' stands
  | error e =>
    obtain ⟨c', done, inside⟩ := first.fault
    rw [thenError done]
    exact .error inside

theorem Traces.widen {ts : List Token} {m n : Nat} {x : Except SyntaxError (Phrase α m)}
    {r : EStateM.Result Stop Cursor α} (traces : Traces ts x r) (le : m ≤ n) :
    Traces ts (x >>= fun p => .ok (p.widen le)) r := by
  cases traces with
  | ok stands => exact .ok stands
  | error inside => exact .error inside

theorem markedEnd (after : List Token) {before : List Token} {t : Token}
    (plain : ∀ u ∈ before, u.kind ≠ .finish) (finish : t.kind = .finish) :
    beforeEnd (before ++ t :: after) = before ∧ endLine (before ++ t :: after) = t.line := by
  have cut : beforeEnd (before ++ t :: after) = before := by
    rw [Parser.beforeEndAppend plain]
    simp [beforeEnd, finish]
  have none : before.find? (·.kind == .finish) = none := by simpa using plain
  have line : endLine (before ++ t :: after) = t.line := by
    simp [endLine, List.find?_append, none, finish]
  exact ⟨cut, line⟩

theorem unmarkedEnd {ts : List Token} (plain : ∀ u ∈ ts, u.kind ≠ .finish) :
    beforeEnd ts = ts ∧ endLine ts = Token.lastLine ts := by
  have cut : beforeEnd ts = ts := by simpa [beforeEnd] using Parser.beforeEndAppend plain []
  have none : ts.find? (·.kind == .finish) = none := by simpa using plain
  exact ⟨cut, by simp [endLine, none]⟩

theorem endCases (ts : List Token) : (∀ u ∈ ts, u.kind ≠ .finish) ∨
    ∃ before t after, ts = before ++ t :: after ∧ (∀ u ∈ before, u.kind ≠ .finish) ∧
      t.kind = .finish := by
  cases found : ts.find? (·.kind == .finish) with
  | none => exact .inl (by simpa using found)
  | some t =>
    obtain ⟨finish, before, after, split, plain⟩ := List.find?_eq_some_iff_append.mp found
    exact .inr ⟨before, t, after, split, by simpa using plain, by simpa using finish⟩

theorem paddedSplit (ts : List Token) :
    ∃ t after, padded ts = beforeEnd ts ++ t :: after ∧ t.kind = .finish ∧ t.line = endLine ts := by
  rcases endCases ts with plain | ⟨before, t, after, rfl, plain, finish⟩
  · have none : ts.getLast?.any (·.kind == .finish) = false := by
      cases last : ts.getLast? with
      | none => rfl
      | some t => simpa using plain t (List.mem_of_getLast? last)
    obtain ⟨cut, line⟩ := unmarkedEnd plain
    exact ⟨⟨.finish, Token.lastLine ts⟩, [], by simp [padded, none, cut], rfl, line.symm⟩
  · obtain ⟨cut, line⟩ := markedEnd after plain finish
    rw [cut]
    unfold padded
    split
    · exact ⟨t, after, rfl, finish, line.symm⟩
    · exact ⟨t, _, List.append_assoc before (t :: after) _, finish, line.symm⟩

theorem plainBefore {ts : List Token} {t : Token} (member : t ∈ beforeEnd ts) : t.kind ≠ .finish := by
  simpa using List.all_eq_true.mp List.all_takeWhile t member

theorem endIndexLength (ts : List Token) : endIndex ts = (beforeEnd ts).length := by
  obtain ⟨t, after, split, finish, _⟩ := paddedSplit ts
  have none : ¬ (beforeEnd ts).findIdx (·.kind == .finish) < (beforeEnd ts).length := by
    rw [List.findIdx_lt_length]
    intro found
    obtain ⟨u, member, same⟩ := found
    exact plainBefore member (by simpa using same)
  unfold endIndex
  rw [split, List.findIdx_append, if_neg none]
  simp [List.findIdx_cons, finish]

theorem endIndexLt (ts : List Token) : endIndex ts < (padded ts).length := by
  obtain ⟨t, after, split, _, _⟩ := paddedSplit ts
  simp [endIndexLength, split]

/- What follows the first end mark is not part of the program. -/
theorem parseTokensCut (ts : List Token) : parseTokens (ts.take (endIndex ts + 1)) = parseTokens ts := by
  rw [endIndexLength]
  rcases endCases ts with plain | ⟨before, t, after, rfl, plain, finish⟩
  · rw [(unmarkedEnd plain).1, List.take_of_length_le (Nat.le_succ _)]
  · obtain ⟨cut, line⟩ := markedEnd after plain finish
    obtain ⟨cutShort, lineShort⟩ := markedEnd [] plain finish
    have taken : (before ++ t :: after).take (before.length + 1) = before ++ [t] := by
      rw [List.take_length_add_append]
      rfl
    rw [cut, taken]
    unfold parseTokens
    rw [cut, line, cutShort, lineShort]

section Steps

variable {ts us : List Token} {c : Cursor} {t : Token}

theorem Inside.mark (inside : Inside ts c) {i : Nat} (le : i ≤ endIndex ts) : Inside ts (c.mark i) where
  tokens := inside.tokens
  position := inside.position
  marks := by simpa [Cursor.mark, le] using inside.marks

theorem Stands.mark (stands : Stands ts us c) {i : Nat} (le : i ≤ endIndex ts) :
    Stands ts us (c.mark i) where
  toInside := stands.toInside.mark le
  ahead := stands.ahead

theorem Stands.length (stands : Stands ts us c) : c.position + us.length = endIndex ts := by
  have le := stands.position
  rw [← stands.ahead, List.length_drop, ← endIndexLength]
  omega

theorem Stands.short (stands : Stands ts us c) : us.length ≤ ts.length := by
  have length := stands.length
  have cut : (beforeEnd ts).length ≤ ts.length := (List.takeWhile_sublist _).length_le
  rw [endIndexLength] at length
  omega

theorem Stands.plain (stands : Stands ts (t :: us) c) : t.kind ≠ .finish := by
  have member : t ∈ beforeEnd ts := by
    apply List.mem_of_mem_drop
    rw [stands.ahead]
    exact List.mem_cons_self
  exact plainBefore member

theorem Inside.token (inside : Inside ts c) (i : Nat) : c.tokens[i]? = (padded ts)[i]? := by
  simp [inside.tokens]

theorem Stands.next (stands : Stands ts (t :: us) c) : c.tokens[c.position]? = some t := by
  obtain ⟨_, _, split, _, _⟩ := paddedSplit ts
  have here : (beforeEnd ts)[c.position]? = some t := by
    rw [← List.head?_drop, stands.ahead]
    rfl
  rw [stands.token, split, List.getElem?_append_left (List.getElem?_eq_some_iff.mp here).1, here]

theorem Stands.last (stands : Stands ts [] c) :
    ∃ t, c.tokens[c.position]? = some t ∧ t.kind = .finish ∧ t.line = endLine ts := by
  obtain ⟨t, after, split, finish, line⟩ := paddedSplit ts
  have position : c.position = (beforeEnd ts).length := by
    rw [← endIndexLength]
    exact stands.length
  have here : c.tokens[c.position]? = some t := by
    rw [stands.token, split, position]
    simp
  exact ⟨t, here, finish, line⟩

theorem peekSteps (stands : Stands ts us c) (here : c.tokens[c.position]? = some t) :
    ∃ c', peek c = .ok t c' ∧ Stands ts us c' := by
  have bound := (Array.getElem?_eq_some_iff.mp here).1
  have clamped : min c.position (c.tokens.size - 1) = c.position := by omega
  have step : peek c = .ok t (c.mark c.position) := by
    unfold peek look
    simp only [clamped, here]
  exact ⟨_, step, stands.mark stands.position⟩

theorem previousSteps (stands : Stands ts us c) (behind : Behind t c) :
    ∃ c', previous c = .ok t c' ∧ Stands ts us c' := by
  have step : previous c = .ok t (c.mark (c.position - 1)) := by
    unfold previous look
    simp only [show c.tokens[c.position - 1]? = some t from behind]
  exact ⟨_, step, stands.mark (Nat.le_trans (Nat.sub_le _ _) stands.position)⟩

theorem forwardStands (stands : Stands ts (t :: us) c) :
    Stands ts us c.forward ∧ Behind t c.forward := by
  have length := stands.length
  have size : endIndex ts < c.tokens.size := by
    simpa [stands.tokens] using endIndexLt ts
  simp only [List.length_cons] at length
  have moved : c.forward = { c with position := c.position + 1 }.mark (c.position + 1) := by
    unfold forward
    exact if_pos (by omega)
  rw [moved]
  have ahead : (beforeEnd ts).drop (c.position + 1) = us := by
    rw [← List.drop_drop, stands.ahead]
    rfl
  have inside : Inside ts { c with position := c.position + 1 } :=
    ⟨stands.tokens, show c.position + 1 ≤ endIndex ts by omega, stands.marks⟩
  exact ⟨⟨inside.mark inside.position, ahead⟩, stands.next⟩

theorem advanceSteps (stands : Stands ts (t :: us) c) :
    ∃ c', advance c = .ok t c' ∧ Stands ts us c' ∧ Behind t c' := by
  obtain ⟨forward, behind⟩ := forwardStands stands
  have step : advance c = .ok t (c.forward.mark (c.forward.position - 1)) := by
    unfold advance previous look
    simp only [show c.forward.tokens[c.forward.position - 1]? = some t from behind]
  exact ⟨_, step, forward.mark (Nat.le_trans (Nat.sub_le _ _) forward.position), behind⟩

theorem atEndSteps (stands : Stands ts us c) : ∃ c', atEnd c = .ok us.isEmpty c' ∧ Stands ts us c' := by
  unfold atEnd
  cases us with
  | nil =>
    obtain ⟨t, here, finish, _⟩ := stands.last
    obtain ⟨c', peeked, stands'⟩ := peekSteps stands here
    exact ⟨c', by rw [thenOk peeked, finish]; rfl, stands'⟩
  | cons t us =>
    obtain ⟨c', peeked, stands'⟩ := peekSteps stands stands.next
    have plain : (t.kind == .finish) = false := by simpa using stands.plain
    exact ⟨c', by rw [thenOk peeked, plain]; rfl, stands'⟩

def begins (kind : TokenKind) (us : List Token) : Bool := us.head?.any (·.kind == kind)

theorem beginsWith {kind : TokenKind} : begins kind (t :: us) = true ↔ t.kind = kind := by
  simp [begins]

theorem beginsApart {kind : TokenKind} : begins kind (t :: us) = false ↔ t.kind ≠ kind := by
  simp [begins]

theorem checkSteps (stands : Stands ts us c) (kind : TokenKind) :
    ∃ c', check kind c = .ok (begins kind us) c' ∧ Stands ts us c' := by
  unfold check
  obtain ⟨c', ended, stands'⟩ := atEndSteps stands
  rw [thenOk ended]
  cases us with
  | nil => exact ⟨c', rfl, stands'⟩
  | cons t us =>
    obtain ⟨c'', peeked, stands''⟩ := peekSteps stands' stands'.next
    simp only [List.isEmpty_cons, Bool.false_eq_true, if_false]
    exact ⟨c'', by rw [thenOk peeked]; rfl, stands''⟩

theorem acceptSteps (stands : Stands ts (t :: us) c) {kind : TokenKind} (found : t.kind = kind) :
    ∃ c', accept kind c = .ok true c' ∧ Stands ts us c' ∧ Behind t c' := by
  unfold accept
  obtain ⟨c', checked, stands'⟩ := checkSteps stands kind
  obtain ⟨c'', advanced, stands'', behind⟩ := advanceSteps stands'
  rw [thenOk checked, beginsWith.mpr found, if_pos rfl, thenOk advanced]
  exact ⟨c'', rfl, stands'', behind⟩

theorem passSteps (stands : Stands ts us c) {kind : TokenKind} (other : begins kind us = false) :
    ∃ c', accept kind c = .ok false c' ∧ Stands ts us c' := by
  unfold accept
  obtain ⟨c', checked, stands'⟩ := checkSteps stands kind
  rw [thenOk checked, other]
  exact ⟨c', rfl, stands'⟩

theorem chooseSteps (last : Reader α) {rule : Reader α} {rules : List (TokenKind × Reader α)}
    (found : rules.lookup t.kind = some rule) :
    ∀ {c}, Stands ts (t :: us) c →
      ∃ c', choose last rules c = rule c' ∧ Stands ts us c' ∧ Behind t c' := by
  induction rules with
  | nil => simp at found
  | cons r rules ih =>
    obtain ⟨kind, first⟩ := r
    intro c stands
    unfold choose
    by_cases same : t.kind = kind
    · obtain ⟨c', accepted, stands', behind⟩ := acceptSteps stands same
      have first : first = rule := by simpa [List.lookup_cons, same] using found
      rw [thenOk accepted, first]
      exact ⟨c', rfl, stands', behind⟩
    · obtain ⟨c', passed, stands'⟩ := passSteps stands (beginsApart.mpr same)
      have found : rules.lookup t.kind = some rule := by
        simpa [List.lookup_cons, beq_eq_false_iff_ne.mpr same] using found
      rw [thenOk passed]
      exact ih found stands'

theorem choosePass {last : Reader α} {rules : List (TokenKind × Reader α)}
    (other : ∀ r ∈ rules, begins r.1 us = false) :
    ∀ {c}, Stands ts us c → ∃ c', choose last rules c = last c' ∧ Stands ts us c' := by
  induction rules with
  | nil => exact fun stands => ⟨_, rfl, stands⟩
  | cons r rules ih =>
    intro c stands
    unfold choose
    obtain ⟨c', passed, stands'⟩ := passSteps stands (other r List.mem_cons_self)
    rw [thenOk passed]
    exact ih (fun r member => other r (List.mem_cons_of_mem _ member)) stands'

theorem acceptTraces {n : Nat} {x : Except SyntaxError (Phrase α n)} {k : Bool → Reader α}
    {kind : TokenKind} (stands : Stands ts us c)
    (taken : ∀ t rest c', us = t :: rest → t.kind = kind → Stands ts rest c' → Traces ts x (k true c'))
    (passed : ∀ c', begins kind us = false → Stands ts us c' → Traces ts x (k false c')) :
    Traces ts x ((accept kind >>= k) c) := by
  cases found : begins kind us with
  | false =>
    obtain ⟨c', done, stands'⟩ := passSteps stands found
    rw [thenOk done]
    exact passed c' found stands'
  | true =>
    cases us with
    | nil => exact absurd found Bool.false_ne_true
    | cons t rest =>
      have same := beginsWith.mp found
      obtain ⟨c', done, stands', _⟩ := acceptSteps stands same
      rw [thenOk done]
      exact taken t rest c' rfl same stands'

theorem refuseTraces (stands : Stands ts us c) (f : GrammarFault) {n : Nat} :
    Traces ts (Parser.fail (endLine ts) us f : Except SyntaxError (Phrase α n)) (refuse f c) := by
  unfold refuse
  cases us with
  | nil =>
    obtain ⟨t, here, _, line⟩ := stands.last
    obtain ⟨c', peeked, stands'⟩ := peekSteps stands here
    rw [thenOk peeked, line]
    exact .error stands'.toInside
  | cons t us =>
    obtain ⟨c', peeked, stands'⟩ := peekSteps stands stands.next
    rw [thenOk peeked]
    exact .error stands'.toInside

end Steps

section Rules

variable {ts : List Token}

theorem expectFollows (kind : TokenKind) (what : Expected) :
    Follows ts (Parser.expect (endLine ts) kind what) (expect kind what) := by
  intro us c stands
  unfold expect
  obtain ⟨c', checked, stands'⟩ := checkSteps stands kind
  rw [thenOk checked]
  cases us with
  | nil => exact refuseTraces stands' _
  | cons t us =>
    by_cases found : t.kind = kind
    · have read : Parser.expect (endLine ts) kind what (t :: us) = .ok ⟨t.line, us, by simp⟩ :=
        if_pos found
      obtain ⟨c'', advanced, stands'', _⟩ := advanceSteps stands'
      rw [read, beginsWith.mpr found, if_pos rfl, thenOk advanced]
      exact .ok stands''
    · have failed : Parser.expect (endLine ts) kind what (t :: us) =
          Parser.fail (endLine ts) (t :: us) (.missing what) := if_neg found
      rw [failed, beginsApart.mpr found]
      exact refuseTraces stands' _

theorem expectNameFollows (what : Expected) :
    Follows ts (Parser.expectName (endLine ts) what) (expectName what) := by
  intro us c stands
  unfold expectName
  cases us with
  | nil =>
    obtain ⟨t, here, finish, line⟩ := stands.last
    obtain ⟨c', peeked, stands'⟩ := peekSteps stands here
    rw [thenOk peeked, finish, line]
    exact .error stands'.toInside
  | cons t us =>
    obtain ⟨c', peeked, stands'⟩ := peekSteps stands stands.next
    rw [thenOk peeked]
    obtain ⟨kind, line⟩ := t
    cases kind with
    | name s =>
      obtain ⟨c'', advanced, stands'', _⟩ := advanceSteps stands'
      dsimp only
      rw [thenOk advanced]
      exact .ok stands''
    | _ => exact .error stands'.toInside

/- The closing bracket is read at the end of the last turn, as the rule of the parser does. -/
theorem enclosedStep (item : Reader α) (turns : Nat) (close : Expected) :
    enclosed item (turns + 1) close = (do
      let closed ← check (.mark .rightBracket)
      if closed then do
        let _ ← expect (.mark .rightBracket) close
        pure []
      else do
        let first ← item
        let more ← accept (.mark .comma)
        if more then do
          let rest ← enclosed item turns close
          pure (first :: rest)
        else do
          let _ ← expect (.mark .rightBracket) close
          pure [first]) := by
  simp only [enclosed, items, bind_assoc]
  congr 1
  funext closed
  cases closed with
  | true => simp
  | false =>
    simp only [Bool.false_eq_true, if_false, bind_assoc]
    congr 1
    funext first
    congr 1
    funext more
    cases more <;> simp

theorem closeTraces {us : List Token} {c : Cursor} {n : Nat} (stands : Stands ts us c)
    (close : Expected) (v : α) (fits : us.length ≤ n) :
    Traces ts
      (Parser.expect (endLine ts) (.mark .rightBracket) close us >>= fun p =>
        .ok (⟨v, p.rest, Nat.lt_of_lt_of_le p.short fits⟩ : Phrase α n))
      ((expect (.mark .rightBracket) close >>= fun _ => pure v) c) :=
  Traces.bind (expectFollows _ close us c stands) fun _ _ stands' => .ok stands'

/- Each turn reads an item and a comma, so what is left bounds the turns. Where nothing is left the
item cannot be read, and it is the item that fails. -/
theorem enclosedTraces {item : Rule α} {reader : Reader α} (follows : Follows ts item reader)
    (close : Expected) (turns : Nat) : ∀ us c, us.length < turns → Stands ts us c →
      Traces ts (Parser.items (endLine ts) item close us) (enclosed reader turns close c) := by
  induction turns with
  | zero => exact fun us c short => absurd short (Nat.not_lt_zero _)
  | succ turns ih =>
    intro us c short stands
    rw [enclosedStep]
    obtain ⟨c₁, checked, stands₁⟩ := checkSteps stands (.mark .rightBracket)
    rw [thenOk checked]
    unfold Parser.items
    cases us with
    | nil =>
      apply Traces.bind (follows [] c₁ stands₁)
      intro p
      exact absurd p.short (Nat.not_lt_zero _)
    | cons t us =>
      by_cases closed : t.kind = .mark .rightBracket
      · have last := closeTraces stands₁ close ([] : List α) (Nat.le_refl _)
        simp only [Parser.expect, if_pos closed] at last
        simp only [beginsWith.mpr closed, if_pos closed, if_true]
        exact last
      · simp only [beginsApart.mpr closed, if_neg closed, Bool.false_eq_true, if_false]
        apply Traces.bind (follows _ c₁ stands₁)
        intro phrase c₂ stands₂
        obtain ⟨first, rest, shorter⟩ := phrase
        simp only [List.length_cons] at short shorter
        apply acceptTraces stands₂
        · intro u after c₃ split comma stands₃
          subst split
          simp only [List.length_cons] at shorter
          simp only [if_pos comma, if_true]
          apply Traces.bind (ih after c₃ (by omega) stands₃)
          exact fun more c₄ stands₄ => .ok stands₄
        · intro c₃ other stands₃
          have last := closeTraces stands₃ close [first] (Nat.le_of_lt shorter)
          cases rest with
          | nil => exact last
          | cons u after =>
            simp only [if_neg (beginsApart.mp other), Bool.false_eq_true, if_false]
            by_cases closed : u.kind = .mark .rightBracket
            · simp only [Parser.expect, if_pos closed] at last ⊢
              exact last
            · simp only [Parser.expect, if_neg closed] at last ⊢
              exact last

section Chains

variable {operator? : TokenKind → Option BinaryOp} {marks : List (Mark × BinaryOp)}

/- No mark stands for two operators, so the first one found is the one. -/
theorem operatorsLookup (lists : Lists operator? marks) {kind : TokenKind} {op : BinaryOp}
    (found : operator? kind = some op) : (operators marks).lookup kind = some (pure (some op)) := by
  cases looked : (operators marks).lookup kind with
  | none =>
    obtain ⟨m, rfl, known⟩ := (lists _ _).mp found
    have apart := List.lookup_eq_none_iff.mp looked _ (List.mem_map_of_mem known)
    simp at apart
  | some rule =>
    obtain ⟨before, after, split, _⟩ := List.lookup_eq_some_iff.mp looked
    have member : (kind, rule) ∈ operators marks := by
      rw [split]
      simp
    obtain ⟨⟨m, other⟩, known, pair⟩ := List.mem_map.mp member
    obtain ⟨rfl, rfl⟩ := Prod.mk.inj pair
    have same : op = other := by simpa [found] using (lists _ other).mpr ⟨m, rfl, known⟩
    rw [same]

theorem operatorSteps (lists : Lists operator? marks) {us : List Token} {c : Cursor} {t : Token}
    {op : BinaryOp} (stands : Stands ts (t :: us) c) (found : operator? t.kind = some op) :
    ∃ c', operator marks c = .ok (some op) c' ∧ Stands ts us c' := by
  obtain ⟨c', chosen, stands', _⟩ := chooseSteps (pure none) (operatorsLookup lists found) stands
  exact ⟨c', chosen, stands'⟩

theorem operatorPass (lists : Lists operator? marks) {us : List Token} {c : Cursor}
    (stands : Stands ts us c) (other : ∀ t ∈ us.head?, operator? t.kind = none) :
    ∃ c', operator marks c = .ok none c' ∧ Stands ts us c' := by
  apply choosePass _ stands
  intro r member
  obtain ⟨⟨m, op⟩, known, rfl⟩ := List.mem_map.mp member
  cases us with
  | nil => rfl
  | cons t us =>
    have none : operator? t.kind = none := other t rfl
    have apart : t.kind ≠ .mark m := by
      intro kind
      have found := (lists t.kind op).mpr ⟨m, kind, known⟩
      simp [none] at found
    exact beginsApart.mpr apart

theorem chainTraces (lists : Lists operator? marks) {operand : Rule Node} {reader : Reader Node}
    (follows : Follows ts operand reader) (turns : Nat) :
    ∀ us c left, us.length < turns → Stands ts us c →
      Traces ts (Parser.chain operator? operand left us) (chain marks reader turns left c) := by
  induction turns with
  | zero => exact fun us c left short => absurd short (Nat.not_lt_zero _)
  | succ turns ih =>
    intro us c left short stands
    unfold chain Parser.chain
    cases us with
    | nil =>
      obtain ⟨c', passed, stands'⟩ := operatorPass lists stands (by simp)
      rw [thenOk passed]
      exact .ok stands'
    | cons t us =>
      simp only [List.length_cons] at short
      cases found : operator? t.kind with
      | none =>
        obtain ⟨c', passed, stands'⟩ := operatorPass lists stands (by simpa using found)
        rw [thenOk passed]
        simp only [found]
        exact .ok stands'
      | some op =>
        obtain ⟨c', accepted, stands'⟩ := operatorSteps lists stands found
        rw [thenOk accepted]
        simp only [found]
        apply Traces.bind (follows us c' stands')
        intro right c₂ stands₂
        have shorter := right.short
        apply Traces.widen
        exact ih right.rest c₂ _ (by omega) stands₂

theorem levelFollows (lists : Lists operator? marks) {first operand : Rule Node}
    {firstReader reader : Reader Node} {turns : Nat} (enough : ts.length < turns)
    (starts : Follows ts first firstReader) (follows : Follows ts operand reader) :
    Follows ts (Parser.level operator? first operand) (level marks firstReader reader turns) := by
  intro us c stands
  apply Traces.bind (starts us c stands)
  intro left c₁ stands₁
  have short := stands₁.short
  apply Traces.widen
  exact chainTraces lists follows turns left.rest c₁ left.value (by omega) stands₁

end Chains

variable {expression : Rule Node} {reader : Reader Node} {body : Rule (List Node)}
  {bodyReader : Reader (List Node)} {turns : Nat}

theorem primaryFollows (follows : Follows ts expression reader) :
    Follows ts (Parser.primary (endLine ts) expression) (primary reader) := by
  intro us c stands
  unfold primary
  apply acceptTraces stands
  · intro t rest c₁ split group stands₁
    subst split
    obtain ⟨kind, line⟩ := t
    cases group
    apply Traces.bind (follows rest c₁ stands₁)
    intro inner c₂ stands₂
    apply Traces.bind (expectFollows _ .groupEnd _ c₂ stands₂)
    exact fun close c₃ stands₃ => .ok stands₃
  · intro c₁ other stands₁
    rw [if_neg Bool.false_ne_true]
    cases us with
    | nil =>
      obtain ⟨t, here, finish, line⟩ := stands₁.last
      obtain ⟨c₂, peeked, stands₂⟩ := peekSteps stands₁ here
      rw [thenOk peeked, finish, line]
      exact .error stands₂.toInside
    | cons t us =>
      obtain ⟨c₂, peeked, stands₂⟩ := peekSteps stands₁ stands₁.next
      obtain ⟨c₃, advanced, stands₃, _⟩ := advanceSteps stands₂
      have read {v : Node} {short : us.length < (t :: us).length} :
          Traces ts (.ok ⟨v, us, short⟩) ((advance >>= fun _ => pure v) c₂) := by
        rw [thenOk advanced]
        exact .ok stands₃
      rw [thenOk peeked]
      obtain ⟨kind, line⟩ := t
      cases kind with
      | number n => exact read
      | text s => exact read
      | name s => exact read
      | mark m =>
        cases m with
        | leftParen => exact absurd rfl (beginsApart.mp other)
        | _ => exact .error stands₂.toInside
      | _ => exact .error stands₂.toInside

theorem suffixedFollows {sign : Mark} {fault : NodeForm → GrammarFault} {first : Rule Node}
    {firstReader : Reader Node} {more : Rule α} {moreReader : Reader α}
    {make : Nat → String → α → Node} (starts : Follows ts first firstReader)
    (follows : Follows ts more moreReader) :
    Follows ts (Parser.suffixed sign fault first more make)
      (suffixed sign fault firstReader moreReader make) := by
  intro us c stands
  apply Traces.bind (starts us c stands)
  intro phrase c₁ stands₁
  obtain ⟨head, rest, _⟩ := phrase
  apply acceptTraces stands₁
  · intro t after c₂ split found stands₂
    subst split
    simp only [if_pos found, if_true]
    cases head with
    | name line name =>
      apply Traces.bind (follows after c₂ stands₂)
      exact fun inner c₃ stands₃ => .ok stands₃
    | _ => exact .error stands₂.toInside
  · intro c₂ other stands₂
    cases rest with
    | nil => exact .ok stands₂
    | cons t after =>
      simp only [if_neg (beginsApart.mp other)]
      exact .ok stands₂

theorem callFollows (enough : ts.length < turns) (follows : Follows ts expression reader) :
    Follows ts (Parser.call (endLine ts) expression) (call reader turns) := by
  refine suffixedFollows (primaryFollows follows) ?_
  intro us c stands
  have short := stands.short
  exact enclosedTraces follows .argumentsEnd turns us c (by omega) stands

theorem comparisonFollows (enough : ts.length < turns) (follows : Follows ts expression reader) :
    Follows ts (Parser.comparison (endLine ts) expression) (comparison reader turns) := by
  have product : Follows ts (Parser.product (endLine ts) expression) (product reader turns) :=
    levelFollows Parser.productLists enough (callFollows enough follows) (primaryFollows follows)
  have sum : Follows ts (Parser.sum (endLine ts) expression) (sum reader turns) :=
    levelFollows Parser.sumLists enough product product
  exact levelFollows Parser.comparisonLists enough sum sum

theorem assignmentFollows (enough : ts.length < turns) (follows : Follows ts expression reader) :
    Follows ts (Parser.assignment (endLine ts) expression) (assignment reader turns) :=
  suffixedFollows (comparisonFollows enough follows) follows

theorem expressionFollows (enough : ts.length < turns) (depth : Nat) :
    Follows ts (Parser.expression (endLine ts) depth) (Cursor.expression turns depth) := by
  induction depth with
  | zero => exact fun us c stands => refuseTraces stands .tooDeep
  | succ depth ih => exact assignmentFollows enough ih

theorem functionTraces (enough : ts.length < turns) (bodies : Follows ts body bodyReader)
    {us : List Token} {c : Cursor} {t : Token} (stands : Stands ts us c) (behind : Behind t c) :
    Traces ts (Parser.function (endLine ts) body t.line us) (function bodyReader turns c) := by
  unfold function
  obtain ⟨c₁, seen, stands₁⟩ := previousSteps stands behind
  rw [thenOk seen]
  apply Traces.bind (expectNameFollows .functionName us c₁ stands₁)
  intro name c₂ stands₂
  apply Traces.bind (expectFollows _ .parametersStart _ c₂ stands₂)
  intro start c₃ stands₃
  have short := stands₃.short
  apply Traces.bind (enclosedTraces (expectNameFollows .parameterName) .parametersEnd turns _ c₃
    (by omega) stands₃)
  intro parameters c₄ stands₄
  apply Traces.bind (expectFollows _ .functionBody _ c₄ stands₄)
  intro start c₅ stands₅
  apply Traces.bind (bodies _ c₅ stands₅)
  exact fun statements c₆ stands₆ => .ok stands₆

theorem handlerTraces (bodies : Follows ts body bodyReader) {us : List Token} {c : Cursor}
    {t : Token} (stands : Stands ts us c) (behind : Behind t c) :
    Traces ts (Parser.handler (endLine ts) body t.line us) (handler bodyReader c) := by
  unfold handler
  obtain ⟨c₁, seen, stands₁⟩ := previousSteps stands behind
  rw [thenOk seen]
  apply Traces.bind (expectFollows _ .eventStart us c₁ stands₁)
  intro start c₂ stands₂
  apply Traces.bind (expectNameFollows .eventName _ c₂ stands₂)
  intro event c₃ stands₃
  apply Traces.bind (expectFollows _ .eventEnd _ c₃ stands₃)
  intro close c₄ stands₄
  apply Traces.bind (expectFollows _ .handlerBody _ c₄ stands₄)
  intro start c₅ stands₅
  apply Traces.bind (bodies _ c₅ stands₅)
  exact fun statements c₆ stands₆ => .ok stands₆

theorem guardedFollows (follows : Follows ts expression reader) (bodies : Follows ts body bodyReader)
    (close start : Expected) :
    Follows ts (Parser.guarded (endLine ts) expression body close start)
      (guarded reader bodyReader close start) := by
  intro us c stands
  apply Traces.bind (expectFollows _ .conditionStart us c stands)
  intro bracket c₁ stands₁
  apply Traces.bind (follows _ c₁ stands₁)
  intro condition c₂ stands₂
  apply Traces.bind (expectFollows _ close _ c₂ stands₂)
  intro bracket c₃ stands₃
  apply Traces.bind (expectFollows _ start _ c₃ stands₃)
  intro paren c₄ stands₄
  apply Traces.bind (bodies _ c₄ stands₄)
  exact fun statements c₅ stands₅ => .ok stands₅

theorem branchesTraces {branch : Rule (Branch Node)} {branchReader : Reader (Branch Node)}
    (follows : Follows ts branch branchReader) (turns : Nat) :
    ∀ us c, us.length < turns → Stands ts us c →
      Traces ts (Parser.branches branch us) (branches branchReader turns c) := by
  induction turns with
  | zero => exact fun us c short => absurd short (Nat.not_lt_zero _)
  | succ turns ih =>
    intro us c short stands
    unfold branches Parser.branches
    apply acceptTraces stands
    · intro t rest c₁ split found stands₁
      subst split
      simp only [List.length_cons] at short
      simp only [if_pos found, if_true]
      apply Traces.bind (follows rest c₁ stands₁)
      intro first c₂ stands₂
      have shorter := first.short
      apply Traces.bind (ih first.rest c₂ (by omega) stands₂)
      exact fun more c₃ stands₃ => .ok stands₃
    · intro c₁ other stands₁
      cases us with
      | nil => exact .ok stands₁
      | cons t us =>
        simp only [if_neg (beginsApart.mp other)]
        exact .ok stands₁

theorem otherwiseTraces (bodies : Follows ts body bodyReader) {us : List Token} {c : Cursor}
    (stands : Stands ts us c) :
    Traces ts (Parser.otherwise (endLine ts) body us) (otherwise bodyReader c) := by
  unfold otherwise
  apply acceptTraces stands
  · intro t rest c₁ split found stands₁
    subst split
    simp only [Parser.otherwise, if_pos found, if_true]
    apply Traces.bind (expectFollows _ .otherwiseBody rest c₁ stands₁)
    intro start c₂ stands₂
    have shorter := start.short
    apply Traces.widen (bodies _ c₂ stands₂)
    simp only [List.length_cons]
    omega
  · intro c₁ other stands₁
    cases us with
    | nil => exact .ok stands₁
    | cons t us =>
      simp only [Parser.otherwise, if_neg (beginsApart.mp other)]
      exact .ok stands₁

theorem condTraces (enough : ts.length < turns) (follows : Follows ts expression reader)
    (bodies : Follows ts body bodyReader) {us : List Token} {c : Cursor} {t : Token}
    (stands : Stands ts us c) (behind : Behind t c) :
    Traces ts (Parser.cond (endLine ts) expression body t.line us)
      (cond reader bodyReader turns c) := by
  unfold cond
  obtain ⟨c₁, seen, stands₁⟩ := previousSteps stands behind
  rw [thenOk seen]
  apply Traces.bind (guardedFollows follows bodies .conditionEnd .condBody us c₁ stands₁)
  intro first c₂ stands₂
  have short := stands₂.short
  apply Traces.bind (branchesTraces (guardedFollows follows bodies .branchEnd .branchBody) turns _ c₂
    (by omega) stands₂)
  intro more c₃ stands₃
  apply Traces.bind (otherwiseTraces bodies stands₃)
  exact fun last c₄ stands₄ => .ok stands₄

theorem loopTraces (follows : Follows ts expression reader) (bodies : Follows ts body bodyReader)
    {us : List Token} {c : Cursor} {t : Token} (stands : Stands ts us c) (behind : Behind t c) :
    Traces ts (Parser.loop (endLine ts) expression body t.line us) (loop reader bodyReader c) := by
  unfold loop
  obtain ⟨c₁, seen, stands₁⟩ := previousSteps stands behind
  rw [thenOk seen]
  apply Traces.bind (expectNameFollows .loopName us c₁ stands₁)
  intro name c₂ stands₂
  apply Traces.bind (expectFollows _ .loopKeyword _ c₂ stands₂)
  intro within c₃ stands₃
  apply Traces.bind (follows _ c₃ stands₃)
  intro iterated c₄ stands₄
  apply Traces.bind (expectFollows _ .loopBody _ c₄ stands₄)
  intro start c₅ stands₅
  apply Traces.bind (bodies _ c₅ stands₅)
  exact fun statements c₆ stands₆ => .ok stands₆

theorem resultTraces (follows : Follows ts expression reader) {us : List Token} {c : Cursor}
    {t : Token} (stands : Stands ts us c) (behind : Behind t c) :
    Traces ts (Parser.result expression t.line us) (result reader c) := by
  unfold result
  obtain ⟨c₁, seen, stands₁⟩ := previousSteps stands behind
  rw [thenOk seen]
  apply Traces.bind (follows us c₁ stands₁)
  exact fun value c₂ stands₂ => .ok stands₂

theorem keywordTraces {rule : Nat → Rule Node} {chosen last : Reader Node}
    {rules : List (TokenKind × Reader Node)} {us : List Token} {c : Cursor} {t : Token}
    (stands : Stands ts (t :: us) c) (found : rules.lookup t.kind = some chosen)
    (traces : ∀ {c'}, Stands ts us c' → Behind t c' → Traces ts (rule t.line us) (chosen c')) :
    Traces ts (rule t.line us >>= fun node => .ok (node.widen (Nat.le_succ us.length)))
      (choose last rules c) := by
  obtain ⟨c', done, stands', behind⟩ := chooseSteps last found stands
  rw [done]
  exact (traces stands' behind).widen _

theorem declarationFollows (enough : ts.length < turns) (follows : Follows ts expression reader)
    (bodies : Follows ts body bodyReader) :
    Follows ts (Parser.declaration (endLine ts) expression body)
      (declaration reader bodyReader turns) := by
  intro us c stands
  unfold declaration
  cases us with
  | nil =>
    obtain ⟨c₁, chosen, stands₁⟩ := choosePass (fun _ _ => rfl) stands
    rw [chosen]
    exact follows [] c₁ stands₁
  | cons t us =>
    obtain ⟨kind, line⟩ := t
    have alone {rules : List (TokenKind × Reader Node)}
        (other : ∀ r ∈ rules, begins r.1 (⟨kind, line⟩ :: us) = false) :
        Traces ts (expression (⟨kind, line⟩ :: us)) (choose reader rules c) := by
      obtain ⟨c₁, chosen, stands₁⟩ := choosePass other stands
      rw [chosen]
      exact follows _ c₁ stands₁
    cases kind with
    | keyword k =>
      cases k with
      | function => exact keywordTraces stands rfl (functionTraces enough bodies)
      | event => exact keywordTraces stands rfl (handlerTraces bodies)
      | cond => exact keywordTraces stands rfl (condTraces enough follows bodies)
      | loop => exact keywordTraces stands rfl (loopTraces follows bodies)
      | result => exact keywordTraces stands rfl (resultTraces follows)
      | _ => exact alone (by simp [begins])
    | _ => exact alone (by simp [begins])

theorem declarationsTraces {rule : Rule Node} (follows : Follows ts rule reader) (turns : Nat) :
    ∀ us c, us.length < turns → Stands ts us c →
      Traces ts (Parser.declarations (endLine ts) rule us) (declarations reader turns c) := by
  induction turns with
  | zero => exact fun us c short => absurd short (Nat.not_lt_zero _)
  | succ turns ih =>
    intro us c short stands
    unfold declarations Parser.declarations
    obtain ⟨c₁, checked, stands₁⟩ := checkSteps stands (.mark .rightParen)
    obtain ⟨c₂, ended, stands₂⟩ := atEndSteps stands₁
    rw [thenOk checked]
    cases us with
    | nil =>
      have no : begins (.mark .rightParen) [] = false := rfl
      simp only [no, Bool.false_eq_true, if_false]
      rw [thenOk ended]
      exact refuseTraces stands₂ _
    | cons t us =>
      by_cases closed : t.kind = .mark .rightParen
      · obtain ⟨c₃, advanced, stands₃, _⟩ := advanceSteps stands₁
        simp only [beginsWith.mpr closed, if_pos closed, if_true]
        rw [thenOk advanced]
        exact .ok stands₃
      · simp only [beginsApart.mpr closed, if_neg closed, Bool.false_eq_true, if_false]
        rw [thenOk ended]
        apply Traces.bind (follows _ c₂ stands₂)
        intro first c₃ stands₃
        have shorter := first.short
        simp only [List.length_cons] at short shorter
        apply Traces.bind (ih first.rest c₃ (by omega) stands₃)
        exact fun more c₄ stands₄ => .ok stands₄

theorem bodyFollows (enough : ts.length < turns) (depth : Nat) :
    Follows ts (Parser.body (endLine ts) depth) (Cursor.body turns depth) := by
  induction depth with
  | zero => exact fun us c stands => refuseTraces stands .tooDeep
  | succ depth ih =>
    intro us c stands
    have short := stands.short
    exact declarationsTraces (declarationFollows enough (expressionFollows enough depth) ih) turns us c
      (by omega) stands

/- A result of the parser, with the cursor where it came to a stop. -/
def outcome (c : Cursor) : Except SyntaxError α → EStateM.Result Stop Cursor α
  | .ok v => .ok v c
  | .error e => .error (.fault e) c

theorem programEnds {rule : Rule Node} (follows : Follows ts rule reader) (turns : Nat) :
    ∀ us c, us.length < turns → Stands ts us c →
      ∃ c', Inside ts c' ∧ program reader turns c = outcome c' (Parser.program rule us) := by
  induction turns with
  | zero => exact fun us c short => absurd short (Nat.not_lt_zero _)
  | succ turns ih =>
    intro us c short stands
    unfold program Parser.program
    obtain ⟨c₁, ended, stands₁⟩ := atEndSteps stands
    rw [thenOk ended]
    cases us with
    | nil => exact ⟨c₁, stands₁.toInside, rfl⟩
    | cons t us =>
      have traced := follows _ c₁ stands₁
      simp only [List.isEmpty_cons, Bool.false_eq_true, if_false]
      cases read : rule (t :: us) with
      | error e =>
        rw [read] at traced
        obtain ⟨c₂, failed, inside⟩ := traced.fault
        exact ⟨c₂, inside, thenError failed⟩
      | ok first =>
        rw [read] at traced
        obtain ⟨c₂, done, stands₂⟩ := traced.value
        have shorter := first.short
        simp only [List.length_cons] at short shorter
        obtain ⟨c₃, inside, more⟩ := ih first.rest c₂ (by omega) stands₂
        rw [thenOk done]
        cases rest : Parser.program rule first.rest with
        | error e =>
          rw [rest] at more
          exact ⟨c₃, inside, by simp only [bind, Except.bind, rest]; exact thenError more⟩
        | ok ns =>
          rw [rest] at more
          exact ⟨c₃, inside, by simp only [bind, Except.bind, rest]; exact thenOk more⟩

theorem parseEnds (enough : ts.length < turns) :
    ∃ c, Inside ts c ∧ parse turns (start ts) = outcome c (parseTokens ts) := by
  have stands : Stands ts (beforeEnd ts) (start ts) := ⟨⟨rfl, Nat.zero_le _, by simp [start]⟩, rfl⟩
  have short := stands.short
  exact programEnds (declarationFollows enough (expressionFollows enough Parser.maxNesting)
    (bodyFollows enough Parser.maxNesting)) turns _ _ (by omega) stands

/- A success takes the cursor forward, and nothing takes it past the end mark. -/
def Advances (ts : List Token) (c : Cursor) : EStateM.Result Stop Cursor α → Prop
  | .ok _ c' => c.position < c'.position ∧ Inside ts c'
  | .error (.fault _) c' => Inside ts c'
  | .error .outside _ => False
  | .error .spent _ => False

theorem Follows.advances {rule : Rule α} {reader : Reader α} (follows : Follows ts rule reader)
    {c : Cursor} (inside : Inside ts c) : Advances ts c (reader c) := by
  have stands : Stands ts ((beforeEnd ts).drop c.position) c := ⟨inside, rfl⟩
  have traced := follows _ c stands
  cases read : rule ((beforeEnd ts).drop c.position) with
  | error e =>
    rw [read] at traced
    obtain ⟨c', failed, inside'⟩ := traced.fault
    rw [failed]
    exact inside'
  | ok p =>
    rw [read] at traced
    obtain ⟨c', done, stands'⟩ := traced.value
    have shorter := p.short
    have length := stands.length
    have length' := stands'.length
    rw [done]
    exact ⟨by omega, stands'.toInside⟩

end Rules

end EventScript.Cursor

namespace EventScript
open Cursor

theorem parsingStopsAtTheFirstEnd (ts : List Token) {turns : Nat} (enough : ts.length < turns) :
    parseTokens (ts.take (endIndex ts + 1)) = parseTokens ts ∧
    endIndex ts < (padded ts).length ∧
    (∃ c, Inside ts c ∧ Cursor.parse turns (start ts) = outcome c (parseTokens ts)) ∧
    ∀ c depth, Inside ts c →
      Advances ts c (expression turns depth c) ∧
      Advances ts c (declaration (expression turns depth) (body turns depth) turns c) ∧
      Advances ts c (body turns depth c) := by
  refine ⟨parseTokensCut ts, endIndexLt ts, parseEnds enough, ?_⟩
  intro c depth inside
  have expressions := expressionFollows enough depth
  have bodies := bodyFollows enough depth
  exact ⟨expressions.advances inside, (declarationFollows enough expressions bodies).advances inside,
    bodies.advances inside⟩

/- The tokens after the first end mark would be faults. -/
theorem tokensAfterTheEndAreNotRead :
    let ts : List Token := [⟨.name "x", 1⟩, ⟨.finish, 2⟩, ⟨.mark .assign, 3⟩, ⟨.mark .assign, 4⟩]
    ts.length < 5 ∧ endIndex ts = 1 ∧
    parseTokens [⟨.name "x", 1⟩, ⟨.finish, 2⟩] = parseTokens ts ∧
    (∃ c, Inside ts c ∧ Cursor.parse 5 (start ts) = .ok [.name 1 "x"] c) ∧
    Inside ts (start ts) ∧ Advances ts (start ts) (expression 5 1 (start ts)) := by
  intro ts
  have enough : ts.length < 5 := by decide
  have index : endIndex ts = 1 := by decide
  have inside : Inside ts (start ts) := ⟨rfl, Nat.zero_le _, by simp [start]⟩
  have parsed : parseTokens [⟨.name "x", 1⟩, ⟨.finish, 2⟩] = .ok [.name 1 "x"] := by cbv
  obtain ⟨cut, _, ⟨c, reached, ends⟩, advances⟩ := parsingStopsAtTheFirstEnd ts enough
  rw [index] at cut
  rw [← cut] at ends
  exact ⟨enough, index, cut, ⟨c, reached, ends.trans (congrArg (outcome c) parsed)⟩, inside,
    (advances (start ts) 1 inside).1⟩

end EventScript
