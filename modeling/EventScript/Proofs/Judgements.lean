import EventScript.Proofs.Outcomes

/-! The outcomes of the rules of the parser, one rule after another, each against the
language that it reads. -/
namespace EventScript.Parser
open Grammar

variable {α : Type} {line : Nat}

inductive One (kind : TokenKind) : List Token → Nat → Prop where
  | mk {l} : One kind [⟨kind, l⟩] l

abbrev expecting (kind : TokenKind) (what : Expected) : Reading Nat :=
  reading fun s => expect s.endLine kind what

abbrev naming (what : Expected) : Reading String := reading fun s => expectName s.endLine what

theorem expectJudged (kind : TokenKind) (what : Expected) :
    Judged line (expecting kind what) (One kind) where
  outcome ts := by
    have begins : Begins (One kind) [] := ⟨[⟨kind, 0⟩], 0, .mk⟩
    cases ts with
    | nil => exact outcomeEnd begins (.missing what) rfl
    | cons t us =>
      obtain ⟨found, l⟩ := t
      by_cases same : found = kind
      · subst same
        refine .reads [⟨found, l⟩] us l rfl .mk ?_
        intro s more _
        simp [expecting, reading, expect, forget]
      · refine outcomeRefused begins (.missing what) ?_
        intro s more
        simp [expecting, reading, expect, same, fail, forget, nextLine]
  phrase := ⟨[⟨kind, 0⟩], 0, .mk⟩

theorem nameJudged (what : Expected) : Judged line (naming what) Name where
  outcome ts := by
    have begins : Begins Name [] := ⟨[⟨.name "x", 0⟩], "x", .mk⟩
    cases ts with
    | nil => exact outcomeEnd begins (.missing what) rfl
    | cons t us =>
      obtain ⟨kind, l⟩ := t
      cases kind with
      | name x => exact .reads [⟨.name x, l⟩] us x rfl .mk fun _ _ _ => rfl
      | _ => exact outcomeRefused begins (.missing what) fun _ _ => rfl
  phrase := ⟨[⟨.name "x", 0⟩], "x", .mk⟩

section Items

variable {item : Setting → Rule α} {I : Derives α} {close : Expected}

/- What follows an item. -/
def itemsTail (item : Setting → Rule α) (close : Expected) (v : α) : Reading (List α) :=
  fun s mid =>
    match mid with
    | [] => fail s.endLine [] (.missing close)
    | u :: after =>
      if u.kind = .mark .comma then
        andThen (reading fun s => items s.endLine (item s) close) (fun vs => give (v :: vs)) s after
      else if u.kind = .mark .rightBracket then .ok ([v], after)
      else fail s.endLine (u :: after) (.missing close)

theorem itemsReading {ts : List Token} (other : ∀ t us, ts = t :: us → t.kind ≠ .mark .rightBracket)
    (s : Setting) : reading (fun s => items s.endLine (item s) close) s ts =
      andThen (reading item) (itemsTail item close) s ts := by
  change forget (items s.endLine (item s) close ts) = _
  unfold items
  cases ts with
  | nil =>
    refine forgetBind rfl ?_
    intro v rest short
    contradiction
  | cons t us =>
    simp only [if_neg (other t us rfl)]
    refine forgetBind rfl ?_
    intro v rest short
    cases rest with
    | nil => rfl
    | cons u after =>
      simp only [itemsTail]
      split
      · exact forgetBind rfl fun _ _ _ => rfl
      · split <;> rfl

theorem itemsOutcome (judged : Judged line (reading item) I) (ts : List Token) :
    Outcome line (reading fun s => items s.endLine (item s) close)
      (Ended .rightBracket (Items I)) [] ts := by
  by_cases closed : ∃ r us, ts = ⟨.mark .rightBracket, r⟩ :: us
  · obtain ⟨r, us, rfl⟩ := closed
    refine .reads [⟨.mark .rightBracket, r⟩] us [] rfl (.mk .empty) ?_
    intro s more _
    rw [List.singleton_append, reading, items]
    simp [forget]
  have begins {pre : List Token} {v : α} (head : I pre v) :
      Begins (Ended .rightBracket (Items I)) pre :=
    ⟨[⟨.mark .rightBracket, 0⟩], [v], .mk (.plain (.one head))⟩
  have other {us : List Token} (head : us.head? = ts.head?) :
      ∀ t more, us = t :: more → t.kind ≠ .mark .rightBracket := by
    rintro ⟨kind, l⟩ more rfl rfl
    obtain ⟨rest, same⟩ := List.head?_eq_some_iff.mp head.symm
    exact closed ⟨l, rest, same⟩
  -- From here on an item is due, on every list that starts with the same token.
  refine outcomeAlike ?_ fun s us head => itemsReading (other head) s
  refine outcomeThen (judged.outcome ts) (fun pre v head => begins head) ?_
  intro pre v rest split head first
  have short := readingShort first
  rw [List.nil_append]
  cases rest with
  | nil => exact outcomeEnd (begins head) (.missing close) rfl
  | cons u after =>
    obtain ⟨kind, l⟩ := u
    by_cases comma : kind = .mark .comma
    · subst comma
      refine outcomeToken (outcomeMap (f := (v :: ·)) (itemsOutcome judged after) ?_) fun _ _ => rfl
      rintro _ vs ⟨tail⟩
      rw [← List.append_assoc, List.append_assoc pre]
      exact .mk (itemsPrepend head tail)
    by_cases closing : kind = .mark .rightBracket
    · subst closing
      exact outcomeToken (outcomeGive (.mk (.plain (.one head)))) fun _ _ => rfl
    · refine outcomeRefused (begins head) (.missing close) ?_
      intro s more
      simp [itemsTail, comma, closing, fail, nextLine]
termination_by ts.length
decreasing_by
  simp only [List.length_cons] at short
  omega

theorem itemsJudged (judged : Judged line (reading item) I) (close : Expected) :
    Judged line (reading fun s => items s.endLine (item s) close)
      (Ended .rightBracket (Items I)) where
  outcome := itemsOutcome judged
  phrase := ⟨[⟨.mark .rightBracket, 0⟩], [], .mk (.empty : Items I [] [])⟩

end Items

section Levels

variable {operator? : TokenKind → Option BinaryOp} {marks : List (Mark × BinaryOp)}
  {first operand : Setting → Rule Node} {F O : Derives Node}

theorem chainEnds {left : Node} {ts : List Token}
    (ends : ∀ t us, ts = t :: us → operator? t.kind = none) (s : Setting) :
    reading (fun s => chain operator? (operand s) left) s ts = .ok (left, ts) := by
  change forget (chain operator? (operand s) left ts) = _
  unfold chain
  cases ts with
  | nil => rfl
  | cons t us =>
    simp only [ends t us rfl]
    rfl

theorem chainReading {left : Node} {t : Token} {op : BinaryOp} (found : operator? t.kind = some op)
    (s : Setting) (us : List Token) :
    reading (fun s => chain operator? (operand s) left) s (t :: us) =
      andThen (reading operand) (fun right =>
        reading fun s => chain operator? (operand s) (.binary left.line op left right)) s us := by
  change forget (chain operator? (operand s) left (t :: us)) = _
  unfold chain
  simp only [found]
  refine forgetBind rfl ?_
  intro right rest short
  exact forgetWiden _ _

theorem chainOutcome (lists : Lists operator? marks) (lined : Lined F)
    (judged : Judged line (reading operand) O) (ts : List Token) {done : List Token} {left : Node}
    (phrase : Level marks F O done left) :
    Outcome line (reading fun s => chain operator? (operand s) left) (Level marks F O) done ts := by
  refine outcomeUnless (fun kind => operator? kind ≠ none) phrase ?_ ?_
  · intro s us ends
    exact chainEnds (fun t more same => Classical.not_not.mp (ends t more same)) s
  · rintro ⟨kind, o⟩ us split known
    obtain ⟨op, found⟩ := Option.ne_none_iff_exists'.mp known
    obtain ⟨m, rfl, listed⟩ := (lists kind op).mp found
    -- What has been read is a phrase of the level, and the left operand of the next.
    have longer {post : List Token} {right : Node} (second : O post right) :
        Level marks F O (done ++ [⟨.mark m, o⟩] ++ post) (.binary left.line op left right) := by
      have line := startLineAppend (levelLined lined _ _ phrase) (⟨.mark m, o⟩ :: post)
      rw [List.append_assoc]
      exact .more phrase listed second line
    refine outcomeToken (outcomeThen (judged.outcome us) ?_ ?_) (chainReading found)
    · intro post right second
      exact beginsHere (longer second)
    · intro post right rest _ second read
      have short : rest.length < ts.length := by
        rw [split]
        exact Nat.lt_succ_of_lt (readingShort read)
      exact chainOutcome lists lined judged rest (longer second)
termination_by ts.length
decreasing_by exact short

theorem levelJudged (lists : Lists operator? marks) (lined : Lined F)
    (head : Judged line (reading first) F) (judged : Judged line (reading operand) O) :
    Judged line (reading fun s => level operator? (first s) (operand s)) (Level marks F O) where
  outcome ts := by
    have same : (reading fun s => level operator? (first s) (operand s)) =
        andThen (reading first) fun left => reading fun s => chain operator? (operand s) left := by
      funext s us
      refine forgetBind rfl ?_
      intro left rest short
      exact forgetWiden _ _
    rw [same]
    refine outcomeThen (head.outcome ts) ?_ ?_
    · intro pre left phrase
      exact beginsHere (.first phrase)
    · intro pre left rest _ phrase _
      exact chainOutcome lists lined judged rest (.first phrase)
  phrase := by
    obtain ⟨ts, n, phrase⟩ := head.phrase
    exact ⟨ts, n, .first phrase⟩

end Levels

section Expressions

variable {X : Setting → Rule Node} {depth : Nat}

theorem primaryJudged {E : Derives Node} (judged : Judged line (reading X) E) :
    Judged line (reading fun s => primary s.endLine (X s)) (Primary E) where
  outcome ts := by
    have begins : Begins (Primary E) [] := ⟨[⟨.name "x", 0⟩], _, .name⟩
    cases ts with
    | nil => exact outcomeEnd begins (.endOfInput (by rintro t us ⟨⟩)) rfl
    | cons t us =>
      obtain ⟨kind, l⟩ := t
      cases kind with
      | number n => exact .reads [⟨.number n, l⟩] us _ rfl .number fun _ _ _ => rfl
      | text x => exact .reads [⟨.text x, l⟩] us _ rfl .text fun _ _ _ => rfl
      | name x => exact .reads [⟨.name x, l⟩] us _ rfl .name fun _ _ _ => rfl
      | finish =>
        exact outcomeRefused begins (.endOfInput (by rintro t us ⟨⟩; rfl)) fun _ _ => rfl
      | keyword k => exact outcomeRefused begins (.unexpected rfl) fun _ _ => rfl
      | mark m =>
        cases m with
        | leftParen =>
          have inside := judgedThen judged fun n =>
            judgedThen (expectJudged (.mark .rightParen) .groupEnd) fun _ => judgedGive n
          refine outcomeToken (outcomeUnder (inside.outcome us) ?_) ?_
          · rintro _ _ ⟨phrase, ⟨⟩, ⟨⟩⟩
            exact .group (.mk phrase)
          · intro s us
            exact forgetBind rfl fun _ _ _ => forgetBind rfl fun _ _ _ => rfl
        | _ => exact outcomeRefused begins (.unexpected rfl) fun _ _ => rfl
  phrase := ⟨[⟨.name "x", 0⟩], _, .name⟩

/- What a sign after a name makes of it. After any other phrase the sign is a fault. -/
def suffix (sign : Mark) (fault : NodeForm → GrammarFault) (more : Reading α)
    (make : Nat → String → α → Node) (head : Node) : Reading Node := fun s ts =>
  match ts with
  | [] => .ok (head, [])
  | t :: rest =>
    if t.kind = .mark sign then
      match head with
      | .name l x => andThen more (fun v => give (make l x v)) s rest
      | other => .error ⟨.grammar (fault other.form), other.line⟩
    else .ok (head, t :: rest)

section Suffixes

variable {sign : Mark} {fault : NodeForm → GrammarFault} {first : Setting → Rule Node}
  {more : Setting → Rule α} {make : Nat → String → α → Node} {H : Derives Node} {M : Derives α}

theorem suffixedReading (s : Setting) (ts : List Token) :
    reading (fun s => suffixed sign fault (first s) (more s) make) s ts =
      andThen (reading first) (suffix sign fault (reading more) make) s ts := by
  refine forgetBind rfl ?_
  intro head rest short
  cases rest with
  | nil => rfl
  | cons t after =>
    simp only [suffix]
    split
    · cases head with
      | name => exact forgetBind rfl fun _ _ _ => rfl
      | _ => rfl
    · rfl

theorem suffixOutcome {read : Reading α} {L : Derives Node} {head : Node} {done : List Token}
    (phrase : L done head)
    (named : ∀ l x o us, head = .name l x →
      Outcome line (andThen read fun v => give (make l x v)) L (done ++ [⟨.mark sign, o⟩]) us)
    (blamed : ∀ o us, Blames line (Begins L) done (⟨.mark sign, o⟩ :: us)
      ⟨.grammar (fault head.form), head.line⟩) (ts : List Token) :
    Outcome line (suffix sign fault read make head) L done ts := by
  refine outcomeUnless (fun kind => kind = .mark sign) phrase ?_ ?_
  · intro s us other
    cases us with
    | nil => rfl
    | cons t more => exact if_neg (other t more rfl)
  · rintro ⟨_, o⟩ us rfl rfl
    have begins := beginsHere phrase
    cases head with
    | name l x => exact outcomeToken (named l x o us rfl) fun _ _ => if_pos rfl
    | _ => exact outcomeRefused begins (blamed o us) fun _ _ => if_pos rfl

theorem suffixedJudged (judged : Judged line (reading first) H) (inner : Judged line (reading more) M)
    (blamed : ∀ ts n o us, H ts n → Blames line (Begins (Suffixed sign H M make)) ts
      (⟨.mark sign, o⟩ :: us) ⟨.grammar (fault n.form), n.line⟩) :
    Judged line (reading fun s => suffixed sign fault (first s) (more s) make)
      (Suffixed sign H M make) where
  outcome ts := by
    refine outcomeAlike (outcomeThen (judged.outcome ts) ?_ ?_) fun s us _ => suffixedReading s us
    · intro pre head phrase
      exact beginsHere (.alone phrase)
    · intro pre head rest _ phrase _
      refine suffixOutcome (.alone phrase) ?_ ?_ rest
      · rintro l x o us rfl
        refine outcomeMap (inner.outcome us) ?_
        intro vs v value
        rw [List.append_assoc]
        exact .joined phrase value
      · intro o us
        exact blamed pre head o us phrase
  phrase := by
    obtain ⟨ts, n, phrase⟩ := judged.phrase
    exact ⟨ts, n, .alone phrase⟩

end Suffixes

theorem callJudged (judged : Judged line (reading X) (Expression depth)) :
    Judged line (reading fun s => call s.endLine (X s)) (Call (Expression depth)) := by
  rw [callSuffixed (expressionLined depth)]
  refine suffixedJudged (primaryJudged judged) (itemsJudged judged .argumentsEnd) ?_
  intro ts n o us callee
  refine .callee [] ts rfl rfl rfl callee ?_
  intro x l
  have none : Items (Expression depth) [] [] := .empty
  have called : Suffixed .leftBracket (Primary (Expression depth))
      (Ended .rightBracket (Items (Expression depth))) .call
      ([⟨.name x, l⟩] ++ ⟨.mark .leftBracket, o⟩ :: ([] ++ [⟨.mark .rightBracket, 0⟩]))
      (.call l x []) := .joined .name (.mk none)
  exact ⟨[⟨.mark .rightBracket, 0⟩], _, called⟩

theorem comparisonJudged (judged : Judged line (reading X) (Expression depth)) :
    Judged line (reading fun s => comparison s.endLine (X s)) (Comparison (Expression depth)) := by
  have call := callLined (expressionLined depth)
  have product : Judged line (reading fun s => product s.endLine (X s)) (Product (Expression depth)) :=
    levelJudged productLists call (callJudged judged) (primaryJudged judged)
  have sum : Judged line (reading fun s => sum s.endLine (X s)) (Sum (Expression depth)) :=
    levelJudged sumLists (levelLined call) product product
  exact levelJudged comparisonLists (levelLined (levelLined call)) sum sum

theorem nameCompares {E : Derives Node} (x : String) (l : Nat) :
    Comparison E [⟨.name x, l⟩] (.name l x) := .first (.first (.first (.primary .name)))

theorem assignmentJudged (judged : Judged line (reading X) (Expression depth)) :
    Judged line (reading fun s => assignment s.endLine (X s)) (Assignment (Expression depth)) := by
  rw [assignmentSuffixed (expressionLined depth)]
  refine suffixedJudged (comparisonJudged judged) judged ?_
  intro ts n o us target
  refine .target [] ts rfl rfl rfl target ?_
  intro x l
  obtain ⟨vs, v, value⟩ := judged.phrase
  exact ⟨vs, _, .joined (nameCompares x l) value⟩

end Expressions

/- The rules are judged with one more level of nesting than they have, since a phrase that
is begun on the last level may need another one to be ended. -/
theorem expressionJudged (line depth : Nat) :
    Judged line (reading fun s => expression s.endLine (s.spare + depth))
      (Expression (depth + 1)) := by
  induction depth with
  | zero => exact ⟨fun ts => .deep _ rfl, _, _, .plain (nameCompares "x" 0)⟩
  | succ depth ih => exact assignmentJudged ih

/- The rule for a body starts after the opening parenthesis of its block. -/
def After (B : Derives (List Node)) : Derives (List Node) :=
  fun ts b => ∀ l, B (⟨.mark .leftParen, l⟩ :: ts) b

section Statements

variable {X : Setting → Rule Node} {Y : Setting → Rule (List Node)} {E : Derives Node}
  {B : Derives (List Node)} {l : Nat}

theorem guardedJudged (expressions : Judged line (reading X) E)
    (bodies : Judged line (reading Y) (After B)) (close start : Expected) :
    Judged line (reading fun s => guarded s.endLine (X s) (Y s) close start) (Guarded E B) := by
  have steps := judgedThen (expectJudged (.mark .leftBracket) .conditionStart) fun _ =>
    judgedThen expressions fun c => judgedThen (expectJudged (.mark .rightBracket) close) fun _ =>
      judgedThen (expectJudged (.mark .leftParen) start) fun _ =>
        judgedThen bodies fun b => judgedGive (Branch.mk c b)
  refine judgedAs steps ?_ ?_
  · intro s ts
    exact forgetBind rfl fun _ _ _ => forgetBind rfl fun _ _ _ => forgetBind rfl fun _ _ _ =>
      forgetBind rfl fun _ _ _ => forgetBind rfl fun _ _ _ => rfl
  · rintro _ _ ⟨⟨⟩, condition, ⟨⟩, ⟨⟩, body, ⟨⟩⟩
    simpa using Guarded.mk (.mk condition) (body _)

theorem functionJudged (bodies : Judged line (reading Y) (After B)) :
    Judged line (reading fun s => function s.endLine (Y s) l)
      fun ts n => Declaration E B (⟨.keyword .function, l⟩ :: ts) n := by
  have steps := judgedThen (nameJudged .functionName) fun f =>
    judgedThen (expectJudged (.mark .leftBracket) .parametersStart) fun _ =>
      judgedThen (itemsJudged (nameJudged .parameterName) .parametersEnd) fun ps =>
        judgedThen (expectJudged (.mark .leftParen) .functionBody) fun _ =>
          judgedThen bodies fun b => judgedGive (Node.function l f ps b)
  refine judgedAs steps ?_ ?_
  · intro s ts
    exact forgetBind rfl fun _ _ _ => forgetBind rfl fun _ _ _ => forgetBind rfl fun _ _ _ =>
      forgetBind rfl fun _ _ _ => forgetBind rfl fun _ _ _ => rfl
  · rintro _ _ ⟨name, ⟨⟩, ⟨parameters⟩, ⟨⟩, body, ⟨⟩⟩
    simpa using Declaration.function (E := E) (l := l) name (.mk parameters) (body _)

theorem handlerJudged (bodies : Judged line (reading Y) (After B)) :
    Judged line (reading fun s => handler s.endLine (Y s) l)
      fun ts n => Declaration E B (⟨.keyword .event, l⟩ :: ts) n := by
  have steps := judgedThen (expectJudged (.mark .leftBracket) .eventStart) fun _ =>
    judgedThen (nameJudged .eventName) fun e =>
      judgedThen (expectJudged (.mark .rightBracket) .eventEnd) fun _ =>
        judgedThen (expectJudged (.mark .leftParen) .handlerBody) fun _ =>
          judgedThen bodies fun b => judgedGive (Node.handler l e b)
  refine judgedAs steps ?_ ?_
  · intro s ts
    exact forgetBind rfl fun _ _ _ => forgetBind rfl fun _ _ _ => forgetBind rfl fun _ _ _ =>
      forgetBind rfl fun _ _ _ => forgetBind rfl fun _ _ _ => rfl
  · rintro _ _ ⟨⟨⟩, event, ⟨⟩, ⟨⟩, body, ⟨⟩⟩
    simpa using Declaration.handler (E := E) (l := l) (.mk event) (body _)

theorem loopJudged (expressions : Judged line (reading X) E)
    (bodies : Judged line (reading Y) (After B)) :
    Judged line (reading fun s => loop s.endLine (X s) (Y s) l)
      fun ts n => Declaration E B (⟨.keyword .loop, l⟩ :: ts) n := by
  have steps := judgedThen (nameJudged .loopName) fun x =>
    judgedThen (expectJudged (.keyword .within) .loopKeyword) fun _ =>
      judgedThen expressions fun i =>
        judgedThen (expectJudged (.mark .leftParen) .loopBody) fun _ =>
          judgedThen bodies fun b => judgedGive (Node.loop l x i b)
  refine judgedAs steps ?_ ?_
  · intro s ts
    exact forgetBind rfl fun _ _ _ => forgetBind rfl fun _ _ _ => forgetBind rfl fun _ _ _ =>
      forgetBind rfl fun _ _ _ => forgetBind rfl fun _ _ _ => rfl
  · rintro _ _ ⟨name, ⟨⟩, items, ⟨⟩, body, ⟨⟩⟩
    simpa using Declaration.loop (l := l) name items (body _)

theorem resultJudged (expressions : Judged line (reading X) E) :
    Judged line (reading fun s => result (X s) l)
      fun ts n => Declaration E B (⟨.keyword .result, l⟩ :: ts) n := by
  have steps := judgedThen expressions fun v => judgedGive (Node.result l v)
  refine judgedAs steps ?_ ?_
  · intro s ts
    exact forgetBind rfl fun _ _ _ => rfl
  · rintro _ _ ⟨value, ⟨⟩⟩
    rw [List.append_nil]
    exact .result value

theorem branchesSkip {branch : Setting → Rule (Branch Node)} {ts : List Token}
    (other : ∀ t us, ts = t :: us → t.kind ≠ .keyword .elif) (s : Setting) :
    reading (fun s => branches (branch s)) s ts = .ok ([], ts) := by
  change forget (branches (branch s) ts) = _
  unfold branches
  cases ts with
  | nil => rfl
  | cons t us =>
    simp only [if_neg (other t us rfl)]
    rfl

theorem branchesReading {branch : Setting → Rule (Branch Node)} (s : Setting) (us : List Token) :
    reading (fun s => branches (branch s)) s (⟨.keyword .elif, l⟩ :: us) =
      andThen (reading branch) (fun g => andThen (reading fun s => branches (branch s))
        fun gs => give (g :: gs)) s us := by
  change forget (branches (branch s) (⟨.keyword .elif, l⟩ :: us)) = _
  unfold branches
  exact forgetBind rfl fun _ _ _ => forgetBind rfl fun _ _ _ => rfl

theorem branchesOutcome {branch : Setting → Rule (Branch Node)}
    (judged : Judged line (reading branch) (Guarded E B)) (ts : List Token) :
    Outcome line (reading fun s => branches (branch s)) (Branches E B) [] ts := by
  refine outcomeUnless (fun kind => kind = .keyword .elif) .none ?_ ?_
  · intro s us other
    exact branchesSkip other s
  · rintro ⟨_, o⟩ us split rfl
    refine outcomeToken (outcomeThen (judged.outcome us) ?_ ?_) branchesReading
    · intro pre g head
      exact ⟨[], [g], .more head .none⟩
    · intro pre g rest _ head first
      have short : rest.length < ts.length := by
        rw [split]
        exact Nat.lt_succ_of_lt (readingShort first)
      refine outcomeMap (branchesOutcome judged rest) ?_
      intro post gs tail
      exact .more head tail
termination_by ts.length
decreasing_by exact short

theorem branchesJudged {branch : Setting → Rule (Branch Node)}
    (judged : Judged line (reading branch) (Guarded E B)) :
    Judged line (reading fun s => branches (branch s)) (Branches E B) where
  outcome := branchesOutcome judged
  phrase := ⟨[], [], .none⟩

theorem otherwiseJudged (bodies : Judged line (reading Y) (After B)) :
    Judged line (reading fun s => otherwise s.endLine (Y s)) (Otherwise B) where
  outcome ts := by
    refine outcomeUnless (fun kind => kind = .keyword .otherwise) .none ?_ ?_
    · intro s us other
      cases us with
      | nil => rfl
      | cons t more =>
        change forget (otherwise s.endLine (Y s) (t :: more)) = _
        unfold otherwise
        simp only [if_neg (other t more rfl)]
        rfl
    · rintro ⟨_, o⟩ us rfl rfl
      have steps := judgedThen (expectJudged (.mark .leftParen) .otherwiseBody) fun _ =>
        judgedThen bodies fun b => judgedGive b
      refine outcomeToken (outcomeUnder (steps.outcome us) ?_) ?_
      · rintro _ _ ⟨⟨⟩, body, ⟨⟩⟩
        simpa using Otherwise.body (l := o) (body _)
      · intro s us
        exact forgetBind rfl fun _ _ _ => forgetBind rfl fun _ _ _ => rfl
  phrase := ⟨[], [], .none⟩

theorem condJudged (expressions : Judged line (reading X) E)
    (bodies : Judged line (reading Y) (After B)) :
    Judged line (reading fun s => cond s.endLine (X s) (Y s) l)
      fun ts n => Declaration E B (⟨.keyword .cond, l⟩ :: ts) n := by
  have steps := judgedThen (guardedJudged expressions bodies .conditionEnd .condBody) fun g =>
    judgedThen (branchesJudged (guardedJudged expressions bodies .branchEnd .branchBody)) fun gs =>
      judgedThen (otherwiseJudged bodies) fun o =>
        judgedGive (Node.cond l g.condition g.body gs o)
  refine judgedAs steps ?_ ?_
  · intro s ts
    exact forgetBind rfl fun _ _ _ => forgetBind rfl fun _ _ _ => forgetBind rfl fun _ _ _ => rfl
  · rintro _ _ ⟨first, more, last, ⟨⟩⟩
    simpa using Declaration.cond (l := l) first more last

theorem declarationJudged (expressions : Judged line (reading X) E)
    (bodies : Judged line (reading Y) (After B)) :
    Judged line (reading fun s => declaration s.endLine (X s) (Y s)) (Declaration E B) where
  outcome ts := by
    -- Any token that introduces no statement is left to the rule for expressions.
    have expression (plain : ∀ s us, us.head? = ts.head? →
        declaration s.endLine (X s) (Y s) us = X s us) :
        Outcome line (reading fun s => declaration s.endLine (X s) (Y s)) (Declaration E B) [] ts :=
      outcomeAlike (outcomeUnder (expressions.outcome ts) fun _ _ => .expression)
        fun s us head => congrArg forget (plain s us head)
    cases ts with
    | nil =>
      refine expression ?_
      intro s us head
      rw [List.head?_eq_none_iff.mp head]
      rfl
    | cons t us =>
      obtain ⟨kind, l⟩ := t
      have other (plain : ∀ s us, declaration s.endLine (X s) (Y s) (⟨kind, l⟩ :: us) =
          X s (⟨kind, l⟩ :: us)) : Outcome line (reading fun s => declaration s.endLine (X s) (Y s))
            (Declaration E B) [] (⟨kind, l⟩ :: us) := by
        refine expression ?_
        intro s us head
        obtain ⟨rest, rfl⟩ := List.head?_eq_some_iff.mp head
        exact plain s rest
      have same {rule : Setting → Rule Node} (judged : Judged line (reading rule)
          fun ts n => Declaration E B (⟨kind, l⟩ :: ts) n)
          (keyword : ∀ s us, reading (fun s => declaration s.endLine (X s) (Y s)) s
            (⟨kind, l⟩ :: us) = reading rule s us) :
          Outcome line (reading fun s => declaration s.endLine (X s) (Y s))
            (Declaration E B) [] (⟨kind, l⟩ :: us) :=
        outcomeToken (outcomeUnder (judged.outcome us) fun _ _ phrase => phrase) keyword
      cases kind with
      | keyword k =>
        cases k with
        | function => exact same (functionJudged bodies) fun _ _ => forgetWiden _ _
        | event => exact same (handlerJudged bodies) fun _ _ => forgetWiden _ _
        | cond => exact same (condJudged expressions bodies) fun _ _ => forgetWiden _ _
        | loop => exact same (loopJudged expressions bodies) fun _ _ => forgetWiden _ _
        | result => exact same (resultJudged expressions) fun _ _ => forgetWiden _ _
        | _ => exact other fun _ _ => rfl
      | _ => exact other fun _ _ => rfl
  phrase := by
    obtain ⟨ts, n, only⟩ := expressions.phrase
    exact ⟨ts, n, .expression only⟩

end Statements

section Bodies

variable {D : Setting → Rule Node} {E : Derives Node} {B : Derives (List Node)}

theorem declarationsReading {t : Token} (other : t.kind ≠ .mark .rightParen) (s : Setting)
    {ts : List Token} (head : ts.head? = some t) :
    reading (fun s => declarations s.endLine (D s)) s ts =
      andThen (reading D) (fun n => andThen (reading fun s => declarations s.endLine (D s))
        fun ns => give (n :: ns)) s ts := by
  obtain ⟨us, rfl⟩ := List.head?_eq_some_iff.mp head
  change forget (declarations s.endLine (D s) (t :: us)) = _
  unfold declarations
  simp only [if_neg other]
  exact forgetBind rfl fun _ _ _ => forgetBind rfl fun _ _ _ => rfl

theorem declarationsOutcome (judged : Judged line (reading D) (Declaration E B)) (ts : List Token) :
    Outcome line (reading fun s => declarations s.endLine (D s))
      (Ended .rightParen (Declarations E B)) [] ts := by
  have begins {pre : List Token} {ns : List Node} (phrase : Declarations E B pre ns) :
      Begins (Ended .rightParen (Declarations E B)) pre := ⟨[⟨.mark .rightParen, 0⟩], ns, .mk phrase⟩
  cases ts with
  | nil =>
    refine outcomeEnd (begins .nil) (.missing .bodyEnd) ?_
    change forget (declarations line (D ⟨line, 0⟩) []) = _
    rw [declarations]
    rfl
  | cons t us =>
    obtain ⟨kind, l⟩ := t
    by_cases closing : kind = .mark .rightParen
    · subst closing
      refine .reads [⟨.mark .rightParen, l⟩] us [] rfl (.mk .nil) ?_
      intro s more _
      change forget (declarations s.endLine (D s) (⟨.mark .rightParen, l⟩ :: more)) = _
      rw [declarations]
      rfl
    refine outcomeAlike (outcomeThen (judged.outcome (⟨kind, l⟩ :: us)) ?_ ?_)
      fun s _ head => declarationsReading closing s head
    · intro pre n head
      have one : Declarations E B (pre ++ []) [n] := .cons head .nil
      rw [List.append_nil] at one
      exact begins one
    · intro pre n rest _ head first
      have short := readingShort first
      refine outcomeMap (declarationsOutcome judged rest) ?_
      rintro _ ns ⟨tail⟩
      rw [List.nil_append, ← List.append_assoc]
      exact .mk (.cons head tail)
termination_by ts.length
decreasing_by exact short

def programReading (D : Setting → Rule Node) : Reading (List Node) := fun s ts =>
  match program (D s) ts with
  | .ok ns => .ok (ns, [])
  | .error e => .error e

theorem programStep {t : Token} (s : Setting) {ts : List Token} (head : ts.head? = some t) :
    programReading D s ts = andThen (reading D) (fun n => andThen (programReading D)
      fun ns => give (n :: ns)) s ts := by
  obtain ⟨us, rfl⟩ := List.head?_eq_some_iff.mp head
  rw [programReading, program, andThen, reading]
  cases D s (t :: us) with
  | error e => rfl
  | ok p =>
    simp only [forget, andThen, programReading, bind, Except.bind]
    cases program (D s) p.rest with
    | ok ns => rfl
    | error e => rfl

theorem programOutcome (judged : Judged line (reading D) (Declaration E B)) (ts : List Token) :
    Outcome line (programReading D) (Declarations E B) [] ts := by
  cases ts with
  | nil =>
    refine outcomeStop .nil ?_
    intro s more none
    rw [List.head?_eq_none_iff.mp none, programReading, program]
  | cons t us =>
    refine outcomeAlike (outcomeThen (judged.outcome (t :: us)) ?_ ?_)
      fun s _ head => programStep s head
    · intro pre n head
      exact ⟨[], [n], .cons head .nil⟩
    · intro pre n rest _ head first
      have short := readingShort first
      refine outcomeMap (programOutcome judged rest) ?_
      intro post ns tail
      exact .cons head tail
termination_by ts.length
decreasing_by exact short

end Bodies

theorem bodyJudged (line depth : Nat) :
    Judged line (reading fun s => body s.endLine (s.spare + depth)) (After (Block (depth + 1))) := by
  have empty (depth : Nat) : ∃ ts b, After (Block (depth + 1)) ts b := by
    have none : Declarations (Expression depth) (Block depth) [] [] := .nil
    exact ⟨[⟨.mark .rightParen, 0⟩], [], fun l => Enclosed.mk none⟩
  induction depth with
  | zero => exact ⟨fun ts => .deep _ rfl, empty 0⟩
  | succ depth ih =>
    have inside := declarationJudged (expressionJudged line depth) ih
    refine ⟨?_, empty (depth + 1)⟩
    intro ts
    refine outcomeUnder (declarationsOutcome inside ts) ?_
    rintro _ ns ⟨phrase⟩ l
    exact .mk phrase

end EventScript.Parser
