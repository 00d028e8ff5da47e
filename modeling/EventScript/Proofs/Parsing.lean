import EventScript.Node.Parser
import EventScript.Proofs.Grammar

/-! The rules of the parser read the languages of the grammar. Each rule stops at
the right place because of one token: `looseness` ranks what can continue a
phrase, and a rule reads to the end of its phrase whenever the next token is
looser than the rule. No declaration starts with a token that could continue
the one before it, so whole programs are read in one way only. -/
namespace EventScript.Parser
open Grammar

variable {α β : Type}

def Gives {n : Nat} (x : Except SyntaxError (Phrase α n)) (v : α) (rest : List Token) : Prop :=
  ∃ short, x = .ok ⟨v, rest, short⟩

theorem givesOk {n : Nat} {v w : α} {rest us : List Token} {short : us.length < n} :
    Gives (.ok ⟨w, us, short⟩) v rest ↔ w = v ∧ us = rest := by
  constructor
  · rintro ⟨_, h⟩
    cases h
    exact ⟨rfl, rfl⟩
  · rintro ⟨rfl, rfl⟩
    exact ⟨short, rfl⟩

theorem givesError {n : Nat} {e : SyntaxError} {v : α} {rest : List Token} :
    ¬ Gives (.error e : Except SyntaxError (Phrase α n)) v rest := by
  rintro ⟨_, h⟩
  cases h

theorem givesSplit {m n : Nat} {x : Except SyntaxError (Phrase α m)}
    {f : Phrase α m → Except SyntaxError (Phrase β n)} {v : β} {rest : List Token}
    (h : Gives (x >>= f) v rest) :
    ∃ w mid short, Gives x w mid ∧ Gives (f ⟨w, mid, short⟩) v rest := by
  obtain ⟨short, h⟩ := h
  cases x with
  | error e => cases h
  | ok p => exact ⟨p.value, p.rest, p.short, ⟨p.short, rfl⟩, short, h⟩

theorem givesThen {m n : Nat} {x : Except SyntaxError (Phrase α m)}
    {f : Phrase α m → Except SyntaxError (Phrase β n)} {w : α} {v : β} {mid rest : List Token}
    (first : Gives x w mid) (next : ∀ short, Gives (f ⟨w, mid, short⟩) v rest) :
    Gives (x >>= f) v rest := by
  obtain ⟨short, rfl⟩ := first
  exact next short

theorem givesExpect {line : Nat} {kind : TokenKind} {what : Expected} {ts rest : List Token}
    {l : Nat} : Gives (expect line kind what ts) l rest ↔ ts = ⟨kind, l⟩ :: rest := by
  cases ts with
  | nil => simp [expect, fail, givesError]
  | cons t ts =>
    obtain ⟨k, l'⟩ := t
    simp only [expect]
    split
    · rename_i same
      simp [givesOk, same]
    · rename_i other
      simp only [fail, givesError, false_iff]
      rintro h
      cases h
      exact other rfl

theorem givesName {line : Nat} {what : Expected} {ts rest : List Token} {s : String} :
    Gives (expectName line what ts) s rest ↔ ∃ l, ts = ⟨.name s, l⟩ :: rest := by
  cases ts with
  | nil => simp [expectName, fail, givesError]
  | cons t ts =>
    obtain ⟨k, l⟩ := t
    simp only [expectName]
    split
    · simp [givesOk]
    · rename_i other
      simp only [fail, givesError, false_iff]
      rintro ⟨_, h⟩
      cases h
      exact other s rfl

def looseness : TokenKind → Nat
  | .mark .leftBracket => 1
  | .mark .star | .mark .slash => 2
  | .mark .plus | .mark .minus => 3
  | .mark .same | .mark .differs => 4
  | .mark .assign => 5
  | .keyword .elif | .keyword .otherwise => 6
  | _ => 7

def Stops (reach : Nat) (ts : List Token) : Prop := ∀ t us, ts = t :: us → reach < looseness t.kind

theorem stopsNil (reach : Nat) : Stops reach [] := by
  intro t us h
  contradiction

theorem stopsCons {reach : Nat} {t : Token} {ts : List Token} (h : reach < looseness t.kind) :
    Stops reach (t :: ts) := by
  rintro _ _ ⟨⟩
  exact h

theorem stopsTighter {reach less : Nat} {ts : List Token} (h : Stops reach ts) (le : less ≤ reach) :
    Stops less ts :=
  fun t us same => Nat.lt_of_le_of_lt le (h t us same)

theorem stopsZero (ts : List Token) : Stops 0 ts := by
  intro t us _
  unfold looseness
  split <;> decide

theorem startsLoose {kind : TokenKind} (h : startsDeclaration kind) : looseness kind = 7 := by
  cases kind with
  | mark m => cases m <;> trivial
  | keyword k => cases k <;> trivial
  | number | text | name => rfl
  | finish => contradiction

theorem openingStops {ts : List Token} (h : Opening startsDeclaration ts) : Stops 6 ts := by
  obtain ⟨t, us, rfl, start⟩ := h
  exact stopsCons (by rw [startsLoose start]; decide)

structure Reads (rule : Rule α) (L : Derives α) (reach : Nat) : Prop where
  sound : ∀ ts v rest, Gives (rule ts) v rest → ∃ pre, ts = pre ++ rest ∧ L pre v
  -- Nothing is asked of a rule whose phrase the next token could continue.
  complete : ∀ pre v rest, L pre v → Stops reach rest → Gives (rule (pre ++ rest)) v rest

theorem nameReads (line : Nat) (what : Expected) : Reads (expectName line what) Name 0 where
  sound := by
    intro ts s rest h
    obtain ⟨l, rfl⟩ := givesName.mp h
    exact ⟨[⟨.name s, l⟩], rfl, .mk⟩
  complete := by
    rintro _ s rest ⟨⟩ _
    exact givesName.mpr ⟨_, rfl⟩

/- What follows the opening mark of an enclosed phrase. -/
inductive Ended (closing : Mark) (inside : Derives α) : List Token → α → Prop where
  | mk {ts v r} (inner : inside ts v) : Ended closing inside (ts ++ [⟨.mark closing, r⟩]) v

theorem enclosedIff {opening closing : Mark} {inside : Derives α} {ts : List Token} {v : α} :
    Enclosed opening closing inside ts v ↔
      ∃ l us, ts = ⟨.mark opening, l⟩ :: us ∧ Ended closing inside us v := by
  constructor
  · rintro ⟨inner⟩
    exact ⟨_, _, rfl, .mk inner⟩
  · rintro ⟨l, _, rfl, ⟨inner⟩⟩
    exact .mk inner

section Items

variable {line : Nat} {item : Rule α} {I : Derives α} {close : Expected} {reach : Nat}

theorem itemsPrepend {ts us : List Token} {v : α} {vs : List α} {l : Nat} (head : I ts v)
    (tail : Items I us vs) : Items I (ts ++ ⟨.mark .comma, l⟩ :: us) (v :: vs) := by
  cases tail with
  | empty => exact .trailing (.one head)
  | plain all => exact .plain (.more head all)
  | trailing all => simpa using Items.trailing (.more head all)

theorem itemsSound (reads : Reads item I reach) : ∀ (ts : List Token) {vs : List α}
    {rest : List Token}, Gives (items line item close ts) vs rest →
      ∃ pre r, ts = pre ++ ⟨.mark .rightBracket, r⟩ :: rest ∧ Items I pre vs
  | [], vs, rest, h => by
    unfold items at h
    obtain ⟨_, _, short, _⟩ := givesSplit h
    contradiction
  | t :: us, vs, rest, h => by
    unfold items at h
    split at h
    · rename_i closing
      obtain ⟨rfl, rfl⟩ := givesOk.mp h
      exact ⟨[], t.line, by simp [← closing], .empty⟩
    · obtain ⟨v, mid, short, first, h⟩ := givesSplit h
      obtain ⟨pre, same, head⟩ := reads.sound _ _ _ first
      cases mid with
      | nil => exact absurd h givesError
      | cons u after =>
        simp only at h
        split at h
        · rename_i comma
          obtain ⟨ws, _, _, more, h⟩ := givesSplit h
          obtain ⟨rfl, rfl⟩ := givesOk.mp h
          obtain ⟨between, r, rfl, tail⟩ := itemsSound reads after more
          exact ⟨pre ++ ⟨.mark .comma, u.line⟩ :: between, r, by simp [same, ← comma],
            itemsPrepend head tail⟩
        · split at h
          · rename_i closing
            obtain ⟨rfl, rfl⟩ := givesOk.mp h
            exact ⟨pre, u.line, by simp [same, ← closing], .plain (.one head)⟩
          · exact absurd h givesError
termination_by ts => ts.length
decreasing_by simp only [List.length_cons] at short ⊢; omega

theorem itemsClose (r : Nat) (rest : List Token) :
    Gives (items line item close (⟨.mark .rightBracket, r⟩ :: rest)) [] rest := by
  unfold items
  simp [givesOk]

section Complete

variable (reads : Reads item I reach) (opens : Opens startsExpression I) (tight : reach < 7)
include reads opens tight

theorem itemsLast {ts : List Token} {v : α} (head : I ts v) (r : Nat) (rest : List Token) :
    Gives (items line item close (ts ++ ⟨.mark .rightBracket, r⟩ :: rest)) [v] rest := by
  have first := reads.complete _ _ (⟨.mark .rightBracket, r⟩ :: rest) head (stopsCons tight)
  obtain ⟨t, more, rfl, start⟩ := opens _ _ head
  have other : t.kind ≠ .mark .rightBracket := by intro same; simp [same, startsExpression] at start
  unfold items
  simp only [List.cons_append, if_neg other]
  refine givesThen first ?_
  intro short
  simp [givesOk]

theorem itemsNext {ts us rest : List Token} {v : α} {vs : List α} {l : Nat} (head : I ts v)
    (tail : Gives (items line item close us) vs rest) :
    Gives (items line item close (ts ++ ⟨.mark .comma, l⟩ :: us)) (v :: vs) rest := by
  have first := reads.complete _ _ (⟨.mark .comma, l⟩ :: us) head (stopsCons tight)
  obtain ⟨t, more, rfl, start⟩ := opens _ _ head
  have other : t.kind ≠ .mark .rightBracket := by intro same; simp [same, startsExpression] at start
  unfold items
  simp only [List.cons_append, if_neg other]
  refine givesThen first ?_
  intro short
  simp only [if_true]
  refine givesThen tail ?_
  intro short
  exact givesOk.mpr ⟨rfl, rfl⟩

theorem separatedComplete {ts : List Token} {vs : List α} (h : Separated I ts vs) (r : Nat)
    (rest : List Token) :
    Gives (items line item close (ts ++ ⟨.mark .rightBracket, r⟩ :: rest)) vs rest ∧
    ∀ l, Gives (items line item close (ts ++ ⟨.mark .comma, l⟩ :: ⟨.mark .rightBracket, r⟩ :: rest))
      vs rest := by
  induction h with
  | one head =>
    exact ⟨itemsLast reads opens tight head r rest,
      fun l => itemsNext reads opens tight head (itemsClose r rest)⟩
  | more head tail ih =>
    refine ⟨?_, fun l => ?_⟩
    · rw [List.append_assoc, List.cons_append]
      exact itemsNext reads opens tight head ih.1
    · rw [List.append_assoc, List.cons_append]
      exact itemsNext reads opens tight head (ih.2 l)

theorem itemsReads : Reads (items line item close) (Ended .rightBracket (Items I)) 0 where
  sound := by
    intro ts vs rest h
    obtain ⟨pre, r, rfl, all⟩ := itemsSound reads ts h
    exact ⟨pre ++ [⟨.mark .rightBracket, r⟩], by simp, .mk all⟩
  complete := by
    rintro _ vs rest ⟨all⟩ _
    rw [List.append_assoc]
    cases all with
    | empty => exact itemsClose _ rest
    | plain all => exact (separatedComplete reads opens tight all _ rest).1
    | trailing all =>
      rw [List.append_assoc]
      exact (separatedComplete reads opens tight all _ rest).2 _

end Complete

end Items

section Levels

variable {operator? : TokenKind → Option BinaryOp} {marks : List (Mark × BinaryOp)}
  {first operand : Rule Node} {F O : Derives Node} {reach : Nat}

def Lists (operator? : TokenKind → Option BinaryOp) (marks : List (Mark × BinaryOp)) : Prop :=
  ∀ kind op, operator? kind = some op ↔ ∃ m, kind = .mark m ∧ (m, op) ∈ marks

theorem chainStops (lists : Lists operator? marks)
    (loose : ∀ p ∈ marks, looseness (.mark p.1) = reach + 1) {rest : List Token}
    (stops : Stops (reach + 1) rest) (left : Node) :
    Gives (chain operator? operand left rest) left rest := by
  unfold chain
  cases rest with
  | nil => exact givesOk.mpr ⟨rfl, rfl⟩
  | cons t us =>
    have none : operator? t.kind = none := by
      cases found : operator? t.kind with
      | none => rfl
      | some op =>
        obtain ⟨m, kind, known⟩ := (lists _ _).mp found
        have far := stops t us rfl
        rw [kind, loose _ known] at far
        omega
    simp [none, givesOk]

theorem chainStep (reads : Reads operand O reach) {kind : TokenKind} {op : BinaryOp}
    (found : operator? kind = some op) {us : List Token} {left right : Node} (phrase : O us right)
    {rest : List Token} (stops : Stops reach rest) {v : Node} {finish : List Token} (l : Nat)
    (more : Gives (chain operator? operand (.binary left.line op left right) rest) v finish) :
    Gives (chain operator? operand left (⟨kind, l⟩ :: (us ++ rest))) v finish := by
  rw [chain]
  simp only [found]
  refine givesThen (reads.complete _ _ _ phrase stops) ?_
  intro short
  refine givesThen more ?_
  intro short
  exact givesOk.mpr ⟨rfl, rfl⟩

theorem chainSound (lists : Lists operator? marks) (lined : Lined F) (reads : Reads operand O reach) :
    ∀ (ts : List Token) {before : List Token} {left n : Node} {rest : List Token},
      Level marks F O before left → Gives (chain operator? operand left ts) n rest →
      ∃ pre, ts = pre ++ rest ∧ Level marks F O (before ++ pre) n
  | [], before, left, n, rest, phrase, h => by
    unfold chain at h
    obtain ⟨rfl, rfl⟩ := givesOk.mp h
    exact ⟨[], rfl, by simpa using phrase⟩
  | t :: us, before, left, n, rest, phrase, h => by
    unfold chain at h
    cases found : operator? t.kind with
    | none =>
      simp only [found] at h
      obtain ⟨rfl, rfl⟩ := givesOk.mp h
      exact ⟨[], rfl, by simpa using phrase⟩
    | some op =>
      simp only [found] at h
      obtain ⟨right, mid, short, second, h⟩ := givesSplit h
      obtain ⟨_, _, _, more, h⟩ := givesSplit h
      obtain ⟨rfl, rfl⟩ := givesOk.mp h
      obtain ⟨pre, rfl, operand⟩ := reads.sound _ _ _ second
      obtain ⟨m, kind, known⟩ := (lists _ _).mp found
      -- What has been read is itself a phrase of the level, and the left operand of the next.
      have line := startLineAppend (levelLined lined _ _ phrase) (⟨.mark m, t.line⟩ :: pre)
      obtain ⟨after, rfl, all⟩ := chainSound lists lined reads _ (.more phrase known operand line) more
      exact ⟨t :: (pre ++ after), by simp, by simpa [← kind] using all⟩
termination_by ts => ts.length

/- The induction follows the grouping, so what is left of the tokens grows
from the right while the chain takes them from the left. -/
theorem levelChains (lists : Lists operator? marks)
    (loose : ∀ p ∈ marks, looseness (.mark p.1) = reach + 1) (lined : Lined F)
    (readsFirst : Reads first F reach) (reads : Reads operand O reach)
    {ts : List Token} {n : Node} (phrase : Level marks F O ts n) {rest finish : List Token} {v : Node}
    (stops : Stops reach rest) (more : Gives (chain operator? operand n rest) v finish) :
    Gives (level operator? first operand (ts ++ rest)) v finish := by
  induction phrase generalizing rest with
  | first only =>
    refine givesThen (readsFirst.complete _ _ _ only stops) ?_
    intro short
    refine givesThen more ?_
    intro short
    exact givesOk.mpr ⟨rfl, rfl⟩
  | @more ts us l r k m op o left known right line ih =>
    have same : k = l.line := by
      have := startLineAppend (levelLined lined _ _ left) (⟨.mark m, o⟩ :: us)
      exact Option.some.inj (line.symm.trans this)
    subst same
    rw [List.append_assoc, List.cons_append]
    have found : operator? (.mark m) = some op := (lists _ _).mpr ⟨m, rfl, known⟩
    have next : Stops reach (⟨.mark m, o⟩ :: (us ++ rest)) :=
      stopsCons (by rw [loose _ known]; exact Nat.lt_succ_self reach)
    exact ih next (chainStep reads found right stops o more)

theorem levelReads (lists : Lists operator? marks)
    (loose : ∀ p ∈ marks, looseness (.mark p.1) = reach + 1) (lined : Lined F)
    (readsFirst : Reads first F reach) (reads : Reads operand O reach) :
    Reads (level operator? first operand) (Level marks F O) (reach + 1) where
  sound := by
    intro ts n rest h
    obtain ⟨left, mid, _, head, h⟩ := givesSplit h
    obtain ⟨_, _, _, more, h⟩ := givesSplit h
    obtain ⟨rfl, rfl⟩ := givesOk.mp h
    obtain ⟨before, rfl, only⟩ := readsFirst.sound _ _ _ head
    obtain ⟨pre, rfl, all⟩ := chainSound lists lined reads _ (.first only) more
    exact ⟨before ++ pre, by simp, all⟩
  complete := by
    intro pre n rest phrase stops
    exact levelChains lists loose lined readsFirst reads phrase
      (stopsTighter stops (Nat.le_succ reach)) (chainStops lists loose stops n)

theorem productLists : Lists product? productMarks := by
  intro kind op
  unfold product?
  split <;> grind [productMarks]

theorem sumLists : Lists sum? sumMarks := by
  intro kind op
  unfold sum?
  split <;> grind [sumMarks]

theorem comparisonLists : Lists comparison? comparisonMarks := by
  intro kind op
  unfold comparison?
  split <;> grind [comparisonMarks]

end Levels

theorem readsLooser {rule : Rule α} {L : Derives α} {reach more : Nat} (reads : Reads rule L reach)
    (le : reach ≤ more) : Reads rule L more where
  sound := reads.sound
  complete pre v rest phrase stops := reads.complete pre v rest phrase (stopsTighter stops le)

section Suffixes

variable {sign : Mark} {fault : NodeForm → GrammarFault} {first : Rule Node} {more : Rule α}
  {make : Nat → String → α → Node} {H : Derives Node} {M : Derives α}

inductive Suffixed (sign : Mark) (H : Derives Node) (M : Derives α) (make : Nat → String → α → Node) :
    List Token → Node → Prop where
  | alone {ts n} (only : H ts n) : Suffixed sign H M make ts n
  | joined {ts us l x v o} (head : H ts (.name l x)) (inner : M us v) :
      Suffixed sign H M make (ts ++ ⟨.mark sign, o⟩ :: us) (make l x v)

theorem suffixedReads {near inside reach : Nat} (starts : Reads first H near) (reads : Reads more M inside)
    (nearer : near < looseness (.mark sign)) (within : inside ≤ reach)
    (reaches : looseness (.mark sign) ≤ reach) :
    Reads (suffixed sign fault first more make) (Suffixed sign H M make) reach where
  sound := by
    intro ts n rest h
    obtain ⟨head, mid, _, first, h⟩ := givesSplit h
    obtain ⟨pre, rfl, phrase⟩ := starts.sound _ _ _ first
    cases mid with
    | nil =>
      obtain ⟨rfl, rfl⟩ := givesOk.mp h
      exact ⟨pre, rfl, .alone phrase⟩
    | cons t us =>
      simp only at h
      split at h
      · rename_i found
        cases head with
        | name l x =>
          obtain ⟨v, _, _, second, h⟩ := givesSplit h
          obtain ⟨rfl, rfl⟩ := givesOk.mp h
          obtain ⟨after, rfl, inner⟩ := reads.sound _ _ _ second
          exact ⟨pre ++ ⟨.mark sign, t.line⟩ :: after, by simp [← found], .joined phrase inner⟩
        | _ => exact absurd h givesError
      · obtain ⟨rfl, rfl⟩ := givesOk.mp h
        exact ⟨pre, rfl, .alone phrase⟩
  complete := by
    intro pre n rest phrase stops
    cases phrase with
    | alone only =>
      refine givesThen (starts.complete _ _ _ only (stopsTighter stops (by omega))) ?_
      intro short
      cases rest with
      | nil => exact givesOk.mpr ⟨rfl, rfl⟩
      | cons t us =>
        have other : t.kind ≠ .mark sign := by
          intro same
          have far := stops t us rfl
          rw [same] at far
          omega
        simp only [if_neg other]
        exact givesOk.mpr ⟨rfl, rfl⟩
    | joined head inner =>
      rw [List.append_assoc, List.cons_append]
      refine givesThen (starts.complete _ _ _ head (stopsCons nearer)) ?_
      intro short
      simp only [if_true]
      refine givesThen (reads.complete _ _ _ inner (stopsTighter stops within)) ?_
      intro short
      exact givesOk.mpr ⟨rfl, rfl⟩

end Suffixes

section Expressions

variable {line : Nat} {expression : Rule Node} {E : Derives Node}

theorem primaryReads (reads : Reads expression E 5) :
    Reads (primary line expression) (Primary E) 0 where
  sound := by
    intro ts n rest h
    unfold primary at h
    cases ts with
    | nil => exact absurd h givesError
    | cons t us =>
      obtain ⟨kind, l⟩ := t
      simp only at h
      split at h
      · obtain ⟨_, mid, _, inner, h⟩ := givesSplit h
        obtain ⟨r, _, _, close, h⟩ := givesSplit h
        obtain ⟨rfl, rfl⟩ := givesOk.mp h
        obtain ⟨pre, rfl, phrase⟩ := reads.sound _ _ _ inner
        cases givesExpect.mp close
        exact ⟨⟨.mark .leftParen, l⟩ :: (pre ++ [⟨.mark .rightParen, r⟩]), by simp,
          .group (.mk phrase)⟩
      · obtain ⟨rfl, rfl⟩ := givesOk.mp h
        exact ⟨[_], rfl, .number⟩
      · obtain ⟨rfl, rfl⟩ := givesOk.mp h
        exact ⟨[_], rfl, .text⟩
      · obtain ⟨rfl, rfl⟩ := givesOk.mp h
        exact ⟨[_], rfl, .name⟩
      · exact absurd h givesError
      · exact absurd h givesError
  complete := by
    intro pre n rest phrase _
    cases phrase with
    | number => exact givesOk.mpr ⟨rfl, rfl⟩
    | text => exact givesOk.mpr ⟨rfl, rfl⟩
    | name => exact givesOk.mpr ⟨rfl, rfl⟩
    | group inner =>
      obtain ⟨inner⟩ := inner
      rename_i l r ts
      rw [List.cons_append, List.append_assoc]
      refine givesThen (reads.complete _ _ _ inner (stopsCons (by simp [looseness]))) ?_
      intro short
      refine givesThen (givesExpect.mpr rfl) ?_
      intro short
      exact givesOk.mpr ⟨rfl, rfl⟩

theorem callSuffixed (lined : Lined E) :
    Call E = Suffixed .leftBracket (Primary E) (Ended .rightBracket (Items E)) .call := by
  funext ts n
  refine propext ⟨?_, ?_⟩
  · rintro (only | ⟨callee, arguments, start⟩)
    · exact .alone only
    · cases start.symm.trans (startLineAppend (primaryLined lined _ _ callee) _)
      obtain ⟨l, inside, rfl, listed⟩ := enclosedIff.mp arguments
      exact .joined callee listed
  · rintro (only | ⟨callee, listed⟩)
    · exact .primary only
    · exact .apply callee (enclosedIff.mpr ⟨_, _, rfl, listed⟩)
        (startLineAppend (primaryLined lined _ _ callee) _)

theorem callReads (lined : Lined E) (opens : Opens startsExpression E) (reads : Reads expression E 5) :
    Reads (call line expression) (Call E) 1 := by
  rw [callSuffixed lined]
  exact suffixedReads (primaryReads reads) (itemsReads reads opens (by decide)) (by decide) (by decide)
    (by decide)

theorem productReads (lined : Lined E) (opens : Opens startsExpression E) (reads : Reads expression E 5) :
    Reads (product line expression) (Product E) 2 :=
  levelReads productLists (by decide) (callLined lined) (callReads lined opens reads)
    (readsLooser (primaryReads reads) (by decide))

theorem sumReads (lined : Lined E) (opens : Opens startsExpression E) (reads : Reads expression E 5) :
    Reads (sum line expression) (Sum E) 3 :=
  levelReads sumLists (by decide) (levelLined (callLined lined)) (productReads lined opens reads)
    (productReads lined opens reads)

theorem comparisonReads (lined : Lined E) (opens : Opens startsExpression E) (reads : Reads expression E 5) :
    Reads (comparison line expression) (Comparison E) 4 :=
  levelReads comparisonLists (by decide) (levelLined (levelLined (callLined lined)))
    (sumReads lined opens reads) (sumReads lined opens reads)

theorem assignmentSuffixed (lined : Lined E) :
    Assignment E = Suffixed .assign (Comparison E) E .assign := by
  funext ts n
  refine propext ⟨?_, ?_⟩
  · rintro (only | ⟨target, value, start⟩)
    · exact .alone only
    · cases start.symm.trans (startLineAppend (comparisonLined lined _ _ target) _)
      exact .joined target value
  · rintro (only | ⟨target, value⟩)
    · exact .plain only
    · exact .assign target value (startLineAppend (comparisonLined lined _ _ target) _)

theorem assignmentReads (lined : Lined E) (opens : Opens startsExpression E) (reads : Reads expression E 5) :
    Reads (assignment line expression) (Assignment E) 5 := by
  rw [assignmentSuffixed lined]
  exact suffixedReads (comparisonReads lined opens reads) reads (by decide) (by decide) (by decide)

end Expressions

theorem expressionReads (line depth : Nat) :
    Reads (expression line depth) (Expression depth) 5 := by
  induction depth with
  | zero =>
    refine ⟨?_, ?_⟩
    · intro ts n rest h
      exact absurd h givesError
    · intro pre n rest phrase
      contradiction
  | succ depth ih => exact assignmentReads (expressionLined depth) (expressionOpens depth) ih

/- The rule for a body starts after the opening parenthesis of its block. -/
structure ReadsBlock (body : Rule (List Node)) (B : Derives (List Node)) : Prop where
  sound : ∀ l us b rest, Gives (body us) b rest →
    ∃ pre, us = pre ++ rest ∧ B (⟨.mark .leftParen, l⟩ :: pre) b
  complete : ∀ bs b rest, B bs b →
    ∃ l us, bs = ⟨.mark .leftParen, l⟩ :: us ∧ Gives (body (us ++ rest)) b rest

section Statements

variable {line l : Nat} {expression : Rule Node} {body : Rule (List Node)} {E : Derives Node}
  {B : Derives (List Node)}

theorem functionSound (blocks : ReadsBlock body B) {ts : List Token} {n : Node} {rest : List Token}
    (h : Gives (function line body l ts) n rest) :
    ∃ pre, ts = pre ++ rest ∧ Declaration E B (⟨.keyword .function, l⟩ :: pre) n := by
  obtain ⟨f, _, _, name, h⟩ := givesSplit h
  obtain ⟨o, _, _, opening, h⟩ := givesSplit h
  obtain ⟨xs, _, _, parameters, h⟩ := givesSplit h
  obtain ⟨p, _, _, start, h⟩ := givesSplit h
  obtain ⟨b, _, _, inner, h⟩ := givesSplit h
  obtain ⟨rfl, rfl⟩ := givesOk.mp h
  obtain ⟨k, rfl⟩ := givesName.mp name
  cases givesExpect.mp opening
  obtain ⟨inside, rfl, listed⟩ :=
    (itemsReads (nameReads line .parameterName) nameOpens (by decide)).sound _ _ _ parameters
  cases givesExpect.mp start
  obtain ⟨pre, rfl, block⟩ := blocks.sound p _ _ _ inner
  have bracketed : Bracketed (Items Name) (⟨.mark .leftBracket, o⟩ :: inside) xs :=
    enclosedIff.mpr ⟨_, _, rfl, listed⟩
  exact ⟨_, by simp, .function (.mk (l := k)) bracketed block⟩

theorem functionComplete (blocks : ReadsBlock body B) {ns ps bs : List Token} {f : String}
    {xs : List String} {b : List Node} (name : Name ns f)
    (parameters : Bracketed (Items Name) ps xs) (block : B bs b) (rest : List Token) :
    Gives (function line body l (ns ++ ps ++ bs ++ rest)) (.function l f xs b) rest := by
  obtain ⟨⟩ := name
  obtain ⟨o, inside, rfl, listed⟩ := enclosedIff.mp parameters
  obtain ⟨p, us, rfl, inner⟩ := blocks.complete _ _ rest block
  rw [List.append_assoc, List.append_assoc]
  refine givesThen (givesName.mpr ⟨_, rfl⟩) ?_
  intro short
  refine givesThen (givesExpect.mpr rfl) ?_
  intro short
  refine givesThen ((itemsReads (nameReads line .parameterName) nameOpens (by decide)).complete _ _ _
    listed (stopsCons (by simp [looseness]))) ?_
  intro short
  refine givesThen (givesExpect.mpr rfl) ?_
  intro short
  refine givesThen inner ?_
  intro short
  exact givesOk.mpr ⟨rfl, rfl⟩

theorem handlerSound (blocks : ReadsBlock body B) {ts : List Token} {n : Node} {rest : List Token}
    (h : Gives (handler line body l ts) n rest) :
    ∃ pre, ts = pre ++ rest ∧ Declaration E B (⟨.keyword .event, l⟩ :: pre) n := by
  obtain ⟨o, _, _, opening, h⟩ := givesSplit h
  obtain ⟨e, _, _, event, h⟩ := givesSplit h
  obtain ⟨r, _, _, close, h⟩ := givesSplit h
  obtain ⟨p, _, _, start, h⟩ := givesSplit h
  obtain ⟨b, _, _, inner, h⟩ := givesSplit h
  obtain ⟨rfl, rfl⟩ := givesOk.mp h
  cases givesExpect.mp opening
  obtain ⟨k, rfl⟩ := givesName.mp event
  cases givesExpect.mp close
  cases givesExpect.mp start
  obtain ⟨pre, rfl, block⟩ := blocks.sound p _ _ _ inner
  have bracketed : Bracketed Name
      (⟨.mark .leftBracket, o⟩ :: ([⟨.name e, k⟩] ++ [⟨.mark .rightBracket, r⟩])) e := .mk .mk
  exact ⟨_, by simp, .handler bracketed block⟩

theorem handlerComplete (blocks : ReadsBlock body B) {es bs : List Token} {e : String}
    {b : List Node} (event : Bracketed Name es e) (block : B bs b) (rest : List Token) :
    Gives (handler line body l (es ++ bs ++ rest)) (.handler l e b) rest := by
  obtain ⟨⟨⟩⟩ := event
  obtain ⟨p, us, rfl, inner⟩ := blocks.complete _ _ rest block
  rw [List.append_assoc]
  refine givesThen (givesExpect.mpr rfl) ?_
  intro short
  refine givesThen (givesName.mpr ⟨_, rfl⟩) ?_
  intro short
  refine givesThen (givesExpect.mpr rfl) ?_
  intro short
  refine givesThen (givesExpect.mpr rfl) ?_
  intro short
  refine givesThen inner ?_
  intro short
  exact givesOk.mpr ⟨rfl, rfl⟩

theorem guardedReads (reads : Reads expression E 5) (blocks : ReadsBlock body B)
    (close start : Expected) :
    Reads (guarded line expression body close start) (Guarded E B) 0 where
  sound := by
    intro ts g rest h
    obtain ⟨o, _, _, opening, h⟩ := givesSplit h
    obtain ⟨c, _, _, condition, h⟩ := givesSplit h
    obtain ⟨r, _, _, close, h⟩ := givesSplit h
    obtain ⟨p, _, _, start, h⟩ := givesSplit h
    obtain ⟨b, _, _, inner, h⟩ := givesSplit h
    obtain ⟨rfl, rfl⟩ := givesOk.mp h
    cases givesExpect.mp opening
    obtain ⟨cs, rfl, phrase⟩ := reads.sound _ _ _ condition
    cases givesExpect.mp close
    cases givesExpect.mp start
    obtain ⟨pre, rfl, block⟩ := blocks.sound p _ _ _ inner
    have bracketed : Bracketed E
        (⟨.mark .leftBracket, o⟩ :: (cs ++ [⟨.mark .rightBracket, r⟩])) c := .mk phrase
    exact ⟨_, by simp, .mk bracketed block⟩
  complete := by
    rintro _ _ rest ⟨⟨condition⟩, block⟩ _
    obtain ⟨p, us, rfl, inner⟩ := blocks.complete _ _ rest block
    rw [List.append_assoc, List.cons_append, List.append_assoc]
    refine givesThen (givesExpect.mpr rfl) ?_
    intro short
    refine givesThen (reads.complete _ _ _ condition (stopsCons (by simp [looseness]))) ?_
    intro short
    refine givesThen (givesExpect.mpr rfl) ?_
    intro short
    refine givesThen (givesExpect.mpr rfl) ?_
    intro short
    refine givesThen inner ?_
    intro short
    exact givesOk.mpr ⟨rfl, rfl⟩

theorem branchesSound {branch : Rule (Branch Node)} (reads : Reads branch (Guarded E B) 0) :
    ∀ (ts : List Token) {gs : List (Branch Node)} {rest : List Token},
      Gives (branches branch ts) gs rest → ∃ pre, ts = pre ++ rest ∧ Branches E B pre gs
  | [], gs, rest, h => by
    unfold branches at h
    obtain ⟨rfl, rfl⟩ := givesOk.mp h
    exact ⟨[], rfl, .none⟩
  | t :: us, gs, rest, h => by
    unfold branches at h
    split at h
    · rename_i key
      obtain ⟨g, mid, short, first, h⟩ := givesSplit h
      obtain ⟨_, _, _, more, h⟩ := givesSplit h
      obtain ⟨rfl, rfl⟩ := givesOk.mp h
      obtain ⟨pre, rfl, head⟩ := reads.sound _ _ _ first
      obtain ⟨after, rfl, tail⟩ := branchesSound reads mid more
      exact ⟨⟨.keyword .elif, t.line⟩ :: (pre ++ after), by simp [← key], .more head tail⟩
    · obtain ⟨rfl, rfl⟩ := givesOk.mp h
      exact ⟨[], rfl, .none⟩
termination_by ts => ts.length

theorem branchesComplete {branch : Rule (Branch Node)} (reads : Reads branch (Guarded E B) 0)
    {ts : List Token} {gs : List (Branch Node)} (phrase : Branches E B ts gs) {rest : List Token}
    (stops : ∀ t us, rest = t :: us → t.kind ≠ .keyword .elif) :
    Gives (branches branch (ts ++ rest)) gs rest := by
  induction phrase with
  | none =>
    unfold branches
    cases rest with
    | nil => exact givesOk.mpr ⟨rfl, rfl⟩
    | cons t us => simp [stops t us rfl, givesOk]
  | @more l ts g us gs head tail ih =>
    rw [List.cons_append, List.append_assoc]
    unfold branches
    simp only [if_true]
    refine givesThen (reads.complete _ _ _ head (stopsZero _)) ?_
    intro short
    refine givesThen ih ?_
    intro short
    exact givesOk.mpr ⟨rfl, rfl⟩

theorem otherwiseSound (blocks : ReadsBlock body B) {ts : List Token} {o : List Node}
    {rest : List Token} (h : Gives (otherwise line body ts) o rest) :
    ∃ pre, ts = pre ++ rest ∧ Otherwise B pre o := by
  unfold otherwise at h
  cases ts with
  | nil =>
    obtain ⟨rfl, rfl⟩ := givesOk.mp h
    exact ⟨[], rfl, .none⟩
  | cons t us =>
    simp only at h
    split at h
    · rename_i key
      obtain ⟨p, _, _, start, h⟩ := givesSplit h
      obtain ⟨b, _, _, inner, h⟩ := givesSplit h
      obtain ⟨rfl, rfl⟩ := givesOk.mp h
      cases givesExpect.mp start
      obtain ⟨pre, rfl, block⟩ := blocks.sound p _ _ _ inner
      exact ⟨⟨.keyword .otherwise, t.line⟩ :: ⟨.mark .leftParen, p⟩ :: pre, by simp [← key],
        .body block⟩
    · obtain ⟨rfl, rfl⟩ := givesOk.mp h
      exact ⟨[], rfl, .none⟩

theorem otherwiseComplete (blocks : ReadsBlock body B) {ts : List Token} {o : List Node}
    (phrase : Otherwise B ts o) {rest : List Token} (stops : Stops 6 rest) :
    Gives (otherwise line body (ts ++ rest)) o rest := by
  cases phrase with
  | none =>
    unfold otherwise
    cases rest with
    | nil => exact givesOk.mpr ⟨rfl, rfl⟩
    | cons t us =>
      have other : t.kind ≠ .keyword .otherwise := by
        intro same
        have far := stops t us rfl
        simp [same, looseness] at far
      simp [other, givesOk]
  | body block =>
    obtain ⟨p, us, rfl, inner⟩ := blocks.complete _ _ rest block
    rw [List.cons_append]
    unfold otherwise
    simp only [if_true]
    refine givesThen (givesExpect.mpr rfl) ?_
    intro short
    refine givesThen inner ?_
    intro short
    exact givesOk.mpr ⟨rfl, rfl⟩

theorem condSound (reads : Reads expression E 5) (blocks : ReadsBlock body B) {ts : List Token}
    {n : Node} {rest : List Token} (h : Gives (cond line expression body l ts) n rest) :
    ∃ pre, ts = pre ++ rest ∧ Declaration E B (⟨.keyword .cond, l⟩ :: pre) n := by
  obtain ⟨⟨c, b⟩, _, _, head, h⟩ := givesSplit h
  obtain ⟨gs, _, _, more, h⟩ := givesSplit h
  obtain ⟨o, _, _, final, h⟩ := givesSplit h
  obtain ⟨rfl, rfl⟩ := givesOk.mp h
  obtain ⟨fs, rfl, first⟩ := (guardedReads reads blocks _ _).sound _ _ _ head
  obtain ⟨ms, rfl, tail⟩ := branchesSound (guardedReads reads blocks _ _) _ more
  obtain ⟨os, rfl, last⟩ := otherwiseSound blocks final
  exact ⟨fs ++ ms ++ os, by simp, .cond first tail last⟩

theorem condComplete (reads : Reads expression E 5) (blocks : ReadsBlock body B)
    {fs ms os : List Token} {c : Node} {b : List Node} {gs : List (Branch Node)} {o : List Node}
    (first : Guarded E B fs ⟨c, b⟩) (more : Branches E B ms gs) (last : Otherwise B os o)
    {rest : List Token} (stops : Stops 6 rest) :
    Gives (cond line expression body l (fs ++ ms ++ os ++ rest)) (.cond l c b gs o) rest := by
  rw [List.append_assoc, List.append_assoc]
  refine givesThen ((guardedReads reads blocks _ _).complete _ _ _ first (stopsZero _)) ?_
  intro short
  refine givesThen (branchesComplete (guardedReads reads blocks _ _) more ?_) ?_
  · intro t us same kind
    cases last with
    | none =>
      have far := stops t us same
      simp [kind, looseness] at far
    | body block =>
      cases same
      cases kind
  intro short
  refine givesThen (otherwiseComplete blocks last stops) ?_
  intro short
  exact givesOk.mpr ⟨rfl, rfl⟩

theorem loopSound (reads : Reads expression E 5) (blocks : ReadsBlock body B) {ts : List Token}
    {n : Node} {rest : List Token} (h : Gives (loop line expression body l ts) n rest) :
    ∃ pre, ts = pre ++ rest ∧ Declaration E B (⟨.keyword .loop, l⟩ :: pre) n := by
  obtain ⟨x, _, _, name, h⟩ := givesSplit h
  obtain ⟨w, _, _, within, h⟩ := givesSplit h
  obtain ⟨i, _, _, items, h⟩ := givesSplit h
  obtain ⟨p, _, _, start, h⟩ := givesSplit h
  obtain ⟨b, _, _, inner, h⟩ := givesSplit h
  obtain ⟨rfl, rfl⟩ := givesOk.mp h
  obtain ⟨k, rfl⟩ := givesName.mp name
  cases givesExpect.mp within
  obtain ⟨is, rfl, phrase⟩ := reads.sound _ _ _ items
  cases givesExpect.mp start
  obtain ⟨pre, rfl, block⟩ := blocks.sound p _ _ _ inner
  exact ⟨[⟨.name x, k⟩] ++ ⟨.keyword .within, w⟩ :: (is ++ ⟨.mark .leftParen, p⟩ :: pre), by simp,
    .loop .mk phrase block⟩

theorem loopComplete (reads : Reads expression E 5) (blocks : ReadsBlock body B)
    {ns is bs : List Token} {x : String} {i : Node} {b : List Node} {w : Nat} (name : Name ns x)
    (items : E is i) (block : B bs b) (rest : List Token) :
    Gives (loop line expression body l (ns ++ ⟨.keyword .within, w⟩ :: (is ++ bs) ++ rest))
      (.loop l x i b) rest := by
  obtain ⟨⟩ := name
  obtain ⟨p, us, rfl, inner⟩ := blocks.complete _ _ rest block
  rw [List.append_assoc, List.cons_append, List.nil_append, List.cons_append, List.append_assoc]
  refine givesThen (givesName.mpr ⟨_, rfl⟩) ?_
  intro short
  refine givesThen (givesExpect.mpr rfl) ?_
  intro short
  refine givesThen (reads.complete _ _ _ items (stopsCons (by simp [looseness]))) ?_
  intro short
  refine givesThen (givesExpect.mpr rfl) ?_
  intro short
  refine givesThen inner ?_
  intro short
  exact givesOk.mpr ⟨rfl, rfl⟩

theorem resultSound (reads : Reads expression E 5) {ts : List Token} {n : Node} {rest : List Token}
    (h : Gives (result expression l ts) n rest) :
    ∃ pre, ts = pre ++ rest ∧ Declaration E B (⟨.keyword .result, l⟩ :: pre) n := by
  obtain ⟨v, _, _, inner, h⟩ := givesSplit h
  obtain ⟨rfl, rfl⟩ := givesOk.mp h
  obtain ⟨pre, rfl, value⟩ := reads.sound _ _ _ inner
  exact ⟨pre, rfl, .result value⟩

theorem resultComplete (reads : Reads expression E 5) {vs : List Token} {v : Node} (value : E vs v)
    {rest : List Token} (stops : Stops 5 rest) :
    Gives (result expression l (vs ++ rest)) (.result l v) rest := by
  refine givesThen (reads.complete _ _ _ value stops) ?_
  intro short
  exact givesOk.mpr ⟨rfl, rfl⟩

/- What a keyword introduces, with the keyword. -/
theorem keywordSound {k : Keyword} {rule : Nat → Rule Node} {us : List Token} {n : Node}
    {rest : List Token} {m : Nat} {narrow : us.length ≤ m}
    (sound : Gives (rule l us) n rest →
      ∃ pre, us = pre ++ rest ∧ Declaration E B (⟨.keyword k, l⟩ :: pre) n)
    (h : Gives (do let node ← rule l us; .ok (node.widen narrow)) n rest) :
    ∃ pre, ⟨.keyword k, l⟩ :: us = pre ++ rest ∧ Declaration E B pre n := by
  obtain ⟨_, _, _, inner, h⟩ := givesSplit h
  obtain ⟨rfl, rfl⟩ := givesOk.mp h
  obtain ⟨pre, same, phrase⟩ := sound inner
  exact ⟨⟨.keyword k, l⟩ :: pre, by simp [same], phrase⟩

theorem keywordComplete {rule : Nat → Rule Node} {us : List Token} {n : Node} {rest : List Token}
    {m : Nat} {narrow : us.length ≤ m} (h : Gives (rule l us) n rest) :
    Gives (do let node ← rule l us; .ok (node.widen narrow)) n rest := by
  refine givesThen h ?_
  intro short
  exact givesOk.mpr ⟨rfl, rfl⟩

theorem declarationReads (line : Nat) (opens : Opens startsExpression E)
    (reads : Reads expression E 5) (blocks : ReadsBlock body B) :
    Reads (declaration line expression body) (Declaration E B) 6 where
  sound := by
    intro ts n rest h
    cases ts with
    | nil =>
      obtain ⟨pre, same, only⟩ := reads.sound _ _ _ h
      exact ⟨pre, same, .expression only⟩
    | cons t us =>
      obtain ⟨kind, l⟩ := t
      unfold declaration at h
      simp only at h
      split at h
      · exact keywordSound (functionSound blocks) h
      · exact keywordSound (handlerSound blocks) h
      · exact keywordSound (condSound reads blocks) h
      · exact keywordSound (loopSound reads blocks) h
      · exact keywordSound (resultSound reads) h
      · obtain ⟨pre, same, only⟩ := reads.sound _ _ _ h
        exact ⟨pre, same, .expression only⟩
  complete := by
    intro pre n rest phrase stops
    cases phrase with
    | function name parameters block =>
      exact keywordComplete (functionComplete blocks name parameters block rest)
    | handler event block => exact keywordComplete (handlerComplete blocks event block rest)
    | cond first more last => exact keywordComplete (condComplete reads blocks first more last stops)
    | loop name items block => exact keywordComplete (loopComplete reads blocks name items block rest)
    | result value =>
      exact keywordComplete (resultComplete reads value (stopsTighter stops (by decide)))
    | expression only =>
      have whole := reads.complete _ _ rest only (stopsTighter stops (by decide))
      obtain ⟨⟨kind, l⟩, us, rfl, start⟩ := opens _ _ only
      cases kind with
      | keyword k => contradiction
      | _ => exact whole

end Statements

section Bodies

variable {line reach : Nat} {rule : Rule Node} {E : Derives Node} {B : Derives (List Node)}

theorem declarationsSound (reads : Reads rule (Declaration E B) reach) :
    ∀ (ts : List Token) {ns : List Node} {rest : List Token},
      Gives (declarations line rule ts) ns rest →
      ∃ pre r, ts = pre ++ ⟨.mark .rightParen, r⟩ :: rest ∧ Declarations E B pre ns
  | [], ns, rest, h => by
    unfold declarations at h
    exact absurd h givesError
  | t :: us, ns, rest, h => by
    unfold declarations at h
    split at h
    · rename_i closing
      obtain ⟨rfl, rfl⟩ := givesOk.mp h
      exact ⟨[], t.line, by simp [← closing], .nil⟩
    · obtain ⟨n, mid, short, first, h⟩ := givesSplit h
      obtain ⟨_, _, _, more, h⟩ := givesSplit h
      obtain ⟨rfl, rfl⟩ := givesOk.mp h
      obtain ⟨pre, same, head⟩ := reads.sound _ _ _ first
      obtain ⟨after, r, rfl, tail⟩ := declarationsSound reads mid more
      exact ⟨pre ++ after, r, by simp [same], .cons head tail⟩
termination_by ts => ts.length
decreasing_by exact short

/- A declaration, or whatever ends the list of them, stops the one before it. -/
theorem declarationsStop (opens : Opens startsExpression E) {ts : List Token} {ns : List Node}
    (phrase : Declarations E B ts ns) {rest : List Token} (stops : Stops 6 rest) :
    Stops 6 (ts ++ rest) := by
  cases phrase with
  | nil => exact stops
  | cons head tail =>
    exact openingStops (openingAppend (openingAppend (declarationOpens opens _ _ head) _) rest)

theorem declarationsComplete (opens : Opens startsExpression E)
    (reads : Reads rule (Declaration E B) 6) {ts : List Token} {ns : List Node}
    (phrase : Declarations E B ts ns) (r : Nat) (rest : List Token) :
    Gives (declarations line rule (ts ++ ⟨.mark .rightParen, r⟩ :: rest)) ns rest := by
  induction phrase with
  | nil =>
    unfold declarations
    simp [givesOk]
  | @cons ts n us ns head tail ih =>
    have next : Stops 6 (us ++ ⟨.mark .rightParen, r⟩ :: rest) :=
      declarationsStop opens tail (stopsCons (by simp [looseness]))
    have first := reads.complete _ _ _ head next
    obtain ⟨t, more, rfl, start⟩ := declarationOpens opens _ _ head
    have other : t.kind ≠ .mark .rightParen := by
      intro same
      simp [same, startsDeclaration, startsExpression] at start
    rw [List.append_assoc]
    unfold declarations
    simp only [List.cons_append, if_neg other]
    refine givesThen first ?_
    intro short
    refine givesThen ih ?_
    intro short
    exact givesOk.mpr ⟨rfl, rfl⟩

theorem programSound (reads : Reads rule (Declaration E B) reach) :
    ∀ (ts : List Token) {ns : List Node}, program rule ts = .ok ns → Declarations E B ts ns
  | [], ns, h => by
    unfold program at h
    cases h
    exact .nil
  | t :: us, ns, h => by
    unfold program at h
    cases first : rule (t :: us) with
    | error e => rw [first] at h; cases h
    | ok p =>
      obtain ⟨n, mid, short⟩ := p
      rw [first] at h
      cases more : program rule mid with
      | error e => simp [more, bind, Except.bind] at h
      | ok rest =>
        simp only [more, bind, Except.bind, Except.ok.injEq] at h
        subst h
        obtain ⟨pre, same, head⟩ := reads.sound _ _ _ ⟨short, first⟩
        rw [same]
        exact .cons head (programSound reads mid more)
termination_by ts => ts.length
decreasing_by exact short

theorem programComplete (opens : Opens startsExpression E) (reads : Reads rule (Declaration E B) 6)
    {ts : List Token} {ns : List Node} (phrase : Declarations E B ts ns) :
    program rule ts = .ok ns := by
  induction phrase with
  | nil => rw [program]
  | @cons ts n us ns head tail ih =>
    have next : Stops 6 (us ++ []) := declarationsStop opens tail (stopsNil 6)
    rw [List.append_nil] at next
    obtain ⟨t, more, rfl, start⟩ := declarationOpens opens _ _ head
    obtain ⟨short, first⟩ : Gives (rule (t :: (more ++ us))) n us :=
      reads.complete _ _ _ head next
    rw [List.cons_append, program, first]
    simp only [bind, Except.bind, ih]

end Bodies

theorem bodyReads (line depth : Nat) : ReadsBlock (body line depth) (Block depth) := by
  induction depth with
  | zero =>
    refine ⟨?_, ?_⟩
    · intro l us b rest h
      exact absurd h givesError
    · intro bs b rest phrase
      contradiction
  | succ depth ih =>
    have reads := declarationReads line (expressionOpens depth) (expressionReads line depth) ih
    refine ⟨?_, ?_⟩
    · intro l us b rest h
      obtain ⟨pre, r, rfl, inner⟩ := declarationsSound reads us h
      have block : Block (depth + 1) (⟨.mark .leftParen, l⟩ :: (pre ++ [⟨.mark .rightParen, r⟩])) b :=
        .mk inner
      exact ⟨_, by simp, block⟩
    · rintro _ b rest ⟨inner⟩
      refine ⟨_, _, rfl, ?_⟩
      rw [List.append_assoc]
      exact declarationsComplete (expressionOpens depth) reads inner _ rest

theorem programIff (line depth : Nat) (ts : List Token) (p : List Node) :
    program (declaration line (expression line depth) (body line depth)) ts = .ok p ↔
      Program depth ts p := by
  have reads := declarationReads line (expressionOpens depth) (expressionReads line depth)
    (bodyReads line depth)
  exact ⟨programSound reads ts, programComplete (expressionOpens depth) reads⟩

theorem beforeEndAppend {ts : List Token} (plain : ∀ t ∈ ts, t.kind ≠ .finish) (us : List Token) :
    beforeEnd (ts ++ us) = ts ++ beforeEnd us := by
  apply List.takeWhile_append_of_pos
  intro t member
  simpa using plain t member

end EventScript.Parser

namespace EventScript

theorem parseTokensIff (ts : List Token) (p : List Node) :
    parseTokens ts = .ok p ↔ Grammar.Program Parser.maxNesting (Parser.beforeEnd ts) p :=
  Parser.programIff (Parser.endLine ts) Parser.maxNesting (Parser.beforeEnd ts) p

theorem parsesExactlyTheGrammar (ts : List Token) (plain : ∀ t ∈ ts, t.kind ≠ .finish)
    (p : List Node) : parseTokens ts = .ok p ↔ Grammar.Program Parser.maxNesting ts p := by
  have whole : Parser.beforeEnd ts = ts := by
    simpa [Parser.beforeEnd] using Parser.beforeEndAppend plain []
  rw [parseTokensIff, whole]

theorem groupedConditionParses :
    Grammar.Program Parser.maxNesting
      [⟨.keyword .cond, 1⟩, ⟨.mark .leftBracket, 1⟩, ⟨.mark .leftParen, 1⟩, ⟨.name "a", 2⟩,
        ⟨.mark .rightParen, 2⟩, ⟨.mark .rightBracket, 2⟩, ⟨.mark .leftParen, 3⟩, ⟨.name "f", 4⟩,
        ⟨.mark .leftBracket, 4⟩, ⟨.text "x", 4⟩, ⟨.mark .comma, 4⟩, ⟨.mark .rightBracket, 4⟩,
        ⟨.name "b", 5⟩, ⟨.mark .star, 5⟩, ⟨.name "c", 6⟩, ⟨.mark .rightParen, 7⟩]
      [.cond 1 (.name 2 "a") [.call 4 "f" [.literal 4 (.text "x")],
        .binary 5 .multiply (.name 5 "b") (.name 6 "c")] [] []] := by
  refine (parsesExactlyTheGrammar _ (by decide) _).mp ?_
  cbv

end EventScript
