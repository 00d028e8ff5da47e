import EventScript.Proofs.Judgements

/-! The parser reports the first offending token. What it has read before that token is
the longest part of the tokens that a program can start with, since every rule is stuck
only on a token that no phrase has there, and it never looks further. -/
namespace EventScript.Parser
open Grammar

/- The whole parser, with a number of levels of nesting. -/
abbrev parsing (depth : Nat) : Reading (List Node) :=
  programReading fun s =>
    declaration s.endLine (expression s.endLine (s.spare + depth)) (body s.endLine (s.spare + depth))

theorem parsingOutcome (line depth : Nat) (ts : List Token) :
    Outcome line (parsing depth) (Program (depth + 1)) [] ts :=
  programOutcome (declarationJudged (expressionJudged line depth) (bodyJudged line depth)) ts

theorem parsingIff (depth : Nat) (s : Setting) (ts : List Token) (p : List Node) :
    parsing depth s ts = .ok (p, []) ↔ Program (s.spare + depth) ts p := by
  rw [← programIff s.endLine, parsing, programReading]
  split
  · simp_all
  · simp_all

theorem programDeeper {depth : Nat} {ts : List Token} {p : List Node} (h : Program depth ts p)
    (spare : Nat) : Program (spare + depth) ts p := by
  have here : parsing depth ⟨0, 0⟩ ts = .ok (p, []) :=
    (parsingIff depth ⟨0, 0⟩ ts p).mpr (by rwa [Nat.zero_add])
  cases parsingOutcome 0 depth ts with
  | reads pre rest v split phrase steady =>
    have found := steady ⟨0, 0⟩ rest rfl
    rw [← split, here] at found
    cases found
    rw [List.append_nil] at split
    have deeper := steady ⟨0, spare⟩ [] rfl
    rw [List.append_nil, ← split] at deeper
    exact (parsingIff depth ⟨0, spare⟩ ts p).mp deeper
  | deep l error =>
    rw [here] at error
    contradiction
  | stuck pre rest e split begins blamed error steady =>
    rw [here] at error
    contradiction

end EventScript.Parser

namespace EventScript

/- Tokens that some program starts with, however deep it nests. -/
def StartsProgram (ts : List Token) : Prop := ∃ depth, Parser.Begins (Grammar.Program depth) ts

structure LongestStart (ts : List Token) (j : Nat) : Prop where
  within : j ≤ ts.length
  starts : StartsProgram (ts.take j)
  longest : ∀ k, k ≤ ts.length → StartsProgram (ts.take k) → k ≤ j

theorem parseTokensError (ts : List Token) (e : SyntaxError) : parseTokens ts = .error e ↔
    Parser.parsing Parser.maxNesting ⟨Parser.endLine ts, 0⟩ (Parser.beforeEnd ts) = .error e := by
  rw [parseTokens, Parser.parsing, Parser.programReading, Nat.zero_add]
  split
  · simp_all
  · simp_all

theorem refusedStart {depth : Nat} {pre : List Token} {t : Token} {e : SyntaxError}
    (refused : ∀ s more, Parser.parsing depth s (pre ++ t :: more) = .error e) (us : List Token) :
    ¬ StartsProgram (pre ++ t :: us) := by
  rintro ⟨enough, more, p, program⟩
  rw [List.append_assoc, List.cons_append] at program
  -- The program may nest deeper than the parser allows, but then levels can be spared for both.
  have deeper := Parser.programDeeper program depth
  rw [Nat.add_comm] at deeper
  have read := (Parser.parsingIff depth ⟨0, enough⟩ _ p).mpr deeper
  rw [refused] at read
  contradiction

theorem longestStart {depth : Nat} {pre rest : List Token} {e : SyntaxError}
    (starts : StartsProgram pre)
    (refused : ∀ t us, rest = t :: us →
      ∀ s more, Parser.parsing depth s (pre ++ t :: more) = .error e) :
    LongestStart (pre ++ rest) pre.length where
  within := by simp
  starts := by rwa [List.take_left]
  longest := by
    intro k within further
    apply Nat.le_of_not_lt
    intro beyond
    obtain ⟨m, rfl⟩ : ∃ m, k = pre.length + (m + 1) := ⟨k - pre.length - 1, by omega⟩
    cases rest with
    | nil =>
      rw [List.append_nil] at within
      omega
    | cons t us =>
      rw [List.take_length_add_append, List.take_succ_cons] at further
      exact refusedStart (refused t us rfl) _ further

theorem sameRefusal {pre us : List Token} {t : Token} {e : SyntaxError}
    (plain : ∀ u ∈ pre ++ [t], u.kind ≠ .finish)
    (refused : ∀ s more, Parser.parsing Parser.maxNesting s (pre ++ t :: more) = .error e)
    (agree : us.take (pre.length + 1) = pre ++ [t]) : parseTokens us = .error e := by
  have before := Parser.beforeEndAppend plain (us.drop (pre.length + 1))
  rw [← agree, List.take_append_drop, agree, List.append_assoc] at before
  rw [parseTokensError, before]
  exact refused _ _

theorem rejectedAtTheFirstOffendingToken {ts : List Token} (plain : ∀ t ∈ ts, t.kind ≠ .finish)
    {e : SyntaxError} (rejected : parseTokens ts = .error e)
    (shallow : e.fault ≠ .grammar .tooDeep) :
    ∃ j, LongestStart ts j ∧
      Parser.Blames (Token.lastLine ts) StartsProgram (ts.take j) (ts.drop j) e ∧
      (j < ts.length → ∀ us, us.take (j + 1) = ts.take (j + 1) → parseTokens us = .error e) := by
  have whole : Parser.beforeEnd ts = ts := by
    simpa [Parser.beforeEnd] using Parser.beforeEndAppend plain []
  have line : Parser.endLine ts = Token.lastLine ts := by
    rw [Parser.endLine, List.find?_eq_none.mpr (by simpa using plain)]
  rw [parseTokensError, whole, line] at rejected
  cases Parser.parsingOutcome (Token.lastLine ts) Parser.maxNesting ts with
  | reads pre rest p split phrase steady =>
    have read := steady ⟨Token.lastLine ts, 0⟩ rest rfl
    rw [← split, rejected] at read
    contradiction
  | deep l error =>
    rw [rejected] at error
    cases error
    exact absurd rfl shallow
  | stuck pre rest other split begins blamed error refused =>
    rw [rejected] at error
    cases error
    have starts : ∀ us, Parser.Begins (Grammar.Program (Parser.maxNesting + 1)) us →
        StartsProgram ([] ++ us) := fun us begun => ⟨_, begun⟩
    have blamed := Parser.blamesUnder blamed starts
    subst split
    refine ⟨pre.length, longestStart (starts pre begins) refused, ?_, ?_⟩
    · rw [List.take_left, List.drop_left]
      exact blamed
    · intro more us agree
      cases rest with
      | nil => simp at more
      | cons t after =>
        rw [List.append_cons] at plain
        exact sameRefusal (fun u member => plain u (List.mem_append_left after member))
          (refused t after rfl) (agree.trans (List.take_length_add_append 1))

/- A sum is returned, on lines of its own, and then a sign follows that would assign to it. -/
def assignedSum : List Token :=
  [⟨.keyword .result, 1⟩, ⟨.name "g", 2⟩, ⟨.mark .plus, 2⟩, ⟨.name "g", 3⟩, ⟨.mark .assign, 4⟩,
    ⟨.name "g", 4⟩]

theorem assignedSumRejected :
    (∀ t ∈ assignedSum, t.kind ≠ .finish) ∧
      parseTokens assignedSum = .error ⟨.grammar (.notAssignable .binary), 2⟩ ∧
      LongestStart assignedSum 4 ∧
      ∀ us, us.take 5 = assignedSum.take 5 →
        parseTokens us = .error ⟨.grammar (.notAssignable .binary), 2⟩ := by
  have plain : ∀ t ∈ assignedSum, t.kind ≠ .finish := by decide
  have rejected : parseTokens assignedSum = .error ⟨.grammar (.notAssignable .binary), 2⟩ := by
    cbv
  obtain ⟨j, longest, blamed, same⟩ :=
    rejectedAtTheFirstOffendingToken plain rejected (by decide)
  obtain ⟨t, us, next, sign⟩ := Parser.blamesSign blamed rfl
  have four : j = 4 := by
    have found : assignedSum[j]? = some t := by rw [← List.head?_drop, next, List.head?_cons]
    have only : ∀ i < 6, (assignedSum[i]?.map Token.kind) = some (.mark .assign) → i = 4 := by decide
    have within : j < 6 := (List.getElem?_eq_some_iff.mp found).1
    exact only j within (by rw [found, Option.map_some, sign])
  subst four
  exact ⟨plain, rejected, longest, same (by decide)⟩

end EventScript
