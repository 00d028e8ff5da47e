import EventScript.Proofs.Parts
import EventScript.Proofs.Concatenation

/-! Trees follow the lines of their source. Tokens come in the order of their lines, and
a phrase that is split into parts splits the lines it spans at some line between them;
so no part starts above the node that holds it, or above the statement before it. -/
namespace EventScript

namespace Text

theorem splitLinesSome {cs : List Char} (some : cs ≠ []) : 1 ≤ (splitLines cs).length := by
  cases cs with
  | nil => contradiction
  | cons c cs =>
    simp only [splitLines]
    split
    · simp
    · split <;> simp

theorem newlinesSplit (cs ds : List Char) :
    Lexical.newlines cs + (splitLines ds).length ≤ (splitLines (cs ++ ds)).length := by
  induction cs with
  | nil => simp [Lexical.newlines]
  | cons c cs ih =>
    rw [List.cons_append, splitLines, Lexical.newlines, List.count_cons]
    rw [Lexical.newlines] at ih
    by_cases ends : c = '\n'
    · simp only [ends, beq_self_eq_true, if_true, List.length_cons]
      omega
    · simp only [ends, beq_iff_eq, if_false]
      split
      · rename_i none
        rw [none] at ih
        simp only [List.length_nil, List.length_singleton] at ih ⊢
        omega
      · rename_i head rest more
        rw [more] at ih
        simpa using ih

end Text

namespace Node

/- Statements in the order of their lines, from the given line on. -/
def ascending : Nat → List Node → Bool
  | _, [] => true
  | low, n :: ns => decide (low ≤ n.line) && ascending n.line ns

def inOrder (last : Nat) (_ : Position) (n : Node) : Bool :=
  decide (n.line ≤ last) && n.values.all (fun v => decide (n.line ≤ v.line)) &&
    n.bodies.all (ascending n.line)

theorem ascendingFrom {low high : Nat} {ns : List Node} (h : ascending high ns = true)
    (above : low ≤ high) : ascending low ns = true := by
  cases ns with
  | nil => rfl
  | cons n ns =>
    simp only [ascending, Bool.and_eq_true, decide_eq_true_eq] at h ⊢
    exact ⟨Nat.le_trans above h.1, h.2⟩

theorem ascendingMember {low : Nat} {ns : List Node} (h : ascending low ns = true) :
    ∀ n ∈ ns, low ≤ n.line := by
  induction ns generalizing low with
  | nil => exact List.forall_mem_nil _
  | cons n ns ih =>
    simp only [ascending, Bool.and_eq_true, decide_eq_true_eq] at h
    exact List.forall_mem_cons.mpr ⟨h.1, ih (ascendingFrom h.2 h.1)⟩

theorem ascendingPairwise {low : Nat} {ns : List Node} (h : ascending low ns = true) :
    ns.Pairwise fun a b => a.line ≤ b.line := by
  induction ns generalizing low with
  | nil => exact .nil
  | cons n ns ih =>
    simp only [ascending, Bool.and_eq_true] at h
    exact .cons (ascendingMember h.2) (ih h.2)

section Order

variable {last low : Nat} {position place : Position} {n c : Node} {p : List Node}

theorem inOrderIff : inOrder last position n = true ↔
    n.line ≤ last ∧ (∀ v ∈ n.values, n.line ≤ v.line) ∧ ∀ body ∈ n.bodies, ascending n.line body := by
  simp only [inOrder, Bool.and_eq_true, decide_eq_true_eq, List.all_eq_true, and_assoc]

theorem childLine (h : inOrder last position n = true) (child : Child n place c) : n.line ≤ c.line := by
  obtain ⟨_, values, bodies⟩ := inOrderIff.mp h
  cases child with
  | value member => exact values c member
  | statement list member => exact ascendingMember (bodies _ list) c member

theorem standsLine (h : obeyAll (inOrder last) .statement p = true) (ordered : ascending low p = true)
    (stands : Stands p position n) : low ≤ n.line := by
  induction stands with
  | top member => exact ascendingMember ordered _ member
  | inside outer child ih => exact Nat.le_trans ih (childLine (obeysHere (standsObeys h outer)) child)

theorem belowLine (h : n.obeys (inOrder last) position = true) (below : Below n c) :
    n.line ≤ c.line ∧ ∃ place, c.obeys (inOrder last) place = true := by
  induction below with
  | child child => exact ⟨childLine (obeysHere h) child, _, obeysChild h child⟩
  | deeper _ child ih =>
    obtain ⟨above, place, obeys⟩ := ih
    exact ⟨Nat.le_trans above (childLine (obeysHere obeys) child), _, obeysChild obeys child⟩

end Order

end Node

namespace Lexical

/- Tokens in the order of their lines, none before the first line or after the last. -/
def Spans (last : Nat) : Nat → List Token → Prop
  | first, [] => first ≤ last
  | first, t :: ts => first ≤ t.line ∧ Spans last t.line ts

variable {first last low high : Nat} {ts us : List Token}

theorem spansBounds (h : Spans last first ts) : first ≤ last := by
  induction ts generalizing first with
  | nil => exact h
  | cons t ts ih => exact Nat.le_trans h.1 (ih h.2)

theorem spansWiden (h : Spans last first ts) (below : low ≤ first) (above : last ≤ high) :
    Spans high low ts := by
  induction ts generalizing first low with
  | nil => exact Nat.le_trans below (Nat.le_trans h above)
  | cons t ts ih => exact ⟨Nat.le_trans below h.1, ih h.2 (Nat.le_refl _)⟩

theorem spansAppend (h : Spans last first (ts ++ us)) :
    ∃ middle, Spans middle first ts ∧ Spans last middle us := by
  induction ts generalizing first with
  | nil => exact ⟨first, Nat.le_refl _, h⟩
  | cons t ts ih =>
    obtain ⟨middle, before, after⟩ := ih h.2
    exact ⟨middle, ⟨h.1, before⟩, after⟩

theorem lexemeSome {lexeme after : List Char} {kind : TokenKind} (h : Lexeme lexeme kind after) :
    lexeme ≠ [] := by
  cases h with
  | @mark m => cases m <;> decide
  | @keyword k => cases k <;> decide
  | whole some => exact some
  | assign | fraction | name | text => simp

theorem cutNone {line : Nat} {cs : List Char} (h : Cut line cs ts) (none : cs = []) : ts = [] := by
  cases h with
  | finish => rfl
  | token before spells after => simp [lexemeSome spells] at none

theorem cutSpans {line : Nat} {cs : List Char} (h : Cut line cs ts)
    (room : line + (Text.splitLines cs).length ≤ last + 1) (start : first ≤ line)
    (inside : first ≤ last) : Spans last first ts := by
  induction h generalizing first with
  | finish => exact inside
  | @token line gap lexeme kind cs ts before spells after ih =>
    have upto := Text.newlinesSplit gap (lexeme ++ cs)
    have rest := Text.newlinesSplit lexeme cs
    have some : 1 ≤ (Text.splitLines (lexeme ++ cs)).length :=
      Text.splitLinesSome (by simp [lexemeSome spells])
    refine ⟨by simp only; omega, ih ?_ ?_ ?_⟩
    · rw [newlinesAppend]
      omega
    · simp only [newlinesAppend]
      omega
    · simp only
      omega

end Lexical

namespace Grammar
open Node (inOrder inOrderIff ascending ascendingFrom obeyAll obeysIff)
open Lexical (Spans spansBounds spansWiden spansAppend)

variable {α : Type} {last : Nat}

/- What a phrase means is good for every span of lines that its tokens keep to. -/
def Follows (last : Nat) (good : Nat → Nat → α → Prop) (L : Derives α) : Prop :=
  ∀ ts v, L ts v → ∀ low high, high ≤ last → Spans high low ts → good low high v

structure Placed (last : Nat) (position : Position) (low high : Nat) (n : Node) : Prop where
  first : low ≤ n.line
  final : n.line ≤ high
  obeys : n.obeys (inOrder last) position = true

structure Listed (last low : Nat) (ns : List Node) : Prop where
  ascends : ascending low ns = true
  obeys : obeyAll (inOrder last) .statement ns = true

/- The rule looks at what a node holds, and not at its own place. -/
theorem placed {low high : Nat} {position : Position} {n : Node} (first : low ≤ n.line)
    (final : n.line ≤ high) (within : high ≤ last)
    (values : ∀ v ∈ n.values, n.line ≤ v.line ∧ v.obeys (inOrder last) .operand = true)
    (bodies : ∀ body ∈ n.bodies, Listed last n.line body) : Placed last position low high n := by
  have here : inOrder last position n = true :=
    inOrderIff.mpr ⟨Nat.le_trans final within, fun v member => (values v member).1,
      fun body list => (bodies body list).ascends⟩
  have inside : n.obeys (inOrder last) position = true :=
    obeysIff.mpr ⟨here, fun v member => (values v member).2, fun body list => (bodies body list).obeys⟩
  exact ⟨first, final, inside⟩

theorem placedAlone {low high : Nat} {n : Node} (h : Placed last .operand low high n)
    (within : high ≤ last) : Placed last .statement low high n := by
  obtain ⟨here, values, bodies⟩ := obeysIff.mp h.obeys
  obtain ⟨_, lines, ascends⟩ := inOrderIff.mp here
  exact placed h.first h.final within (fun v member => ⟨lines v member, values v member⟩)
    fun body list => ⟨ascends body list, bodies body list⟩

theorem enclosedFollows {good : Nat → Nat → α → Prop} {opening closing : Mark} {L : Derives α}
    (h : Follows last good L) : Follows last good (Enclosed opening closing L) := by
  intro ts v phrase low high within spans
  obtain ⟨inner⟩ := phrase
  obtain ⟨middle, inside, rest⟩ := spansAppend spans.2
  exact h _ _ inner low high within (spansWiden inside spans.1 (spansBounds rest))

/- Each item stands somewhere in the span of all. -/
theorem separatedFollows {good : Nat → Nat → α → Prop} {I : Derives α} (h : Follows last good I) :
    Follows last (fun low high vs => ∀ v ∈ vs, good low high v) (Separated I) := by
  intro ts vs phrase low high within spans
  induction phrase with
  | one head => exact List.forall_mem_singleton.mpr (h _ _ head low high within spans)
  | more head tail ih =>
    obtain ⟨middle, before, comma, after⟩ := spansAppend spans
    have reaches := Nat.le_trans comma (spansBounds after)
    refine List.forall_mem_cons.mpr ⟨?_, ?_⟩
    · exact h _ _ head low high within (spansWiden before (Nat.le_refl _) reaches)
    · exact ih (spansWiden after (Nat.le_trans (spansBounds before) comma) (Nat.le_refl _))

theorem itemsFollow {good : Nat → Nat → α → Prop} {I : Derives α} (h : Follows last good I) :
    Follows last (fun low high vs => ∀ v ∈ vs, good low high v) (Items I) := by
  intro ts vs phrase low high within spans
  cases phrase with
  | empty => exact List.forall_mem_nil _
  | plain all => exact separatedFollows h _ _ all low high within spans
  | trailing all =>
    obtain ⟨middle, before, comma⟩ := spansAppend spans
    exact separatedFollows h _ _ all low high within
      (spansWiden before (Nat.le_refl _) (spansBounds comma))

section Expressions

variable {E : Derives Node}

theorem primaryFollows (h : Follows last (Placed last .operand) E) :
    Follows last (Placed last .operand) (Primary E) := by
  intro ts n phrase low high within spans
  cases phrase with
  | number | text | name =>
    exact placed spans.1 spans.2 within (List.forall_mem_nil _) (List.forall_mem_nil _)
  | group inner => exact enclosedFollows h _ _ inner low high within spans

theorem callFollows (lined : Lined E) (h : Follows last (Placed last .operand) E) :
    Follows last (Placed last .operand) (Call E) := by
  intro ts n phrase low high within spans
  cases phrase with
  | primary only => exact primaryFollows h _ _ only low high within spans
  | @apply ts us l k f vs callee arguments line =>
    obtain ⟨middle, before, after⟩ := spansAppend spans
    have reaches := spansBounds after
    have name := primaryFollows h _ _ callee low middle (Nat.le_trans reaches within) before
    have values := enclosedFollows (itemsFollow h) _ _ arguments middle high within after
    have same : k = l := by
      rw [startLineAppend (primaryLined lined _ _ callee)] at line
      exact (Option.some.inj line).symm
    subst same
    refine placed name.first (Nat.le_trans name.final reaches) within ?_ (List.forall_mem_nil _)
    intro v member
    exact ⟨Nat.le_trans name.final (values v member).first, (values v member).obeys⟩

theorem levelFollows {marks : List (Mark × BinaryOp)} {first operand : Derives Node}
    (lined : Lined first) (hf : Follows last (Placed last .operand) first)
    (ho : Follows last (Placed last .operand) operand) :
    Follows last (Placed last .operand) (Level marks first operand) := by
  intro ts n phrase
  induction phrase with
  | first only => exact hf _ _ only
  | @more ts us l r k m op o left known right line ih =>
    intro low high within spans
    obtain ⟨middle, before, mark, after⟩ := spansAppend spans
    have reaches := Nat.le_trans mark (spansBounds after)
    have leftmost := ih low middle (Nat.le_trans reaches within) before
    have rightmost := ho _ _ right o high within after
    have same : k = l.line := by
      rw [startLineAppend (levelLined lined _ _ left)] at line
      exact (Option.some.inj line).symm
    subst same
    refine placed leftmost.first (Nat.le_trans leftmost.final reaches) within ?_ (List.forall_mem_nil _)
    refine List.forall_mem_cons.mpr ⟨⟨Nat.le_refl _, leftmost.obeys⟩, List.forall_mem_singleton.mpr ?_⟩
    exact ⟨Nat.le_trans leftmost.final (Nat.le_trans mark rightmost.first), rightmost.obeys⟩

theorem comparisonFollows (lined : Lined E) (h : Follows last (Placed last .operand) E) :
    Follows last (Placed last .operand) (Comparison E) := by
  have callLine := callLined lined
  have product : Follows last (Placed last .operand) (Product E) :=
    levelFollows callLine (callFollows lined h) (primaryFollows h)
  have sum : Follows last (Placed last .operand) (Sum E) :=
    levelFollows (levelLined callLine) product product
  exact levelFollows (levelLined (levelLined callLine)) sum sum

theorem assignmentFollows (lined : Lined E) (h : Follows last (Placed last .operand) E) :
    Follows last (Placed last .operand) (Assignment E) := by
  intro ts n phrase low high within spans
  cases phrase with
  | plain only => exact comparisonFollows lined h _ _ only low high within spans
  | @assign ts us l k x v o target value line =>
    obtain ⟨middle, before, mark, after⟩ := spansAppend spans
    have reaches := Nat.le_trans mark (spansBounds after)
    have name := comparisonFollows lined h _ _ target low middle (Nat.le_trans reaches within) before
    have assigned := h _ _ value o high within after
    have same : k = l := by
      rw [startLineAppend (comparisonLined lined _ _ target)] at line
      exact (Option.some.inj line).symm
    subst same
    refine placed name.first (Nat.le_trans name.final reaches) within ?_ (List.forall_mem_nil _)
    refine List.forall_mem_singleton.mpr ⟨?_, assigned.obeys⟩
    exact Nat.le_trans name.final (Nat.le_trans mark assigned.first)

end Expressions

theorem expressionFollows (depth : Nat) : Follows last (Placed last .operand) (Expression depth) := by
  induction depth with
  | zero =>
    intro ts n phrase
    contradiction
  | succ depth ih => exact assignmentFollows (expressionLined depth) ih

section Statements

variable {E : Derives Node} {B : Derives (List Node)}

theorem guardedFollows (hE : Follows last (Placed last .operand) E)
    (hB : Follows last (fun low _ => Listed last low) B) :
    Follows last (fun low high b => Placed last .operand low high b.condition ∧ Listed last low b.body)
      (Guarded E B) := by
  intro ts b phrase low high within spans
  obtain ⟨condition, body⟩ := phrase
  obtain ⟨middle, before, after⟩ := spansAppend spans
  constructor
  · exact enclosedFollows hE _ _ condition low high within
      (spansWiden before (Nat.le_refl _) (spansBounds after))
  · exact hB _ _ body low high within (spansWiden after (spansBounds before) (Nat.le_refl _))

theorem branchesFollow (hE : Follows last (Placed last .operand) E)
    (hB : Follows last (fun low _ => Listed last low) B) :
    Follows last (fun low high bs => ∀ b ∈ bs,
      Placed last .operand low high b.condition ∧ Listed last low b.body) (Branches E B) := by
  intro ts bs phrase low high within spans
  induction phrase with
  | none => exact List.forall_mem_nil _
  | more head tail ih =>
    obtain ⟨middle, before, after⟩ := spansAppend spans.2
    refine List.forall_mem_cons.mpr ⟨?_, ?_⟩
    · exact guardedFollows hE hB _ _ head low high within
        (spansWiden before spans.1 (spansBounds after))
    · exact ih (spansWiden after (Nat.le_trans spans.1 (spansBounds before)) (Nat.le_refl _))

theorem otherwiseFollows (hB : Follows last (fun low _ => Listed last low) B) :
    Follows last (fun low _ => Listed last low) (Otherwise B) := by
  intro ts ns phrase low high within spans
  cases phrase with
  | none => exact ⟨rfl, rfl⟩
  | body block => exact hB _ _ block low high within (spansWiden spans.2 spans.1 (Nat.le_refl _))

/- The line of a declaration is that of its keyword, and all its parts come after it. -/
theorem declarationFollows (hE : Follows last (Placed last .operand) E)
    (hB : Follows last (fun low _ => Listed last low) B) :
    Follows last (Placed last .statement) (Declaration E B) := by
  intro ts n phrase low high within spans
  cases phrase with
  | function name parameters body =>
    obtain ⟨middle, before, after⟩ := spansAppend spans.2
    have inside := hB _ _ body _ high within (spansWiden after (spansBounds before) (Nat.le_refl _))
    exact placed spans.1 (spansBounds spans.2) within (List.forall_mem_nil _)
      (List.forall_mem_singleton.mpr inside)
  | handler event body =>
    obtain ⟨middle, before, after⟩ := spansAppend spans.2
    have inside := hB _ _ body _ high within (spansWiden after (spansBounds before) (Nat.le_refl _))
    exact placed spans.1 (spansBounds spans.2) within (List.forall_mem_nil _)
      (List.forall_mem_singleton.mpr inside)
  | cond first more otherwise =>
    obtain ⟨middle, front, back⟩ := spansAppend spans.2
    obtain ⟨quarter, head, branches⟩ := spansAppend front
    have reaches := spansBounds back
    have guarded := guardedFollows hE hB _ _ first _ high within
      (spansWiden head (Nat.le_refl _) (Nat.le_trans (spansBounds branches) reaches))
    have rest := branchesFollow hE hB _ _ more _ high within
      (spansWiden branches (spansBounds head) reaches)
    have closing := otherwiseFollows hB _ _ otherwise _ high within
      (spansWiden back (spansBounds front) (Nat.le_refl _))
    refine placed spans.1 (spansBounds spans.2) within ?_ ?_
    · refine List.forall_mem_cons.mpr ⟨⟨guarded.1.first, guarded.1.obeys⟩, ?_⟩
      rw [List.forall_mem_map]
      exact fun g member => ⟨(rest g member).1.first, (rest g member).1.obeys⟩
    · refine List.forall_mem_cons.mpr ⟨guarded.2, List.forall_mem_cons.mpr ⟨closing, ?_⟩⟩
      rw [List.forall_mem_map]
      exact fun g member => (rest g member).2
  | loop name items body =>
    obtain ⟨middle, front, keyword, back⟩ := spansAppend spans.2
    obtain ⟨later, source, after⟩ := spansAppend back
    have start := Nat.le_trans (spansBounds front) keyword
    have iterated := hE _ _ items _ high within (spansWiden source start (spansBounds after))
    have inside := hB _ _ body _ high within
      (spansWiden after (Nat.le_trans start (spansBounds source)) (Nat.le_refl _))
    exact placed spans.1 (spansBounds spans.2) within
      (List.forall_mem_singleton.mpr ⟨iterated.first, iterated.obeys⟩)
      (List.forall_mem_singleton.mpr inside)
  | result value =>
    have given := hE _ _ value _ high within spans.2
    exact placed spans.1 (spansBounds spans.2) within
      (List.forall_mem_singleton.mpr ⟨given.first, given.obeys⟩) (List.forall_mem_nil _)
  | expression only => exact placedAlone (hE _ _ only low high within spans) within

theorem declarationsFollow (hE : Follows last (Placed last .operand) E)
    (hB : Follows last (fun low _ => Listed last low) B) :
    Follows last (fun low _ => Listed last low) (Declarations E B) := by
  intro ts ns phrase low high within spans
  induction phrase generalizing low with
  | nil => exact ⟨rfl, rfl⟩
  | cons head tail ih =>
    obtain ⟨middle, before, after⟩ := spansAppend spans
    have here := declarationFollows hE hB _ _ head low middle
      (Nat.le_trans (spansBounds after) within) before
    have rest := ih middle after
    constructor
    · simp only [ascending, Bool.and_eq_true, decide_eq_true_eq]
      exact ⟨here.first, ascendingFrom rest.ascends here.final⟩
    · simp only [obeyAll, here.obeys, rest.obeys, Bool.and_self]

end Statements

theorem blockFollows (depth : Nat) : Follows last (fun low _ => Listed last low) (Block depth) := by
  induction depth with
  | zero =>
    intro ts n phrase
    contradiction
  | succ depth ih => exact enclosedFollows (declarationsFollow (expressionFollows depth) ih)

theorem programFollows (depth : Nat) : Follows last (fun low _ => Listed last low) (Program depth) :=
  declarationsFollow (expressionFollows depth) (blockFollows depth)

theorem programNone {depth : Nat} {ts : List Token} {p : List Node} (h : Program depth ts p)
    (none : ts = []) : p = [] := by
  cases h with
  | nil => rfl
  | cons head tail =>
    obtain ⟨t, us, rfl, _⟩ := declarationOpens (expressionOpens depth) _ _ head
    contradiction

end Grammar

theorem parseListed {source : String} {p : List Node} (h : parse source = .ok p) :
    Grammar.Listed (Text.lines source.toList).length 1 p := by
  obtain ⟨ts, cut, phrase⟩ := (parseIff source p).mp h
  by_cases none : ts = []
  · rw [Grammar.programNone phrase none]
    exact ⟨rfl, rfl⟩
  · rw [Text.lines, List.length_map]
    have some : source.toList ≠ [] := by
      intro empty
      exact none (Lexical.cutNone cut empty)
    have spans : Lexical.Spans (Text.splitLines source.toList).length 1 ts :=
      Lexical.cutSpans cut (by omega) (Nat.le_refl _) (Text.splitLinesSome some)
    exact Grammar.programFollows _ _ _ phrase 1 _ (Nat.le_refl _) spans

end EventScript
