import EventScript.Proofs.Arrangement
import EventScript.Proofs.Fallbacks
import EventScript.Proofs.WellFormed

/-! What the parser promises to those who read its trees. -/
namespace EventScript

open Lexical (StartsWord InWord)

def FreeWord (s : String) : Prop :=
  ∃ c cs, s = String.ofList (c :: cs) ∧ StartsWord c ∧ (∀ d ∈ cs, InWord d) ∧
    ∀ k : Keyword, k.spelling ≠ s

theorem nameFreeWord {s : String} (h : isName s = true) : FreeWord s := by
  simp only [isName, isWord, Bool.and_eq_true, Option.isNone_iff_eq_none] at h
  obtain ⟨word, free⟩ := h
  cases spelled : s.toList with
  | nil => simp [spelled] at word
  | cons c cs =>
    simp only [spelled, Bool.and_eq_true, List.all_eq_true] at word
    refine ⟨c, cs, ?_, (Lexer.wordStartIff c).mp word.1, ?_, (Lexer.keywordNone s).mp free⟩
    · rw [← spelled, String.ofList_toList]
    · exact fun d member => (Lexer.wordCharIff d).mp (word.2 d member)

namespace Node

variable {position : Position} {n : Node}

theorem operandExpression (h : wellFormed .operand n = true) : n.isExpression = true := by
  cases n with
  | literal | name | binary | assign | call => rfl
  | function | cond | loop | handler | result => contradiction

theorem namesFree (h : wellFormed position n = true) : ∀ x ∈ n.spelledNames, FreeWord x := by
  intro x member
  cases n with
  | literal | binary | cond | result => contradiction
  | name | assign | call =>
    rw [List.mem_singleton.mp member]
    exact nameFreeWord h
  | loop | handler =>
    rw [List.mem_singleton.mp member]
    cases position with
    | statement => exact nameFreeWord h
    | operand => contradiction
  | function line s parameters body =>
    cases position with
    | operand => contradiction
    | statement =>
      simp only [wellFormed, Bool.and_eq_true, List.all_eq_true] at h
      rcases List.mem_cons.mp member with rfl | member
      · exact nameFreeWord h.1
      · exact nameFreeWord (h.2 x member)

theorem numberUnsigned {line : Nat} {v : Number}
    (h : wellFormed position (.literal line (.number v)) = true) :
    ∃ rank bounded, v = .signed false rank bounded := by
  have unsigned : v.isUnsigned = true := by
    cases position <;> exact h
  cases v with
  | nan => contradiction
  | signed negative rank bounded =>
    cases negative with
    | true => contradiction
    | false => exact ⟨rank, bounded, rfl⟩

end Node

/- Programs come from the parser, and the functions that the host binds are well formed. -/
def Operation.Sourced : Operation → Prop
  | load program => ∃ source, parse source = .ok program
  | op => op.obeys Node.wellFormed = true

theorem sourcedObeys {op : Operation} (h : op.Sourced) : op.obeys Node.wellFormed = true := by
  cases op with
  | load program =>
    obtain ⟨source, parsed⟩ := h
    exact parseWellFormed parsed
  | bind | dispatch | launch | pressKey => exact h

theorem afterObeys {ops : List Operation} {m : Machine} (sourced : ∀ op ∈ ops, op.Sourced)
    (obeys : m.Obeys Node.wellFormed) : (m.after ops).Obeys Node.wellFormed :=
  Machine.afterObeys (fun op member => sourcedObeys (sourced op member)) obeys

/- The lists of statements of a program: its own, and those inside it. -/
inductive Node.StatementList (p : List Node) : List Node → Prop where
  | top : StatementList p p
  | inside {position n body} (outer : Stands p position n) (list : body ∈ n.bodies) :
      StatementList p body

theorem listsAscend {last : Nat} {p ns : List Node} (listed : Grammar.Listed last 1 p)
    (h : Node.StatementList p ns) : ns.Pairwise fun a b => a.line ≤ b.line := by
  cases h with
  | top => exact Node.ascendingPairwise listed.ascends
  | inside outer list =>
    have order := Node.obeysHere (Node.standsObeys listed.obeys outer)
    exact Node.ascendingPairwise ((Node.inOrderIff.mp order).2.2 _ list)

theorem standsExpression {p : List Node} (h : Node.obeyAll Node.wellFormed .statement p = true)
    {n : Node} (stands : Node.Stands p .operand n) : n.isExpression = true :=
  Node.operandExpression (Node.obeysHere (Node.standsObeys h stands))

/- Every part of a tree that the parser gives is as it should be, and so no way to write or
to do a statement where a value is used makes a difference: for these trees, and for what
sessions made of such trees come to run. -/
theorem parsedTreesAreWellFormed {source : String} {p : List Node} (parsed : parse source = .ok p) :
    (∀ n, Node.Stands p .operand n → n.isExpression = true) ∧
    (∀ position n, Node.Stands p position n →
      (∀ x ∈ n.spelledNames, FreeWord x) ∧
      (∀ line v, n = .literal line (.number v) → ∃ rank bounded, v = .signed false rank bounded) ∧
      (1 ≤ n.line ∧ n.line ≤ (Text.lines source.toList).length) ∧
      ∀ c, Node.Below n c → n.line ≤ c.line) ∧
    (∀ ns, Node.StatementList p ns → ns.Pairwise fun a b => a.line ≤ b.line) ∧
    (∀ options : EmitOptions,
      (∀ q, Emit.programOr (Emit.node options.indent .statement) options q = Emit.program options q) ∧
      ∀ fallback, Emit.programOr fallback options p = Emit.program options p) ∧
    (∀ (op : Operation) m, op.runOr Evaluation.asStatement m = op.run m) ∧
    ∀ answers patience ops, (∀ op ∈ ops, op.Sourced) → ∀ op : Operation, op.Sourced →
      let m := (Machine.start answers patience).after ops
      (∀ fallback, op.runOr fallback m = op.run m) ∧
      (∀ k e scope n, op.Passes m ⟨k, .node .operand e scope, n⟩ → e.isExpression = true) ∧
      ∀ k c arguments n, op.Passes m ⟨k, .closure c arguments, n⟩ →
        ∀ e, Node.Stands c.body .operand e → e.isExpression = true := by
  have shape := parseWellFormed parsed
  have listed := parseListed parsed
  refine ⟨fun n => standsExpression shape, ?_, fun ns => listsAscend listed, ?_,
    Operation.runOwn, ?_⟩
  · intro position n stands
    have here := Node.obeysHere (Node.standsObeys shape stands)
    have ordered := Node.standsObeys listed.obeys stands
    refine ⟨Node.namesFree here, ?_, ?_, fun c below => (Node.belowLine ordered below).1⟩
    · rintro line v rfl
      exact Node.numberUnsigned here
    · exact ⟨Node.standsLine listed.obeys listed.ascends stands,
        (Node.inOrderIff.mp (Node.obeysHere ordered)).1⟩
  · intro options
    refine ⟨Emit.programOwn options, ?_⟩
    intro fallback
    exact Emit.programOrSame (fun n operand => .inl (Node.operandExpression operand)) shape
  · intro answers patience ops sourced op given m
    have obeys : m.Obeys Node.wellFormed := afterObeys sourced (startObeys _ answers patience)
    have rule := sourcedObeys given
    refine ⟨?_, ?_, ?_⟩
    · intro fallback
      exact Operation.runOrSame (fun n operand => .inl (Node.operandExpression operand)) rule obeys
    · intro k e scope n passes
      exact Node.operandExpression (Node.obeysHere (Operation.passesAdmitted rule obeys passes).suits.1)
    · intro k c arguments n passes e stands
      obtain ⟨⟨_, body⟩, _⟩ := (Operation.passesAdmitted rule obeys passes).suits
      exact standsExpression body stands

/- The argument of the call is an assignment, whose value is a name. -/
theorem keepingWellFormed :
    parse "function f[a](g=a)\nf[h=f]" = .ok keepingTree ∧
      Node.Stands keepingTree .operand (.assign 2 "h" (.name 2 "f")) ∧
      (Node.assign 2 "h" (.name 2 "f")).isExpression = true ∧ FreeWord "h" ∧
      (∀ fallback, Emit.programOr fallback .default keepingTree = Emit.program .default keepingTree) ∧
      ∀ patience fallback, (Operation.load keepingTree).runOr fallback (Machine.start [] patience) =
        (Operation.load keepingTree).run (Machine.start [] patience) := by
  have call : Node.Stands keepingTree .statement (.call 2 "f" [.assign 2 "h" (.name 2 "f")]) :=
    .top (List.mem_cons_of_mem _ List.mem_cons_self)
  have argument : Node.Stands keepingTree .operand (.assign 2 "h" (.name 2 "f")) :=
    .inside call (.value List.mem_cons_self)
  obtain ⟨expressions, parts, _, texts, _, runs⟩ := parsedTreesAreWellFormed keepingParses
  have loads : (Operation.load keepingTree).Sourced := ⟨_, keepingParses⟩
  refine ⟨keepingParses, argument, expressions _ argument, ?_, (texts .default).2, ?_⟩
  · exact (parts _ _ argument).1 "h" List.mem_cons_self
  · intro patience
    exact (runs [] patience [] (List.forall_mem_nil _) _ loads).1

end EventScript
