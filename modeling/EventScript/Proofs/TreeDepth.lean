import EventScript.Proofs.Parts
import EventScript.Proofs.WellFormed

/-! How deep the trees of accepted sources are. Every expression and every body that
stands inside another one is counted by the parser, and between two of them a tree goes
down three times at most, left operands aside. A chain of operators goes down on its
left once for each operator, and nothing counts those. -/
namespace EventScript

namespace Node

inductive AtDepth (p : List Node) : Nat → Node → Prop where
  | top {n} (member : n ∈ p) : AtDepth p 0 n
  | inside {k n place c} (outer : AtDepth p k n) (child : Child n place c) : AtDepth p (k + 1) c

def leftOperands : Node → List Node
  | binary _ _ left _ => [left]
  | _ => []

/- All that a node holds itself, left operands aside. -/
def otherParts : Node → List Node
  | binary _ _ _ right => [right]
  | n => n.values ++ n.bodies.flatten

theorem childParts {n c : Node} {place : Position} (child : Child n place c) :
    c ∈ n.leftOperands ∨ c ∈ n.otherParts := by
  cases n with
  | binary line op left right =>
    cases child with
    | value member => simpa [values, leftOperands, otherParts] using member
    | statement list => contradiction
  | _ =>
    right
    cases child with
    | value member => exact List.mem_append_left _ member
    | statement list member => exact List.mem_append_right _ (List.mem_flatten_of_mem list member)

theorem leftChild {n a : Node} (member : a ∈ n.leftOperands) : Child n .operand a := by
  cases n with
  | binary line op left right =>
    rw [List.mem_singleton.mp member]
    exact .value List.mem_cons_self
  | _ => contradiction

theorem otherChild {n b : Node} (member : b ∈ n.otherParts) : ∃ place, Child n place b := by
  cases n with
  | binary line op left right =>
    rw [List.mem_singleton.mp member]
    exact ⟨.operand, .value (List.mem_cons_of_mem _ List.mem_cons_self)⟩
  | _ =>
    rcases List.mem_append.mp member with value | statement
    · exact ⟨.operand, .value value⟩
    · obtain ⟨body, list, inside⟩ := List.mem_flatten.mp statement
      exact ⟨.statement, .statement list inside⟩

/- A way down, with its steps to left operands and its other steps. -/
inductive Down : Node → Nat → Nat → Node → Prop where
  | here {n} : Down n 0 0 n
  | left {n a lefts others c} (first : a ∈ n.leftOperands) (rest : Down a lefts others c) :
      Down n (lefts + 1) others c
  | other {n b lefts others c} (first : b ∈ n.otherParts) (rest : Down b lefts others c) :
      Down n lefts (others + 1) c

theorem downLeft {n b c : Node} {lefts others : Nat} (down : Down n lefts others b)
    (last : c ∈ b.leftOperands) : Down n (lefts + 1) others c := by
  induction down with
  | here => exact .left last .here
  | left first _ ih => exact .left first (ih last)
  | other first _ ih => exact .other first (ih last)

theorem downOther {n b c : Node} {lefts others : Nat} (down : Down n lefts others b)
    (last : c ∈ b.otherParts) : Down n lefts (others + 1) c := by
  induction down with
  | here => exact .other last .here
  | left first _ ih => exact .left first (ih last)
  | other first _ ih => exact .other first (ih last)

theorem depthDown {p : List Node} {k : Nat} {c : Node} (depth : AtDepth p k c) :
    ∃ n ∈ p, ∃ lefts others, Down n lefts others c ∧ k = lefts + others := by
  induction depth with
  | top member => exact ⟨_, member, 0, 0, .here, rfl⟩
  | inside _ child ih =>
    obtain ⟨n, member, lefts, others, down, rfl⟩ := ih
    rcases childParts child with left | other
    · exact ⟨n, member, lefts + 1, others, downLeft down left, by omega⟩
    · exact ⟨n, member, lefts, others + 1, downOther down other, by omega⟩

theorem downDepth {p : List Node} {n c : Node} {k lefts others : Nat} (depth : AtDepth p k n)
    (down : Down n lefts others c) : ∃ j, AtDepth p j c := by
  induction down generalizing k with
  | here => exact ⟨k, depth⟩
  | left first _ ih => exact ih (.inside depth (leftChild first))
  | other first _ ih =>
    obtain ⟨place, child⟩ := otherChild first
    exact ih (.inside depth child)

inductive LeansLeft : Node → Nat → Prop where
  | none {n} : LeansLeft n 0
  | more {n a r} (first : a ∈ n.leftOperands) (rest : LeansLeft a r) : LeansLeft n (r + 1)

theorem leansDepth {p : List Node} {n : Node} {k r : Nat} (depth : AtDepth p k n)
    (leans : LeansLeft n r) : ∃ c, AtDepth p (k + r) c := by
  induction leans generalizing k with
  | none => exact ⟨_, depth⟩
  | @more n a r first _ ih =>
    obtain ⟨c, below⟩ := ih (.inside depth (leftChild first))
    rw [Nat.add_assoc, Nat.add_comm 1 r] at below
    exact ⟨c, below⟩

def DepthWithin (p : List Node) (bound : Nat) : Prop := ∀ k n, AtDepth p k n → k ≤ bound

def ChainsWithin (p : List Node) (bound : Nat) : Prop :=
  ∀ k n r, AtDepth p k n → n.LeansLeft r → r ≤ bound

/- Steps to left operands come in runs, one before each other step and one at the end. -/
theorem downLefts {n c : Node} {lefts others r : Nat} (down : Down n lefts others c)
    (leans : ∀ b l o s, Down n l o b → LeansLeft b s → s ≤ r) :
    ∃ s, LeansLeft n s ∧ lefts ≤ s + r * others := by
  induction down with
  | here => exact ⟨0, .none, Nat.le_refl _⟩
  | left first _ ih =>
    obtain ⟨s, run, bound⟩ := ih fun b l o s below => leans b (l + 1) o s (.left first below)
    exact ⟨s + 1, .more first run, by omega⟩
  | @other n b lefts others c first _ ih =>
    obtain ⟨s, run, bound⟩ := ih fun b l o s below => leans b l (o + 1) s (.other first below)
    have short := leans b 0 1 s (.other first .here) run
    refine ⟨0, .none, ?_⟩
    rw [Nat.mul_succ]
    omega

end Node

namespace Grammar
open Node (Down leftOperands otherParts)

/- No way down from the node has more steps than this, left operands aside. -/
def Spreads (k : Nat) (n : Node) : Prop := ∀ lefts others c, Down n lefts others c → others ≤ k

theorem spreadsMore {n : Node} {j k : Nat} (h : Spreads j n) (le : j ≤ k) : Spreads k n :=
  fun lefts others c down => Nat.le_trans (h lefts others c down) le

theorem spreadsLeaf {n : Node} (lefts : n.leftOperands = []) (others : n.otherParts = [])
    (k : Nat) : Spreads k n := by
  intro l o c down
  cases down with
  | here => exact Nat.zero_le k
  | left first => simp [lefts] at first
  | other first => simp [others] at first

theorem spreadsNode {n : Node} {k : Nat} (lefts : ∀ a ∈ n.leftOperands, Spreads (k + 1) a)
    (others : ∀ b ∈ n.otherParts, Spreads k b) : Spreads (k + 1) n := by
  intro l o c down
  cases down with
  | here => exact Nat.zero_le _
  | left first rest => exact lefts _ first _ _ _ rest
  | other first rest => exact Nat.succ_le_succ (others _ first _ _ _ rest)

theorem spreadsParts {n : Node} {k : Nat} (lefts : n.leftOperands = [])
    (others : n.otherParts = n.values ++ n.bodies.flatten) (values : ∀ v ∈ n.values, Spreads k v)
    (bodies : ∀ body ∈ n.bodies, ∀ c ∈ body, Spreads k c) : Spreads (k + 1) n := by
  refine spreadsNode (by simp [lefts]) ?_
  rw [others, List.forall_mem_append]
  refine ⟨values, ?_⟩
  intro c member
  obtain ⟨body, list, inside⟩ := List.mem_flatten.mp member
  exact bodies body list c inside

section Expressions

variable {E : Derives Node} {k : Nat}

theorem primarySpreads (h : Yields (Spreads k) E) : Yields (Spreads k) (Primary E) := by
  intro ts n phrase sound
  cases phrase with
  | number | text | name => exact spreadsLeaf rfl rfl k
  | group inner => exact enclosedYields h _ _ inner sound

theorem callSpreads (h : Yields (Spreads k) E) : Yields (Spreads (k + 1)) (Call E) := by
  intro ts n phrase sound
  cases phrase with
  | primary only => exact spreadsMore (primarySpreads h _ _ only sound) (Nat.le_succ k)
  | apply callee arguments line =>
    simp only [List.forall_mem_append] at sound
    have values := enclosedYields (itemsYield h) _ _ arguments sound.2
    exact spreadsParts rfl rfl values (List.forall_mem_nil _)

theorem levelSpreads {marks : List (Mark × BinaryOp)} {first operand : Derives Node}
    (hf : Yields (Spreads (k + 1)) first) (ho : Yields (Spreads k) operand) :
    Yields (Spreads (k + 1)) (Level marks first operand) := by
  intro ts n phrase sound
  induction phrase with
  | first only => exact hf _ _ only sound
  | more left known right line ih =>
    simp only [List.forall_mem_append, List.forall_mem_cons] at sound
    exact spreadsNode (List.forall_mem_singleton.mpr (ih sound.1))
      (List.forall_mem_singleton.mpr (ho _ _ right sound.2.2))

theorem comparisonSpreads (h : Yields (Spreads k) E) :
    Yields (Spreads (k + 3)) (Comparison E) := by
  have more : ∀ {L : Derives Node} {j}, Yields (Spreads j) L → Yields (Spreads (j + 1)) L :=
    fun yields ts n phrase sound => spreadsMore (yields ts n phrase sound) (Nat.le_succ _)
  have product : Yields (Spreads (k + 1)) (Product E) :=
    levelSpreads (callSpreads h) (primarySpreads h)
  have sum : Yields (Spreads (k + 2)) (Sum E) := levelSpreads (more product) product
  exact levelSpreads (more sum) sum

theorem assignmentSpreads (h : Yields (Spreads k) E) :
    Yields (Spreads (k + 3)) (Assignment E) := by
  intro ts n phrase sound
  cases phrase with
  | plain only => exact comparisonSpreads h _ _ only sound
  | assign target value line =>
    simp only [List.forall_mem_append, List.forall_mem_cons] at sound
    have assigned := List.forall_mem_singleton.mpr (h _ _ value sound.2.2)
    exact spreadsMore (spreadsParts rfl rfl assigned (List.forall_mem_nil _)) (by omega)

end Expressions

theorem expressionSpreads (depth : Nat) : Yields (Spreads (3 * depth)) (Expression depth) := by
  induction depth with
  | zero =>
    intro ts n phrase
    contradiction
  | succ depth ih => exact assignmentSpreads ih

section Statements

variable {E : Derives Node} {B : Derives (List Node)} {k : Nat}

def SpreadAll (k : Nat) (ns : List Node) : Prop := ∀ n ∈ ns, Spreads k n

theorem guardedSpreads (hE : Yields (Spreads k) E) (hB : Yields (SpreadAll k) B) :
    Yields (fun b => Spreads k b.condition ∧ SpreadAll k b.body) (Guarded E B) := by
  intro ts b phrase sound
  obtain ⟨condition, body⟩ := phrase
  simp only [List.forall_mem_append] at sound
  exact ⟨enclosedYields hE _ _ condition sound.1, hB _ _ body sound.2⟩

theorem branchesSpread (hE : Yields (Spreads k) E) (hB : Yields (SpreadAll k) B) :
    Yields (fun bs => ∀ b ∈ bs, Spreads k b.condition ∧ SpreadAll k b.body) (Branches E B) := by
  intro ts bs phrase sound
  induction phrase with
  | none => exact List.forall_mem_nil _
  | more head tail ih =>
    simp only [List.forall_mem_append, List.forall_mem_cons] at sound
    exact List.forall_mem_cons.mpr ⟨guardedSpreads hE hB _ _ head sound.2.1, ih sound.2.2⟩

theorem otherwiseSpreads (hB : Yields (SpreadAll k) B) : Yields (SpreadAll k) (Otherwise B) := by
  intro ts ns phrase sound
  cases phrase with
  | none => exact List.forall_mem_nil _
  | body block =>
    simp only [List.forall_mem_cons] at sound
    exact hB _ _ block sound.2

theorem declarationSpreads (hE : Yields (Spreads k) E) (hB : Yields (SpreadAll k) B) :
    Yields (Spreads (k + 1)) (Declaration E B) := by
  intro ts n phrase sound
  cases phrase with
  | function name parameters body =>
    simp only [List.forall_mem_cons, List.forall_mem_append] at sound
    have inside := List.forall_mem_singleton.mpr (hB _ _ body sound.2.2)
    exact spreadsParts rfl rfl (List.forall_mem_nil _) inside
  | handler event body =>
    simp only [List.forall_mem_cons, List.forall_mem_append] at sound
    have inside := List.forall_mem_singleton.mpr (hB _ _ body sound.2.2)
    exact spreadsParts rfl rfl (List.forall_mem_nil _) inside
  | cond first more last =>
    simp only [List.forall_mem_cons, List.forall_mem_append] at sound
    have guarded := guardedSpreads hE hB _ _ first sound.2.1.1
    have branches := branchesSpread hE hB _ _ more sound.2.1.2
    have otherwise := otherwiseSpreads hB _ _ last sound.2.2
    refine spreadsParts rfl rfl ?_ ?_
    · rw [Node.values, List.forall_mem_cons, List.forall_mem_map]
      exact ⟨guarded.1, fun b member => (branches b member).1⟩
    · rw [Node.bodies, List.forall_mem_cons, List.forall_mem_cons, List.forall_mem_map]
      exact ⟨guarded.2, otherwise, fun b member => (branches b member).2⟩
  | loop name items body =>
    simp only [List.forall_mem_cons, List.forall_mem_append] at sound
    have source := List.forall_mem_singleton.mpr (hE _ _ items sound.2.2.2.1)
    have inside := List.forall_mem_singleton.mpr (hB _ _ body sound.2.2.2.2)
    exact spreadsParts rfl rfl source inside
  | result value =>
    simp only [List.forall_mem_cons] at sound
    have given := List.forall_mem_singleton.mpr (hE _ _ value sound.2)
    exact spreadsParts rfl rfl given (List.forall_mem_nil _)
  | expression only => exact spreadsMore (hE _ _ only sound) (Nat.le_succ k)

theorem declarationsSpread (hE : Yields (Spreads k) E) (hB : Yields (SpreadAll k) B) :
    Yields (SpreadAll (k + 1)) (Declarations E B) := by
  intro ts ns phrase sound
  induction phrase with
  | nil => exact List.forall_mem_nil _
  | cons head tail ih =>
    simp only [List.forall_mem_append] at sound
    exact List.forall_mem_cons.mpr ⟨declarationSpreads hE hB _ _ head sound.1, ih sound.2⟩

end Statements

theorem blockSpreads (depth : Nat) : Yields (SpreadAll (3 * depth)) (Block depth) := by
  induction depth with
  | zero =>
    intro ts ns phrase
    contradiction
  | succ depth ih =>
    have inside : Yields (SpreadAll (3 * depth + 1)) (Block (depth + 1)) :=
      enclosedYields (declarationsSpread (expressionSpreads depth) ih)
    intro ts ns phrase sound n member
    exact spreadsMore (inside ts ns phrase sound n member) (by omega)

theorem programSpreads (depth : Nat) : Yields (SpreadAll (3 * depth + 1)) (Program depth) :=
  declarationsSpread (expressionSpreads depth) (blockSpreads depth)

end Grammar

theorem parsedSpreads {source : String} {p : List Node} (parsed : parse source = .ok p) :
    Grammar.SpreadAll (3 * Parser.maxNesting + 1) p := by
  obtain ⟨ts, cut, phrase⟩ := (parseIff source p).mp parsed
  exact Grammar.programSpreads _ _ _ phrase (Lexical.cutSound cut)

theorem depthIsNestingAndChains {source : String} {p : List Node} (parsed : parse source = .ok p)
    (r : Nat) :
    (Node.ChainsWithin p r →
        Node.DepthWithin p (3 * Parser.maxNesting + 1 + (3 * Parser.maxNesting + 2) * r)) ∧
      (Node.DepthWithin p r → Node.ChainsWithin p r) := by
  constructor
  · intro chains k c depth
    obtain ⟨n, member, lefts, others, down, rfl⟩ := Node.depthDown depth
    have few := parsedSpreads parsed n member lefts others c down
    have leans : ∀ b l o s, Node.Down n l o b → b.LeansLeft s → s ≤ r := by
      intro b l o s below run
      obtain ⟨j, depth⟩ := Node.downDepth (.top member) below
      exact chains j b s depth run
    obtain ⟨s, run, most⟩ := Node.downLefts down leans
    have short : s ≤ r := leans n 0 0 s .here run
    have total := Nat.mul_le_mul_left r few
    rw [Nat.mul_comm _ r, Nat.mul_succ]
    omega
  · intro depths k n s depth leans
    obtain ⟨c, below⟩ := Node.leansDepth depth leans
    have := depths _ c below
    omega

def difference : Nat → Node
  | 0 => .name 1 "g"
  | n + 1 => .binary 1 .subtract (difference n) (.name 1 "g")

def differenceTokens (n : Nat) : List Token :=
  ⟨.name "g", 1⟩ :: (List.replicate n [⟨.mark .minus, 1⟩, ⟨.name "g", 1⟩]).flatten

def differenceText (n : Nat) : String := String.ofList ('g' :: (List.replicate n ['-', 'g']).flatten)

theorem differenceCut (n : Nat) : Lexical.Cut 1 (differenceText n).toList (differenceTokens n) := by
  have apart : ∀ k, Lexical.NotNext Lexical.InWord (List.replicate k ['-', 'g']).flatten := by
    intro k c rest same
    cases k with
    | zero => contradiction
    | succ k =>
      rw [List.replicate_succ, List.flatten_cons] at same
      cases same
      decide
  have letter : ∀ k, Lexical.Lexeme ['g'] (.name "g") (List.replicate k ['-', 'g']).flatten :=
    fun k => Lexical.letterLexeme (by decide) (by intro k; cases k <;> decide) (apart k)
  have minus : ∀ after, Lexical.Lexeme ['-'] (.mark .minus) after :=
    fun after => .mark (m := .minus) (by decide)
  have rest : ∀ k, Lexical.Cut 1 (List.replicate k ['-', 'g']).flatten
      (List.replicate k [⟨.mark .minus, 1⟩, ⟨.name "g", 1⟩]).flatten := by
    intro k
    induction k with
    | zero => exact .finish .nil
    | succ k ih =>
      rw [List.replicate_succ, List.replicate_succ, List.flatten_cons, List.flatten_cons]
      change Lexical.Cut 1 (['-'] ++ (['g'] ++ (List.replicate k ['-', 'g']).flatten)) _
      exact Lexical.cutLexeme (minus _) (Lexical.cutLexeme (letter k) ih)
  rw [differenceText, String.toList_ofList]
  exact Lexical.cutLexeme (letter n) (rest n)

theorem differenceSum (E : Grammar.Derives Node) (n : Nat) :
    Grammar.Sum E (differenceTokens n) (difference n) := by
  have name : Grammar.Product E [⟨.name "g", 1⟩] (.name 1 "g") := .first (.primary .name)
  induction n with
  | zero => exact .first name
  | succ n ih =>
    have tokens : differenceTokens (n + 1) =
        differenceTokens n ++ ⟨.mark .minus, 1⟩ :: [⟨.name "g", 1⟩] := by
      simp [differenceTokens, List.replicate_succ']
    rw [tokens]
    exact .more ih (by decide) name rfl

theorem differenceParses (n : Nat) : parse (differenceText n) = .ok [difference n] := by
  refine (parseIff _ _).mpr ⟨_, differenceCut n, ?_⟩
  have phrase : Grammar.Expression Parser.maxNesting (differenceTokens n) (difference n) :=
    .plain (.first (differenceSum _ n))
  have whole : Grammar.Program Parser.maxNesting (differenceTokens n ++ []) [difference n] :=
    .cons (.expression phrase) .nil
  rwa [List.append_nil] at whole

theorem differenceLeans (n : Nat) : (difference n).LeansLeft n := by
  induction n with
  | zero => exact .none
  | succ n ih => exact .more List.mem_cons_self ih

theorem differenceDepth (n : Nat) : ∃ c, Node.AtDepth [difference n] n c := by
  have top : Node.AtDepth [difference n] 0 (difference n) := .top List.mem_cons_self
  have deep := Node.leansDepth top (differenceLeans n)
  rwa [Nat.zero_add] at deep

theorem differencePart {m k : Nat} {c : Node} (depth : Node.AtDepth [difference m] k c) :
    (∃ j, c = difference j ∧ k + j = m) ∨ c = .name 1 "g" ∧ k ≤ m := by
  induction depth with
  | top member => exact .inl ⟨m, List.mem_singleton.mp member, Nat.zero_add m⟩
  | @inside k n place c _ child ih =>
    rcases ih with ⟨j, rfl, rfl⟩ | ⟨rfl, _⟩
    · cases j with
      | zero =>
        cases child with
        | value member => contradiction
        | statement list => contradiction
      | succ j =>
        cases child with
        | value member =>
          simp only [difference, Node.values, List.mem_cons, List.not_mem_nil, or_false] at member
          rcases member with rfl | rfl
          · exact .inl ⟨j, rfl, by omega⟩
          · exact .inr ⟨rfl, by omega⟩
        | statement list => contradiction
    · cases child with
      | value member => contradiction
      | statement list => contradiction

theorem differenceWithin (m : Nat) : Node.DepthWithin [difference m] m := by
  intro k c depth
  rcases differencePart depth with ⟨j, _, total⟩ | ⟨_, most⟩
  · omega
  · exact most

theorem differenceBounded :
    parse (differenceText 2) = .ok [difference 2] ∧ Node.ChainsWithin [difference 2] 2 ∧
      Node.DepthWithin [difference 2] 905 := by
  have both := depthIsNestingAndChains (differenceParses 2) 2
  have chains := both.2 (differenceWithin 2)
  exact ⟨differenceParses 2, chains, both.1 chains⟩

/- No depth bounds the trees of all accepted sources. -/
theorem treesAreNotBounded :
    ¬ ∃ bound, ∀ source p, parse source = .ok p → Node.DepthWithin p bound := by
  rintro ⟨bound, all⟩
  obtain ⟨c, depth⟩ := differenceDepth (bound + 1)
  have := all _ _ (differenceParses (bound + 1)) _ c depth
  omega

end EventScript
