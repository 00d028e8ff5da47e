import EventScript.Proofs.Rules

/-! The parts of a tree, with the place at which each one stands: where a value is used,
or in a list of statements. A rule that a program obeys holds at all its parts. -/
namespace EventScript.Node

def isExpression : Node → Bool
  | literal .. | name .. | binary .. | assign .. | call .. => true
  | function .. | cond .. | loop .. | handler .. | result .. => false

def spelledNames : Node → List String
  | literal .. | binary .. | cond .. | result .. => []
  | name _ s | assign _ s _ | call _ s _ | loop _ s _ _ | handler _ s _ => [s]
  | function _ s parameters _ => s :: parameters

def bodies : Node → List (List Node)
  | function _ _ _ body | loop _ _ _ body | handler _ _ body => [body]
  | cond _ _ body branches otherwise => body :: otherwise :: branches.map Branch.body
  | _ => []

/- The nodes that a node holds itself where their values are used. -/
def values : Node → List Node
  | binary _ _ left right => [left, right]
  | assign _ _ value | result _ value => [value]
  | call _ _ arguments => arguments
  | cond _ condition _ branches _ => condition :: branches.map Branch.condition
  | loop _ _ items _ => [items]
  | _ => []

inductive Child : Node → Position → Node → Prop where
  | value {n c} (member : c ∈ n.values) : Child n .operand c
  | statement {n body c} (list : body ∈ n.bodies) (member : c ∈ body) : Child n .statement c

inductive Stands (p : List Node) : Position → Node → Prop where
  | top {n} (member : n ∈ p) : Stands p .statement n
  | inside {position n place c} (outer : Stands p position n) (child : Child n place c) :
      Stands p place c

inductive Below (n : Node) : Node → Prop where
  | child {place c} (child : Child n place c) : Below n c
  | deeper {b place c} (outer : Below n b) (child : Child b place c) : Below n c

section Rules

variable {rule : Position → Node → Bool} {position place : Position} {n c : Node} {p : List Node}

theorem obeyBranchesIff {bs : List (Branch Node)} : obeyBranches rule bs = true ↔
    ∀ b ∈ bs, b.condition.obeys rule .operand = true ∧ obeyAll rule .statement b.body = true := by
  induction bs with
  | nil => simp [obeyBranches]
  | cons b bs ih =>
    obtain ⟨condition, body⟩ := b
    simp only [obeyBranches, Bool.and_eq_true, ih, List.forall_mem_cons]

/- A rule is obeyed at a node and at all that it holds itself. -/
theorem obeysIff : n.obeys rule position = true ↔
    rule position n = true ∧ (∀ v ∈ n.values, v.obeys rule .operand = true) ∧
      ∀ body ∈ n.bodies, obeyAll rule .statement body = true := by
  cases n with
  | literal | name => simp [obeys, values, bodies]
  | binary => simp [obeys, values, bodies, and_assoc]
  | assign | result => simp [obeys, values, bodies]
  | call => simp [obeys, values, bodies, obeyAllIff]
  | function | handler => simp [obeys, values, bodies]
  | loop => simp [obeys, values, bodies, and_assoc]
  | cond line condition body branches otherwise =>
    simp only [obeys, values, bodies, Bool.and_eq_true, obeyBranchesIff, List.forall_mem_cons,
      List.forall_mem_map]
    constructor
    · rintro ⟨⟨⟨⟨here, condition⟩, body⟩, branches⟩, otherwise⟩
      exact ⟨here, ⟨condition, fun b member => (branches b member).1⟩, body, otherwise,
        fun b member => (branches b member).2⟩
    · rintro ⟨here, ⟨condition, conditions⟩, body, otherwise, bodies⟩
      exact ⟨⟨⟨⟨here, condition⟩, body⟩, fun b member => ⟨conditions b member, bodies b member⟩⟩,
        otherwise⟩

theorem obeysHere (h : n.obeys rule position = true) : rule position n = true := (obeysIff.mp h).1

theorem obeysChild (h : n.obeys rule position = true) (child : Child n place c) :
    c.obeys rule place = true := by
  cases child with
  | value member => exact (obeysIff.mp h).2.1 c member
  | statement list member => exact obeyAllIff.mp ((obeysIff.mp h).2.2 _ list) c member

theorem standsObeys (h : obeyAll rule .statement p = true) (stands : Stands p position n) :
    n.obeys rule position = true := by
  induction stands with
  | top member => exact obeyAllIff.mp h _ member
  | inside _ child ih => exact obeysChild ih child

end Rules

end EventScript.Node
