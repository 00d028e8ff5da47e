import EventScript.Emit
import EventScript.Proofs.Grammar

/-! Line numbers are carried along and never looked at. Renumbering the lines of
tokens renumbers the trees they spell, and the text written for a tree is the
same under every numbering. -/
namespace EventScript

def Token.reline (f : Nat → Nat) (t : Token) : Token := ⟨t.kind, f t.line⟩

namespace Node

mutual

def reline (f : Nat → Nat) : Node → Node
  | literal line value => literal (f line) value
  | name line s => name (f line) s
  | binary line op left right => binary (f line) op (reline f left) (reline f right)
  | assign line target value => assign (f line) target (reline f value)
  | call line callee arguments => call (f line) callee (relineAll f arguments)
  | function line s parameters body => function (f line) s parameters (relineAll f body)
  | cond line condition body branches otherwise =>
    cond (f line) (reline f condition) (relineAll f body) (relineBranches f branches)
      (relineAll f otherwise)
  | loop line s items body => loop (f line) s (reline f items) (relineAll f body)
  | handler line event body => handler (f line) event (relineAll f body)
  | result line value => result (f line) (reline f value)

def relineAll (f : Nat → Nat) : List Node → List Node
  | [] => []
  | n :: ns => reline f n :: relineAll f ns

def relineBranches (f : Nat → Nat) : List (Branch Node) → List (Branch Node)
  | [] => []
  | ⟨condition, body⟩ :: rest => ⟨reline f condition, relineAll f body⟩ :: relineBranches f rest

end

theorem relineAllMap (f : Nat → Nat) (ns : List Node) : relineAll f ns = ns.map (reline f) := by
  induction ns with
  | nil => rfl
  | cons n ns ih => rw [relineAll, ih, List.map_cons]

theorem relineComparison (f : Nat → Nat) (n : Node) : (reline f n).isComparison = n.isComparison := by
  cases n <;> rfl

/- The tree with all its lines made one. -/
def unlined : Node → Node := reline fun _ => 0

end Node

namespace Emit
open Node

mutual

theorem nodeReline (f : Nat → Nat) (indent : Nat) (position : Position) :
    ∀ n : Node, node indent position (reline f n) = node indent position n
  | .literal _ (.number _) => by simp only [reline, node]
  | .literal _ (.text _) => by simp only [reline, node]
  | .name _ _ => by simp only [reline, node]
  | .binary _ op l r => by
    simp only [reline, node, nodeReline f indent .operand l, nodeReline f indent .operand r,
      relineComparison]
  | .assign _ _ value => by
    cases position <;> simp only [reline, node, nodeReline f indent .operand value]
  | .call _ _ arguments => by simp only [reline, node, operandsReline f indent arguments]
  | .function _ _ _ body => by simp only [reline, node, blockReline f indent body]
  | .cond _ condition body branches otherwise => by
    have none : (relineAll f otherwise).isEmpty = otherwise.isEmpty := by
      cases otherwise <;> rfl
    simp only [reline, node, nodeReline f indent .operand condition, blockReline f indent body,
      armsReline f indent branches, blockReline f indent otherwise, none]
  | .loop _ _ items body => by
    simp only [reline, node, nodeReline f indent .operand items, blockReline f indent body]
  | .handler _ _ body => by simp only [reline, node, blockReline f indent body]
  | .result _ value => by simp only [reline, node, nodeReline f indent .operand value]

theorem operandsReline (f : Nat → Nat) (indent : Nat) :
    ∀ ns : List Node, operands indent (relineAll f ns) = operands indent ns
  | [] => by simp only [relineAll]
  | n :: ns => by
    simp only [relineAll, operands, nodeReline f indent .operand n, operandsReline f indent ns]

theorem blockReline (f : Nat → Nat) (indent : Nat) :
    ∀ ns : List Node, block indent (relineAll f ns) = block indent ns
  | [] => by simp only [relineAll]
  | n :: ns => by
    simp only [relineAll, block, nodeReline f indent .statement n, blockReline f indent ns]

theorem armsReline (f : Nat → Nat) (indent : Nat) :
    ∀ bs : List (Branch Node), arms indent (relineBranches f bs) = arms indent bs
  | [] => by simp only [relineBranches]
  | ⟨condition, body⟩ :: rest => by
    simp only [relineBranches, arms, nodeReline f indent .operand condition,
      blockReline f indent body, armsReline f indent rest]

end

theorem declarationsReline (f : Nat → Nat) (indent : Nat) (ns : List Node) :
    declarations indent (ns.map (reline f)) = declarations indent ns := by
  simp only [declarations, List.flatMap_map, nodeReline]

theorem declarationsAppend (indent : Nat) (ns ms : List Node) :
    declarations indent (ns ++ ms) = declarations indent ns ++ declarations indent ms :=
  List.flatMap_append

end Emit

theorem emitUnlined {p q : List Node} (same : p.map Node.unlined = q.map Node.unlined)
    (options : EmitOptions) : Emit.program options p = Emit.program options q := by
  have text : ∀ ns : List Node, Emit.declarations options.indent (ns.map Node.unlined) =
      Emit.declarations options.indent ns := Emit.declarationsReline _ _
  rw [Emit.program, Emit.program, ← text p, same, text q]

namespace Grammar
open Node (reline relineAll relineBranches)

variable {α β : Type} (f : Nat → Nat)

theorem startLineReline (ts : List Token) :
    startLine? (ts.map (Token.reline f)) = (startLine? ts).map f := by
  induction ts with
  | nil => rfl
  | cons t ts ih =>
    simp only [startLine?, List.map_cons, List.find?_cons] at ih ⊢
    cases paren : t.kind != .mark .leftParen with
    | true => simp [Token.reline, paren]
    | false => simpa [Token.reline, paren] using ih

def Relines (g : α → α) (L : Derives α) : Prop :=
  ∀ ts v, L ts v → L (ts.map (Token.reline f)) (g v)

variable {f}

theorem lineRelined {ts : List Token} {k : Nat} (line : startLine? ts = some k) :
    startLine? (ts.map (Token.reline f)) = some (f k) := by
  rw [startLineReline, line]
  rfl

theorem nameRelines : Relines f id Name := by
  rintro _ _ ⟨⟩
  exact .mk

theorem enclosedRelines {opening closing : Mark} {g : α → α} {L : Derives α} (h : Relines f g L) :
    Relines f g (Enclosed opening closing L) := by
  rintro _ v ⟨inner⟩
  rw [List.map_cons, List.map_append]
  exact .mk (h _ _ inner)

theorem separatedRelines {g : α → α} {I : Derives α} (h : Relines f g I) :
    Relines f (List.map g) (Separated I) := by
  intro ts vs all
  induction all with
  | one head => exact .one (h _ _ head)
  | more head tail ih =>
    rw [List.map_append]
    exact .more (h _ _ head) ih

theorem itemsRelines {g : α → α} {I : Derives α} (h : Relines f g I) :
    Relines f (List.map g) (Items I) := by
  intro ts vs all
  cases all with
  | empty => exact .empty
  | plain all => exact .plain (separatedRelines h _ _ all)
  | trailing all =>
    rw [List.map_append]
    exact .trailing (separatedRelines h _ _ all)

section Expressions

variable {E : Derives Node}

theorem primaryRelines (h : Relines f (reline f) E) : Relines f (reline f) (Primary E) := by
  intro ts n phrase
  cases phrase with
  | number => exact .number
  | text => exact .text
  | name => exact .name
  | group inner => exact .group (enclosedRelines h _ _ inner)

theorem callRelines (h : Relines f (reline f) E) : Relines f (reline f) (Call E) := by
  intro ts n phrase
  cases phrase with
  | primary only => exact .primary (primaryRelines h _ _ only)
  | apply callee arguments line =>
    have start := lineRelined (f := f) line
    rw [List.map_append] at start ⊢
    rw [reline, Node.relineAllMap]
    exact .apply (primaryRelines h _ _ callee) (enclosedRelines (itemsRelines h) _ _ arguments) start

theorem levelRelines {marks : List (Mark × BinaryOp)} {first operand : Derives Node}
    (hf : Relines f (reline f) first) (ho : Relines f (reline f) operand) :
    Relines f (reline f) (Level marks first operand) := by
  intro ts n phrase
  induction phrase with
  | first only => exact .first (hf _ _ only)
  | more left known right line ih =>
    have start := lineRelined (f := f) line
    rw [List.map_append, List.map_cons] at start ⊢
    exact .more ih known (ho _ _ right) start

theorem comparisonRelines (h : Relines f (reline f) E) : Relines f (reline f) (Comparison E) := by
  have product : Relines f (reline f) (Product E) := levelRelines (callRelines h) (primaryRelines h)
  have sum : Relines f (reline f) (Sum E) := levelRelines product product
  exact levelRelines sum sum

theorem assignmentRelines (h : Relines f (reline f) E) : Relines f (reline f) (Assignment E) := by
  intro ts n phrase
  cases phrase with
  | plain only => exact .plain (comparisonRelines h _ _ only)
  | assign target value line =>
    have start := lineRelined (f := f) line
    rw [List.map_append, List.map_cons] at start ⊢
    exact .assign (comparisonRelines h _ _ target) (h _ _ value) start

end Expressions

theorem expressionRelines (depth : Nat) : Relines f (reline f) (Expression depth) := by
  induction depth with
  | zero => intro ts n phrase; contradiction
  | succ depth ih => exact assignmentRelines ih

section Statements

variable {E : Derives Node} {B : Derives (List Node)} (hE : Relines f (reline f) E)
  (hB : Relines f (relineAll f) B)
include hE hB

theorem guardedRelines :
    Relines f (fun b => ⟨reline f b.condition, relineAll f b.body⟩) (Guarded E B) := by
  rintro _ _ ⟨condition, body⟩
  rw [List.map_append]
  exact .mk (enclosedRelines hE _ _ condition) (hB _ _ body)

theorem branchesRelines : Relines f (relineBranches f) (Branches E B) := by
  intro ts bs phrase
  induction phrase with
  | none => exact .none
  | more head tail ih =>
    rw [List.map_cons, List.map_append]
    exact .more (guardedRelines hE hB _ _ head) ih

omit hE in
theorem otherwiseRelines : Relines f (relineAll f) (Otherwise B) := by
  intro ts o phrase
  cases phrase with
  | none => exact .none
  | body block => exact .body (hB _ _ block)

theorem declarationRelines : Relines f (reline f) (Declaration E B) := by
  intro ts n phrase
  cases phrase with
  | function name parameters body =>
    have inside := enclosedRelines (itemsRelines (nameRelines (f := f))) _ _ parameters
    rw [List.map_id] at inside
    rw [List.map_cons, List.map_append, List.map_append]
    exact .function (nameRelines _ _ name) inside (hB _ _ body)
  | handler event body =>
    rw [List.map_cons, List.map_append]
    exact .handler (enclosedRelines nameRelines _ _ event) (hB _ _ body)
  | cond first more last =>
    rw [List.map_cons, List.map_append, List.map_append]
    exact .cond (guardedRelines hE hB _ _ first) (branchesRelines hE hB _ _ more)
      (otherwiseRelines hB _ _ last)
  | loop name items body =>
    rw [List.map_cons, List.map_append, List.map_cons, List.map_append]
    exact .loop (nameRelines _ _ name) (hE _ _ items) (hB _ _ body)
  | result value => exact .result (hE _ _ value)
  | expression only => exact .expression (hE _ _ only)

theorem declarationsRelines : Relines f (relineAll f) (Declarations E B) := by
  intro ts ns phrase
  induction phrase with
  | nil => exact .nil
  | cons head tail ih =>
    rw [List.map_append]
    exact .cons (declarationRelines hE hB _ _ head) ih

end Statements

theorem blockRelines (depth : Nat) : Relines f (relineAll f) (Block depth) := by
  induction depth with
  | zero => intro ts n phrase; contradiction
  | succ depth ih => exact enclosedRelines (declarationsRelines (expressionRelines depth) ih)

theorem programRelines (depth : Nat) : Relines f (relineAll f) (Program depth) :=
  declarationsRelines (expressionRelines depth) (blockRelines depth)

end Grammar

end EventScript
