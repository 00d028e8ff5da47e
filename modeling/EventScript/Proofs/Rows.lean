import EventScript.Proofs.Masking
import EventScript.Proofs.Parts

/-! Written programs by rows. A row is a clause at the depth of the blocks around it,
and the text is the rows in turn, each after blanks for its depth. Blocks are written
by splitting their text into lines again; a row is a single line, so the rows come out
as they went in. -/
namespace EventScript

namespace Text

/- What stays one line when it is written and split again. -/
structure IsLine (cs : List Char) : Prop where
  inLine : '\n' ∉ cs
  nonempty : cs ≠ []
  plain : cs.getLast? ≠ some '\r'

def joined (ls : List (List Char)) : List Char := ls.flatMap fun l => l ++ ['\n']

theorem joinedCons (l : List Char) (ls : List (List Char)) :
    joined (l :: ls) = l ++ '\n' :: joined ls := by
  simp [joined]

theorem joinedAppend (ls ks : List (List Char)) : joined (ls ++ ks) = joined ls ++ joined ks :=
  List.flatMap_append

theorem splitLine {l : List Char} (inLine : '\n' ∉ l) (cs : List Char) :
    splitLines (l ++ '\n' :: cs) = (l ++ ['\n']) :: splitLines cs := by
  induction l with
  | nil => simp [splitLines]
  | cons c l ih =>
    simp only [List.mem_cons, not_or] at inLine
    rw [List.cons_append, splitLines, if_neg (Ne.symm inLine.1), ih inLine.2]
    rfl

theorem splitLast {l : List Char} (inLine : '\n' ∉ l) (some : l ≠ []) : splitLines l = [l] := by
  induction l with
  | nil => contradiction
  | cons c l ih =>
    simp only [List.mem_cons, not_or] at inLine
    rw [splitLines, if_neg (Ne.symm inLine.1)]
    cases l with
    | nil => rfl
    | cons d l => rw [ih inLine.2 (List.cons_ne_nil d l)]

theorem withoutEndLine {l : List Char} (line : IsLine l) : withoutEnd (l ++ ['\n']) = l := by
  have plain := line.plain
  rw [← List.head?_reverse] at plain
  have start : (l ++ ['\n']).reverse = '\n' :: l.reverse := by simp
  rw [withoutEnd, start]
  split
  · rename_i rest same
    rw [(List.cons.inj same).2] at plain
    contradiction
  · rename_i rest _ same
    rw [← (List.cons.inj same).2, List.reverse_reverse]
  · rename_i other
    exact absurd rfl (other l.reverse)

theorem withoutEndLast {l : List Char} (inLine : '\n' ∉ l) : withoutEnd l = l := by
  have inLine : '\n' ∉ l.reverse := by simpa using inLine
  unfold withoutEnd
  split <;> simp_all

theorem linesJoined {ls : List (List Char)} (each : ∀ l ∈ ls, IsLine l) : lines (joined ls) = ls := by
  induction ls with
  | nil => rfl
  | cons l ls ih =>
    obtain ⟨first, rest⟩ := List.forall_mem_cons.mp each
    have tail := ih rest
    rw [lines] at tail
    rw [joinedCons, lines, splitLine first.inLine, List.map_cons, withoutEndLine first, tail]

theorem joinedEnds (l : List Char) (ls : List (List Char)) : ∃ cs, joined (l :: ls) = cs ++ ['\n'] := by
  induction ls generalizing l with
  | nil => exact ⟨l, joinedCons l []⟩
  | cons k ls ih =>
    obtain ⟨cs, same⟩ := ih k
    exact ⟨l ++ '\n' :: cs, by rw [joinedCons, same, List.append_assoc, List.cons_append]⟩

/- The last line need not be finished. -/
theorem linesUnfinished {ls : List (List Char)} {cs : List Char} (each : ∀ l ∈ ls, IsLine l)
    (same : cs ++ ['\n'] = joined ls) : lines cs = ls := by
  induction ls generalizing cs with
  | nil => simp [joined] at same
  | cons l ls ih =>
    obtain ⟨first, rest⟩ := List.forall_mem_cons.mp each
    rw [joinedCons] at same
    cases ls with
    | nil =>
      obtain rfl : cs = l := List.append_cancel_right same
      rw [lines, splitLast first.inLine first.nonempty, List.map_singleton, withoutEndLast first.inLine]
    | cons k ls =>
      obtain ⟨ds, tail⟩ := joinedEnds k ls
      have more : lines ds = k :: ls := ih rest tail.symm
      rw [tail, ← List.cons_append, ← List.append_assoc] at same
      obtain rfl : cs = l ++ '\n' :: ds := List.append_cancel_right same
      rw [lines] at more
      rw [lines, splitLine first.inLine, List.map_cons, withoutEndLine first, more]

end Text

structure Row where
  depth : Nat
  clause : Clause

namespace Row

def deeper (r : Row) : Row := ⟨r.depth + 1, r.clause⟩

def text (indent : Nat) (r : Row) : List Char :=
  List.replicate (indent * r.depth) ' ' ++ r.clause.chars

theorem textDeeper (indent : Nat) (r : Row) :
    r.deeper.text indent = List.replicate indent ' ' ++ r.text indent := by
  have blanks : indent * (r.depth + 1) = indent + indent * r.depth := by
    rw [Nat.mul_succ, Nat.add_comm]
  rw [text, text, deeper, blanks, List.replicate_add, List.append_assoc]

end Row

namespace Node

mutual

def rows : Node → List Row
  | function _ f ps body => ⟨0, .function f ps⟩ :: ((rowsAll body).map Row.deeper ++ [⟨0, .close⟩])
  | cond _ c body branches otherwise =>
    ⟨0, .cond c⟩ :: ((rowsAll body).map Row.deeper ++ rowsBranches branches
      (if otherwise.isEmpty then [⟨0, .close⟩]
        else ⟨0, .otherwise⟩ :: ((rowsAll otherwise).map Row.deeper ++ [⟨0, .close⟩])))
  | loop _ x e body => ⟨0, .loop x e⟩ :: ((rowsAll body).map Row.deeper ++ [⟨0, .close⟩])
  | handler _ event body =>
    ⟨0, .handler event⟩ :: ((rowsAll body).map Row.deeper ++ [⟨0, .closeHandler⟩])
  | result _ e => [⟨0, .result e⟩]
  | assign _ x e => [⟨0, .assign x e⟩]
  | e@(literal ..) | e@(name ..) | e@(binary ..) | e@(call ..) => [⟨0, .value e⟩]

def rowsAll : List Node → List Row
  | [] => []
  | n :: ns => rows n ++ rowsAll ns

/- The rows after the first body of a conditional, up to the last ones. -/
def rowsBranches : List (Branch Node) → List Row → List Row
  | [], last => last
  | ⟨c, body⟩ :: rest, last =>
    ⟨0, .branch c⟩ :: ((rowsAll body).map Row.deeper ++ rowsBranches rest last)

end

end Node

namespace Clause

theorem isLine {c : Clause} (h : c.obeys Node.wellFormed = true) : Text.IsLine c.chars := by
  have closed := (alike h).left
  refine ⟨closed.inLine, ?_, fun last => closed.plain (List.mem_of_getLast? last)⟩
  cases c <;> simp [chars, Emit.spelled]

end Clause

namespace Row

def obeys (rule : Position → Node → Bool) (r : Row) : Bool := r.clause.obeys rule

def texts (indent : Nat) (rs : List Row) : List Char := Text.joined (rs.map (text indent))

theorem isLine {r : Row} (h : r.obeys Node.wellFormed = true) (indent : Nat) :
    Text.IsLine (r.text indent) := by
  have line := Clause.isLine h
  refine ⟨?_, ?_, ?_⟩
  · simp [text, line.inLine]
  · simp [text, line.nonempty]
  · rw [text, List.getLast?_append_of_ne_nil _ line.nonempty]
    exact line.plain

theorem textsAppend (indent : Nat) (rs us : List Row) :
    texts indent (rs ++ us) = texts indent rs ++ texts indent us := by
  simp [texts, Text.joinedAppend]

theorem textsCons (indent : Nat) (r : Row) (rs : List Row) :
    texts indent (r :: rs) = r.text indent ++ '\n' :: texts indent rs := by
  simp [texts, Text.joinedCons]

theorem textsDeeper {indent : Nat} {rs : List Row} {cs : List Char}
    (each : ∀ r ∈ rs, r.obeys Node.wellFormed = true) (same : cs ++ ['\n'] = texts indent rs) :
    Emit.indented indent cs = texts indent (rs.map deeper) := by
  have lines : Text.lines cs = rs.map (text indent) := by
    refine Text.linesUnfinished ?_ same
    intro l member
    obtain ⟨r, inside, rfl⟩ := List.mem_map.mp member
    exact isLine (each r inside) indent
  have step : ∀ r : Row, List.replicate indent ' ' ++ r.text indent ++ ['\n'] =
      r.deeper.text indent ++ ['\n'] := by
    intro r
    rw [textDeeper]
  simp only [Emit.indented, lines, texts, Text.joined, List.flatMap_map, step]

end Row

namespace Emit
open Node (wellFormed)

mutual

theorem operandIndent (indent : Nat) : ∀ e : Node, e.obeys wellFormed .operand = true →
    node indent .operand e = node 0 .operand e
  | .literal _ (.number _), _ => rfl
  | .literal _ (.text _), _ => rfl
  | .name .., _ => rfl
  | .binary _ op l r, h => by
    simp only [Node.obeys, Bool.and_eq_true] at h
    simp only [node, operandIndent indent l h.1.2, operandIndent indent r h.2]
  | .assign _ x v, h => by
    simp only [Node.obeys, Bool.and_eq_true] at h
    simp only [node, operandIndent indent v h.2]
  | .call _ f vs, h => by
    simp only [Node.obeys, Bool.and_eq_true] at h
    simp only [node, operandsIndent indent vs h.2]
  | .function .., h | .cond .., h | .loop .., h | .handler .., h | .result .., h => by
    simp [Node.obeys, wellFormed] at h

theorem operandsIndent (indent : Nat) : ∀ es : List Node, Node.obeyAll wellFormed .operand es = true →
    operands indent es = operands 0 es
  | [], _ => rfl
  | e :: es, h => by
    simp only [Node.obeyAll, Bool.and_eq_true] at h
    simp only [operands, operandIndent indent e h.1, operandsIndent indent es h.2]

end

end Emit

namespace Node

/- Good form at least, and nothing more of expressions that stand alone. -/
structure Strict (rule : Position → Node → Bool) : Prop where
  formed : ∀ position n, rule position n = true → wellFormed position n = true
  alone : ∀ n, rule .statement n = true → wellFormed .operand n = true → rule .operand n = true

theorem strictWellFormed : Strict wellFormed := ⟨fun _ _ h => h, fun _ _ h => h⟩

theorem strictWritable : Strict writable where
  formed _ _ h := (Bool.and_eq_true_iff.mp h).1
  alone n h formed := by
    have finite := (Bool.and_eq_true_iff.mp h).2
    refine Bool.and_eq_true_iff.mpr ⟨formed, ?_⟩
    cases n with
    | literal _ value => cases value <;> exact finite
    | _ => rfl

section Obeying

variable {rule : Position → Node → Bool}

theorem operandObeys (strict : Strict rule) {e : Node} (formed : wellFormed .operand e = true)
    (h : e.obeys rule .statement = true) : e.obeys rule .operand = true := by
  obtain ⟨here, inside⟩ := obeysIff.mp h
  exact obeysIff.mpr ⟨strict.alone e here formed, inside⟩

theorem deeperObey {rs : List Row} (each : ∀ r ∈ rs, r.obeys rule = true) :
    ∀ r ∈ rs.map Row.deeper, r.obeys rule = true := by
  intro r member
  obtain ⟨u, inside, rfl⟩ := List.mem_map.mp member
  exact each u inside

mutual

theorem rowsObey (strict : Strict rule) : ∀ n : Node, n.obeys rule .statement = true →
    ∀ r ∈ n.rows, r.obeys rule = true
  | literal _ (.number _), h | literal _ (.text _), h | name .., h | binary .., h | call .., h => by
    have formed := strict.formed _ _ (obeysHere h)
    rw [rows]
    exact List.forall_mem_singleton.mpr (operandObeys strict formed h)
  | assign _ x e, h => by
    simp only [obeys, Bool.and_eq_true] at h
    rw [rows]
    exact List.forall_mem_singleton.mpr (Bool.and_eq_true_iff.mpr ⟨strict.formed _ _ h.1, h.2⟩)
  | result _ e, h => by
    simp only [obeys, Bool.and_eq_true] at h
    rw [rows]
    exact List.forall_mem_singleton.mpr h.2
  | function _ f ps body, h => by
    simp only [obeys, Bool.and_eq_true] at h
    have inside := deeperObey (rowsAllObey strict body h.2)
    simp only [rows, List.forall_mem_cons, List.forall_mem_append]
    exact ⟨strict.formed _ _ h.1, inside, rfl, List.forall_mem_nil _⟩
  | loop _ x e body, h => by
    simp only [obeys, Bool.and_eq_true] at h
    have inside := deeperObey (rowsAllObey strict body h.2)
    have head := Bool.and_eq_true_iff.mpr ⟨strict.formed _ _ h.1.1, h.1.2⟩
    simp only [rows, List.forall_mem_cons, List.forall_mem_append]
    exact ⟨head, inside, rfl, List.forall_mem_nil _⟩
  | handler _ event body, h => by
    simp only [obeys, Bool.and_eq_true] at h
    have inside := deeperObey (rowsAllObey strict body h.2)
    simp only [rows, List.forall_mem_cons, List.forall_mem_append]
    exact ⟨rfl, inside, rfl, List.forall_mem_nil _⟩
  | cond _ c body branches otherwise, h => by
    simp only [obeys, Bool.and_eq_true] at h
    have inside := deeperObey (rowsAllObey strict body h.1.1.2)
    have last := deeperObey (rowsAllObey strict otherwise h.2)
    simp only [rows, List.forall_mem_cons, List.forall_mem_append]
    refine ⟨h.1.1.1.2, inside, rowsBranchesObey strict branches h.1.2 _ ?_⟩
    split
    · exact List.forall_mem_singleton.mpr rfl
    · simp only [List.forall_mem_cons, List.forall_mem_append]
      exact ⟨rfl, last, rfl, List.forall_mem_nil _⟩

theorem rowsAllObey (strict : Strict rule) : ∀ ns : List Node, obeyAll rule .statement ns = true →
    ∀ r ∈ rowsAll ns, r.obeys rule = true
  | [], _ => List.forall_mem_nil _
  | n :: ns, h => by
    simp only [obeyAll, Bool.and_eq_true] at h
    rw [rowsAll]
    exact List.forall_mem_append.mpr ⟨rowsObey strict n h.1, rowsAllObey strict ns h.2⟩

theorem rowsBranchesObey (strict : Strict rule) : ∀ bs : List (Branch Node),
    obeyBranches rule bs = true → ∀ last : List Row, (∀ r ∈ last, r.obeys rule = true) →
      ∀ r ∈ rowsBranches bs last, r.obeys rule = true
  | [], _, last, each => each
  | ⟨c, body⟩ :: rest, h, last, each => by
    simp only [obeyBranches, Bool.and_eq_true] at h
    have inside := deeperObey (rowsAllObey strict body h.1.2)
    simp only [rowsBranches, List.forall_mem_cons, List.forall_mem_append]
    exact ⟨h.1.1, inside, rowsBranchesObey strict rest h.2 last each⟩

end

end Obeying

end Node

namespace Emit
open Node (wellFormed rows rowsAll rowsBranches rowsObey)
open Row (texts textsCons textsAppend textsDeeper)

theorem textHead (indent : Nat) (c : Clause) : (Row.mk 0 c).text indent = c.chars := by
  simp [Row.text]

theorem valueRows {indent : Nat} {e : Node} (alone : e.rows = [⟨0, .value e⟩])
    (ends : node indent .statement e = node indent .operand e ++ [';'])
    (h : e.obeys wellFormed .operand = true) :
    node indent .statement e ++ ['\n'] = texts indent e.rows := by
  rw [alone, textsCons, textHead, Clause.chars, ends, operandIndent indent e h]
  simp [spelled, texts, Text.joined]

/- The end of a conditional, from the brace that closes its last guarded body. -/
theorem otherwiseRows {indent : Nat} {otherwise : List Node}
    (inside : block indent otherwise = texts indent ((rowsAll otherwise).map Row.deeper)) :
    '\x7d' :: ((if otherwise.isEmpty then [] else spelled " else " ++ braced (block indent otherwise)) ++
        ['\n']) =
      texts indent (if otherwise.isEmpty then [⟨0, .close⟩]
        else ⟨0, .otherwise⟩ :: ((rowsAll otherwise).map Row.deeper ++ [⟨0, .close⟩])) := by
  split
  · simp [texts, Text.joined, Row.text, Clause.chars, spelled]
  · rw [textsCons, textsAppend, textsCons, textHead, textHead, braced, inside]
    simp [texts, Text.joined, Clause.chars, spelled]

mutual

theorem statementRows (indent : Nat) : ∀ n : Node, n.obeys wellFormed .statement = true →
    node indent .statement n ++ ['\n'] = texts indent n.rows
  | .literal _ (.number _), h | .literal _ (.text _), h | .name .., h | .binary .., h
  | .call .., h => valueRows rfl rfl h
  | .assign _ x e, h => by
    simp only [Node.obeys, Bool.and_eq_true] at h
    rw [rows, textsCons, textHead, Clause.chars, node, operandIndent indent e h.2]
    simp [spelled, texts, Text.joined]
  | .result _ e, h => by
    simp only [Node.obeys, Bool.and_eq_true] at h
    rw [rows, textsCons, textHead, Clause.chars, node, operandIndent indent e h.2]
    simp [spelled, texts, Text.joined]
  | .function _ f ps body, h => by
    simp only [Node.obeys, Bool.and_eq_true] at h
    rw [rows, textsCons, textsAppend, textsCons, textHead, textHead, Clause.chars, node, braced,
      blockRows indent body h.2]
    simp [spelled, texts, Text.joined, Clause.chars]
  | .loop _ x e body, h => by
    simp only [Node.obeys, Bool.and_eq_true] at h
    rw [rows, textsCons, textsAppend, textsCons, textHead, textHead, Clause.chars, node, braced,
      blockRows indent body h.2, operandIndent indent e h.1.2]
    simp [spelled, texts, Text.joined, Clause.chars]
  | .handler _ event body, h => by
    simp only [Node.obeys, Bool.and_eq_true] at h
    rw [rows, textsCons, textsAppend, textsCons, textHead, textHead, Clause.chars, node, braced,
      blockRows indent body h.2]
    simp [spelled, texts, Text.joined, Clause.chars]
  | .cond _ c body branches otherwise, h => by
    simp only [Node.obeys, Bool.and_eq_true] at h
    have last := otherwiseRows (blockRows indent otherwise h.2)
    have more := armsRows indent branches h.1.2 _ _ last
    rw [rows, textsCons, textsAppend, textHead, Clause.chars, ← more, node, braced,
      blockRows indent body h.1.1.2, operandIndent indent c h.1.1.1.2]
    simp [spelled]

theorem blockRows (indent : Nat) : ∀ ns : List Node, Node.obeyAll wellFormed .statement ns = true →
    block indent ns = texts indent ((rowsAll ns).map Row.deeper)
  | [], _ => rfl
  | n :: ns, h => by
    simp only [Node.obeyAll, Bool.and_eq_true] at h
    have first := textsDeeper (rowsObey Node.strictWellFormed n h.1) (statementRows indent n h.1)
    rw [block, rowsAll, List.map_append, textsAppend, first, blockRows indent ns h.2]

theorem armsRows (indent : Nat) : ∀ bs : List (Branch Node), Node.obeyBranches wellFormed bs = true →
    ∀ (tail : List Char) (last : List Row), '\x7d' :: tail = texts indent last →
      '\x7d' :: (arms indent bs ++ tail) = texts indent (rowsBranches bs last)
  | [], _, tail, last, same => by
    rw [rowsBranches, arms, ← same, List.nil_append]
  | ⟨c, body⟩ :: rest, h, tail, last, same => by
    simp only [Node.obeyBranches, Bool.and_eq_true] at h
    have more := armsRows indent rest h.2 tail last same
    rw [rowsBranches, textsCons, textsAppend, textHead, Clause.chars, ← more, arms, braced,
      blockRows indent body h.1.2, operandIndent indent c h.1.1]
    simp [spelled]

end

theorem declarationsRows (indent : Nat) (ns : List Node)
    (h : Node.obeyAll wellFormed .statement ns = true) :
    declarations indent ns = texts indent (rowsAll ns) := by
  induction ns with
  | nil => rfl
  | cons n ns ih =>
    simp only [Node.obeyAll, Bool.and_eq_true] at h
    have step : declarations indent (n :: ns) =
        node indent .statement n ++ ['\n'] ++ declarations indent ns := rfl
    rw [step, rowsAll, textsAppend, statementRows indent n h.1, ih h.2]

/- What stands before the program. -/
def header (options : EmitOptions) : String := if options.preamble then Preamble.text else ""

theorem programHeader (options : EmitOptions) (p : List Node) :
    (program options p).toList = (header options).toList ++ declarations options.indent p := by
  rw [program, String.toList_append, String.toList_ofList]
  rfl

end Emit

end EventScript
