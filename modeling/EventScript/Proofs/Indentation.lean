import EventScript.Proofs.Rows

/-! Indentation is layout alone. The lines of the written text are the rows, and a row
is its clause after blanks for the blocks around it. A clause starts with no blank, so
without indentation no line does. -/
namespace EventScript

namespace Node

mutual

/- The bodies around each line that a statement is written on, the outermost first. -/
def around : Node → List (List (List Node))
  | function _ _ _ body => [] :: ((aroundAll body).map (body :: ·) ++ [[]])
  | handler _ _ body => [] :: ((aroundAll body).map (body :: ·) ++ [[]])
  | loop _ _ _ body => [] :: ((aroundAll body).map (body :: ·) ++ [[]])
  | cond _ _ body branches otherwise =>
    [] :: ((aroundAll body).map (body :: ·) ++ aroundBranches branches ++
      (if otherwise.isEmpty then [] else [] :: (aroundAll otherwise).map (otherwise :: ·)) ++ [[]])
  | literal .. | name .. | binary .. | call .. | assign .. | result .. => [[]]

def aroundAll : List Node → List (List (List Node))
  | [] => []
  | n :: ns => around n ++ aroundAll ns

def aroundBranches : List (Branch Node) → List (List (List Node))
  | [] => []
  | ⟨_, body⟩ :: rest => [] :: ((aroundAll body).map (body :: ·) ++ aroundBranches rest)

end

theorem deeperDepth {rs : List Row} {blocks : List (List (List Node))}
    (same : rs.map Row.depth = blocks.map List.length) (body : List Node) :
    (rs.map Row.deeper).map Row.depth = (blocks.map (body :: ·)).map List.length := by
  have left : (rs.map Row.deeper).map Row.depth = (rs.map Row.depth).map (· + 1) := by
    simp only [List.map_map]
    rfl
  have right : (blocks.map (body :: ·)).map List.length = (blocks.map List.length).map (· + 1) := by
    simp only [List.map_map]
    rfl
  rw [left, right, same]

mutual

theorem rowsAround : ∀ n : Node, n.rows.map Row.depth = n.around.map List.length
  | literal .. | name .. | binary .. | call .. | assign .. | result .. => rfl
  | function _ _ _ body | handler _ _ body | loop _ _ _ body => by
    have inside := deeperDepth (rowsAllAround body) body
    simp only [rows, around, List.map_cons, List.map_append, inside]
    rfl
  | cond _ _ body branches otherwise => by
    have inside := deeperDepth (rowsAllAround body) body
    have last := deeperDepth (rowsAllAround otherwise) otherwise
    simp only [rows, around, List.map_cons, List.map_append, inside,
      rowsBranchesAround branches, List.append_assoc]
    split
    · rfl
    · simp only [List.map_cons, List.map_append, last]
      rfl

theorem rowsAllAround : ∀ ns : List Node,
    (rowsAll ns).map Row.depth = (aroundAll ns).map List.length
  | [] => rfl
  | n :: ns => by
    simp only [rowsAll, aroundAll, List.map_append, rowsAround n, rowsAllAround ns]

theorem rowsBranchesAround : ∀ (bs : List (Branch Node)) (last : List Row),
    (rowsBranches bs last).map Row.depth =
      (aroundBranches bs).map List.length ++ last.map Row.depth
  | [], _ => rfl
  | ⟨_, body⟩ :: rest, last => by
    have inside := deeperDepth (rowsAllAround body) body
    simp only [rowsBranches, aroundBranches, List.map_cons, List.map_append, inside,
      rowsBranchesAround rest last, List.cons_append, List.append_assoc]
    rfl

end

end Node

/- The text starts, and not with a blank. -/
def Text.Tight (cs : List Char) : Prop := ∃ c rest, cs = c :: rest ∧ c ≠ ' '

namespace Text

theorem tightAppend {cs : List Char} (h : Tight cs) (ds : List Char) : Tight (cs ++ ds) := by
  obtain ⟨c, rest, rfl, other⟩ := h
  exact ⟨c, rest ++ ds, rfl, other⟩

end Text

namespace Script
open Text (Tight tightAppend)

theorem nameTight {s : String} (name : isName s = true) : Tight s.toList := by
  obtain ⟨c, cs, chars, start, _⟩ := nameChars name
  refine ⟨c, cs, chars, ?_⟩
  rintro rfl
  exact absurd (Lexical.startsInWord start) (by decide)

theorem numeralTight {n : Number} (unsigned : n.isUnsigned = true) :
    Tight (Emit.numeral.chars n) := by
  rcases numeralCases unsigned with ⟨ds, fs, splits⟩ | word
  · obtain ⟨d, more, start, digit⟩ := Decimal.splitsStart splits
    refine ⟨d, more, start, ?_⟩
    rintro rfl
    exact absurd digit (by decide)
  · exact ⟨'I', "nfinity".toList, word, by decide⟩

theorem expressionTight (indent : Nat) (e : Node) (h : e.obeys Node.wellFormed .operand = true) :
    Tight (Emit.node indent .operand e) := by
  cases e with
  | literal _ value =>
    cases value with
    | number n => exact numeralTight h
    | text s => exact ⟨'"', _, rfl, by decide⟩
  | name _ s => exact nameTight h
  | binary _ op l r =>
    simp only [Node.obeys, Bool.and_eq_true] at h
    have left := expressionTight indent l h.1.2
    simp only [Emit.node, Emit.ended]
    cases comparison : op.isComparison with
    | false => exact ⟨'(', _, rfl, by decide⟩
    | true =>
      simp only [Bool.not_true, Bool.and_false, Emit.grouped, Bool.false_eq_true, if_false]
      exact tightAppend (tightAppend left _) _
  | assign _ x v => exact ⟨'(', _, rfl, by decide⟩
  | call _ f vs =>
    simp only [Node.obeys, Bool.and_eq_true] at h
    exact tightAppend (nameTight h.1) _
  | function | cond | loop | handler | result => simp [Node.obeys, Node.wellFormed] at h

end Script

namespace Clause
open Text (Tight tightAppend)

theorem spelledTight {s : String} {c : Char} {rest : List Char} (start : s.toList = c :: rest)
    (other : c ≠ ' ') : Tight (Emit.spelled s) := by
  rw [Emit.spelled]
  exact ⟨c, rest, start, other⟩

theorem tight {c : Clause} (h : c.obeys Node.wellFormed = true) : Tight c.chars := by
  cases c with
  | value e => exact tightAppend (Script.expressionTight 0 e h) _
  | otherwise | close | closeHandler => exact spelledTight rfl (by decide)
  | _ => exact tightAppend (spelledTight rfl (by decide)) _

end Clause

namespace Emit
open Node (rowsAll)

/- The lines of the program, written without what stands before it. -/
def programLines (indent : Nat) (p : List Node) : List (List Char) :=
  Text.lines (program ⟨false, indent⟩ p).toList

theorem programRows (indent : Nat) {p : List Node}
    (h : Node.obeyAll Node.wellFormed .statement p = true) :
    (program ⟨false, indent⟩ p).toList = Text.joined ((rowsAll p).map (Row.text indent)) := by
  rw [programHeader, declarationsRows indent p h]
  rfl

theorem programLinesRows (indent : Nat) {p : List Node}
    (h : Node.obeyAll Node.wellFormed .statement p = true) :
    programLines indent p = (rowsAll p).map (Row.text indent) := by
  rw [programLines, programRows indent h]
  refine Text.linesJoined ?_
  intro l member
  obtain ⟨r, inside, rfl⟩ := List.mem_map.mp member
  exact Row.isLine (Node.rowsAllObey Node.strictWellFormed p h r inside) indent

end Emit

theorem indentationIsLayout {source : String} {p : List Node} (parsed : parse source = .ok p)
    (n : Nat) :
    (Emit.programLines n p).length = (Emit.programLines 0 p).length ∧
      (Node.aroundAll p).length = (Emit.programLines 0 p).length ∧
      (∀ (i : Nat) (blocks : List (List Node)) (line : List Char),
        (Node.aroundAll p)[i]? = some blocks → (Emit.programLines 0 p)[i]? = some line →
          (Emit.programLines n p)[i]? = some (List.replicate (n * blocks.length) ' ' ++ line)) ∧
      (∀ line ∈ Emit.programLines 0 p, line ≠ [] ∧ line.head? ≠ some ' ') ∧
      (Emit.program ⟨false, n⟩ p).toList = Text.joined (Emit.programLines n p) := by
  have formed := parseWellFormed parsed
  have depths := Node.rowsAllAround p
  rw [Emit.programLinesRows n formed, Emit.programLinesRows 0 formed]
  refine ⟨by simp, by simpa using (congrArg List.length depths).symm, ?_, ?_, Emit.programRows n formed⟩
  · intro i blocks line around first
    rw [List.getElem?_map] at first ⊢
    obtain ⟨r, row, rfl⟩ := Option.map_eq_some_iff.mp first
    have depth : r.depth = blocks.length := by
      have here := congrArg (fun ks => ks[i]?) depths
      simp only [List.getElem?_map, row, around, Option.map_some, Option.some.injEq] at here
      exact here
    rw [row, Option.map_some, Row.text, Row.text, depth, Nat.zero_mul]
    rfl
  · intro line member
    obtain ⟨r, inside, rfl⟩ := List.mem_map.mp member
    obtain ⟨c, rest, chars, other⟩ :=
      Clause.tight (Node.rowsAllObey Node.strictWellFormed p formed r inside)
    rw [Row.text, Nat.zero_mul, List.replicate_zero, List.nil_append, chars]
    exact ⟨List.cons_ne_nil c rest, fun blank => other (Option.some.inj blank)⟩

/- The line of the assignment, which the body of the function is around. -/
theorem keepingIndented :
    parse "function f[a](g=a)\nf[h=f]" = .ok keepingTree ∧
      (Node.aroundAll keepingTree)[1]? = some [[.assign 1 "g" (.name 1 "a")]] ∧
      (Emit.programLines 0 keepingTree)[1]? = some "var g = a;".toList ∧
      (Emit.programLines 4 keepingTree)[1]? = some ("    ".toList ++ "var g = a;".toList) := by
  have blocks : (Node.aroundAll keepingTree)[1]? = some [[.assign 1 "g" (.name 1 "a")]] := rfl
  have line : (Emit.programLines 0 keepingTree)[1]? = some "var g = a;".toList := by decide +kernel
  obtain ⟨_, _, lines, _⟩ := indentationIsLayout keepingParses 4
  exact ⟨keepingParses, blocks, line, lines 1 _ _ blocks line⟩

end EventScript
