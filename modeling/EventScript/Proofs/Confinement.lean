import EventScript.Proofs.Rows

/-! The texts of a program stay inside their literals. Every row is masked as the row with
its texts blanked is, and ends with no literal open, so the scan comes to the next row as
it came to the first. Programs that differ in their texts alone are masked to one text. -/
namespace EventScript

namespace Script
open Text (joined joinedCons)

theorem contentsMember {m : Mode} {c : Char} {cs : List Char} (member : c ∈ contents m cs) : c ∈ cs :=
  (pickedSublist _ m cs).subset member

theorem newlineMasked (cs : List Char) :
    masked .outside ('\n' :: cs) = '\n' :: masked .outside cs := rfl

theorem newlineContents (cs : List Char) : contents .outside ('\n' :: cs) = contents .outside cs := rfl

theorem newlineAfter (cs : List Char) :
    Mode.outside.after ('\n' :: cs) = Mode.outside.after cs := rfl

theorem joinedMasked {ls ks : List (List Char)} (each : List.Forall₂ Alike ls ks) :
    masked .outside (joined ls) = masked .outside (joined ks) := by
  induction each with
  | nil => rfl
  | cons first _ ih =>
    rw [joinedCons, joinedCons, maskedAppend first.left, maskedAppend first.right, newlineMasked,
      newlineMasked, first.same, ih]

theorem joinedContents {ls : List (List Char)} (each : ∀ l ∈ ls, Sealed l) :
    contents .outside (joined ls) = ls.flatMap (contents .outside) := by
  induction ls with
  | nil => rfl
  | cons l ls ih =>
    obtain ⟨first, rest⟩ := List.forall_mem_cons.mp each
    have start : contents .outside (l ++ '\n' :: joined ls) =
        contents .outside l ++ contents .outside ('\n' :: joined ls) := by
      rw [contents, pickedAppend, first.closed]
    rw [joinedCons, start, newlineContents, ih rest, List.flatMap_cons]

/- Text whose literals are all closed, with no end of a line in any of them. -/
structure Confined (cs : List Char) : Prop where
  inLine : '\n' ∉ contents .outside cs
  plain : '\r' ∉ contents .outside cs
  closed : Mode.outside.after cs = .outside

theorem joinedConfined {ls : List (List Char)} (each : ∀ l ∈ ls, Sealed l) : Confined (joined ls) := by
  have inLine : ∀ c ∈ contents .outside (joined ls), ∃ l ∈ ls, c ∈ l := by
    intro c member
    rw [joinedContents each] at member
    obtain ⟨l, inside, here⟩ := List.mem_flatMap.mp member
    exact ⟨l, inside, contentsMember here⟩
  refine ⟨?_, ?_, ?_⟩
  · intro member
    obtain ⟨l, inside, here⟩ := inLine _ member
    exact (each l inside).inLine here
  · intro member
    obtain ⟨l, inside, here⟩ := inLine _ member
    exact (each l inside).plain here
  · clear inLine
    induction ls with
    | nil => rfl
    | cons l ls ih =>
      obtain ⟨first, rest⟩ := List.forall_mem_cons.mp each
      rw [joinedCons, afterAppend, first.closed, newlineAfter, ih rest]

end Script

namespace Row
open Script

def blanked (r : Row) : Row := ⟨r.depth, r.clause.blanked⟩

theorem alike {r : Row} (h : r.obeys Node.wellFormed = true) (indent : Nat) :
    Alike (r.text indent) (r.blanked.text indent) := by
  have blanks : Sealed (List.replicate (indent * r.depth) ' ') := by
    refine sealedPlain ?_
    intro c member
    rw [List.eq_of_mem_replicate member]
    rfl
  exact alikeAppend (alikeSelf blanks) (Clause.alike h)

theorem deeperBlanked (rs : List Row) :
    (rs.map blanked).map deeper = (rs.map deeper).map blanked := by
  simp only [List.map_map]
  rfl

end Row

namespace Node

mutual

theorem rowsBlanked : ∀ n : Node, n.blanked.rows = n.rows.map Row.blanked
  | literal _ (.number _) | literal _ (.text _) | name .. | binary .. | call .. | assign .. | result .. =>
    rfl
  | function _ _ _ body | handler _ _ body | loop _ _ _ body => by
    simp only [blanked, rows, rowsAllBlanked body, Row.deeperBlanked, List.map_cons, List.map_append]
    rfl
  | cond _ _ body branches otherwise => by
    have none : (blankedAll otherwise).isEmpty = otherwise.isEmpty := by cases otherwise <;> rfl
    simp only [blanked, rows, rowsAllBlanked body, rowsAllBlanked otherwise, Row.deeperBlanked, none,
      List.map_cons, List.map_append, ← rowsBranchesBlanked branches]
    split <;> simp [Row.blanked, Clause.blanked]

theorem rowsAllBlanked : ∀ ns : List Node, rowsAll (blankedAll ns) = (rowsAll ns).map Row.blanked
  | [] => rfl
  | n :: ns => by
    simp only [blankedAll, rowsAll, rowsBlanked n, rowsAllBlanked ns, List.map_append]

theorem rowsBranchesBlanked : ∀ (bs : List (Branch Node)) (last : List Row),
    rowsBranches (blankedBranches bs) (last.map Row.blanked) =
      (rowsBranches bs last).map Row.blanked
  | [], _ => rfl
  | ⟨_, body⟩ :: rest, last => by
    simp only [blankedBranches, rowsBranches, rowsAllBlanked body, rowsBranchesBlanked rest last,
      Row.deeperBlanked, List.map_cons, List.map_append]
    rfl

end

end Node

namespace Emit
open Node (rowsAll blankedAll)

def afterHeader (options : EmitOptions) (text : String) : List Char :=
  text.toList.drop (header options).length

def maskedText (options : EmitOptions) (text : String) : List Char :=
  text.toList.take (header options).length ++ Script.masked .outside (afterHeader options text)

theorem afterHeaderProgram (options : EmitOptions) (p : List Node) :
    afterHeader options (program options p) = declarations options.indent p := by
  rw [afterHeader, programHeader, ← String.length_toList, List.drop_left]

theorem maskedTextProgram (options : EmitOptions) (p : List Node) :
    maskedText options (program options p) =
      (header options).toList ++ Script.masked .outside (declarations options.indent p) := by
  rw [maskedText, afterHeaderProgram, programHeader, ← String.length_toList, List.take_left]

theorem declarationsMasked (indent : Nat) {p : List Node}
    (h : Node.obeyAll Node.wellFormed .statement p = true) :
    Script.masked .outside (declarations indent p) =
      Script.masked .outside (Row.texts indent (rowsAll (blankedAll p))) := by
  rw [declarationsRows indent p h, Node.rowsAllBlanked, Row.texts, Row.texts, List.map_map]
  refine Script.joinedMasked (List.forall₂_map_left_iff.mpr (List.forall₂_map_right_iff.mpr ?_))
  refine List.forall₂_same.mpr ?_
  intro r member
  exact Row.alike (Node.rowsAllObey Node.strictWellFormed p h r member) indent

theorem declarationsConfined (indent : Nat) {p : List Node}
    (h : Node.obeyAll Node.wellFormed .statement p = true) :
    Script.Confined (declarations indent p) := by
  rw [declarationsRows indent p h]
  refine Script.joinedConfined ?_
  intro l member
  obtain ⟨r, inside, rfl⟩ := List.mem_map.mp member
  exact (Row.alike (Node.rowsAllObey Node.strictWellFormed p h r inside) indent).left

end Emit

theorem textsAreConfined {a b : String} {p q : List Node} (first : parse a = .ok p)
    (second : parse b = .ok q) (same : Node.blankedAll p = Node.blankedAll q)
    (options : EmitOptions) :
    Emit.maskedText options (Emit.program options p) =
        Emit.maskedText options (Emit.program options q) ∧
      Script.Confined (Emit.afterHeader options (Emit.program options p)) ∧
      Script.Confined (Emit.afterHeader options (Emit.program options q)) := by
  have formed := parseWellFormed first
  have formed' := parseWellFormed second
  simp only [Emit.maskedTextProgram, Emit.afterHeaderProgram]
  refine ⟨?_, Emit.declarationsConfined _ formed, Emit.declarationsConfined _ formed'⟩
  rw [Emit.declarationsMasked _ formed, Emit.declarationsMasked _ formed', same]

/- One text would close its literal and the line, were they written as they are. -/
theorem breakingTextConfined :
    parse "'\\\"\\n'" = .ok [.literal 1 (.text "\"\n")] ∧ parse "''" = .ok [.literal 1 (.text "")] ∧
      Emit.program ⟨false, 4⟩ [.literal 1 (.text "\"\n")] = "\"\\\"\\n\";\n" ∧
      Emit.maskedText ⟨false, 4⟩ (Emit.program ⟨false, 4⟩ [.literal 1 (.text "\"\n")]) =
        Emit.maskedText ⟨false, 4⟩ (Emit.program ⟨false, 4⟩ [.literal 1 (.text "")]) := by
  have breaking : Lexical.TextBody '\'' ['\\', '"', '\\', 'n'] ['"', '\n'] :=
    .escape (by decide) (.escape (by decide) .nil)
  have first : parse "'\\\"\\n'" = .ok [.literal 1 (.text "\"\n")] := by
    have cut : Lexical.Cut 1 "'\\\"\\n'".toList [⟨.text "\"\n", 1⟩] :=
      Lexical.cutLexeme (.text (.inr rfl) breaking) (.finish .nil)
    exact (parseIff _ _).mpr ⟨_, cut, (parseTokensIff [⟨.text "\"\n", 1⟩] _).mp (by cbv)⟩
  have second : parse "''" = .ok [.literal 1 (.text "")] := by
    have cut : Lexical.Cut 1 "''".toList [⟨.text "", 1⟩] :=
      Lexical.cutLexeme (.text (.inr rfl) .nil) (.finish .nil)
    exact (parseIff _ _).mpr ⟨_, cut, (parseTokensIff [⟨.text "", 1⟩] _).mp (by cbv)⟩
  exact ⟨first, second, by decide +kernel, (textsAreConfined first second rfl ⟨false, 4⟩).1⟩

end EventScript
