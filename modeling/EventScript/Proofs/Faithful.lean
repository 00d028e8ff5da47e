import EventScript.Proofs.Rows

/-! The written text tells the program. Lines of the text are rows, the symbols of a
row tell its clause, and the clauses in turn tell the trees: a body goes on until the
clause that closes it. Only the lines of the source are lost. -/
namespace EventScript

namespace Row
open Script (scansUnique scansBlanks)

/- What is left of a row without its depth and the lines of its nodes. -/
def content (r : Row) : Clause := r.clause.unlined

theorem textContent {r u : Row} {indent : Nat} (hr : r.obeys Node.writable = true)
    (hu : u.obeys Node.writable = true) (same : r.text indent = u.text indent) :
    r.content = u.content := by
  have left := scansBlanks (Clause.scans r.clause hr) (indent * r.depth)
  have right := scansBlanks (Clause.scans u.clause hu) (indent * u.depth)
  rw [text, text] at same
  rw [same] at left
  exact Clause.symbolsDetermine hr hu (scansUnique left right)

theorem rowsContent {rs us : List Row} {indent : Nat} (hr : ∀ r ∈ rs, r.obeys Node.writable = true)
    (hu : ∀ u ∈ us, u.obeys Node.writable = true)
    (same : rs.map (text indent) = us.map (text indent)) : rs.map content = us.map content := by
  induction rs generalizing us with
  | nil =>
    cases us with
    | nil => rfl
    | cons u us => contradiction
  | cons r rs ih =>
    cases us with
    | nil => contradiction
    | cons u us =>
      obtain ⟨first, rest⟩ := List.forall_mem_cons.mp hr
      obtain ⟨first', rest'⟩ := List.forall_mem_cons.mp hu
      obtain ⟨one, more⟩ := List.cons.inj same
      rw [List.map_cons, List.map_cons, textContent first first' one, ih rest rest' more]

theorem textsContent {rs us : List Row} {indent : Nat} (hr : ∀ r ∈ rs, r.obeys Node.writable = true)
    (hu : ∀ u ∈ us, u.obeys Node.writable = true) (same : texts indent rs = texts indent us) :
    rs.map content = us.map content := by
  have lines : ∀ ks : List Row, (∀ k ∈ ks, k.obeys Node.writable = true) →
      Text.lines (texts indent ks) = ks.map (text indent) := by
    intro ks each
    apply Text.linesJoined
    intro l member
    obtain ⟨k, inside, rfl⟩ := List.mem_map.mp member
    exact isLine (Clause.obeysWeaker Node.strictWritable.formed (each k inside)) indent
  have split := congrArg Text.lines same
  rw [lines rs hr, lines us hu] at split
  exact rowsContent hr hu split

theorem contentDeeper (rs : List Row) : (rs.map deeper).map content = rs.map content := by
  rw [List.map_map]
  rfl

end Row

/- A body goes on until one of these. -/
def Clause.stops : Clause → Bool
  | .close | .closeHandler | .otherwise | .branch _ => true
  | _ => false

namespace Node
open Row (content contentDeeper)

def clauses (n : Node) : List Clause := n.rows.map content

def clausesAll (ns : List Node) : List Clause := (rowsAll ns).map content

def clausesBranches (bs : List (Branch Node)) : List Clause := (rowsBranches bs []).map content

def clausesLast (otherwise : List Node) : List Clause :=
  if otherwise.isEmpty then [.close] else .otherwise :: (clausesAll otherwise ++ [.close])

theorem clausesCons (n : Node) (ns : List Node) :
    clausesAll (n :: ns) = n.clauses ++ clausesAll ns := by
  rw [clausesAll, rowsAll, List.map_append]
  rfl

theorem clausesBranch (c : Node) (body : List Node) (rest : List (Branch Node)) :
    clausesBranches (⟨c, body⟩ :: rest) =
      .branch c.unlined :: (clausesAll body ++ clausesBranches rest) := by
  rw [clausesBranches, rowsBranches, List.map_cons, List.map_append, contentDeeper]
  rfl

theorem rowsBranchesAppend (bs : List (Branch Node)) (last : List Row) :
    rowsBranches bs last = rowsBranches bs [] ++ last := by
  induction bs with
  | nil => rfl
  | cons b bs ih =>
    obtain ⟨c, body⟩ := b
    rw [rowsBranches, rowsBranches, ih, List.cons_append, List.append_assoc]

theorem clausesFunction (line : Nat) (f : String) (ps : List String) (body : List Node) :
    (function line f ps body).clauses = .function f ps :: (clausesAll body ++ [.close]) := by
  rw [clauses, rows, List.map_cons, List.map_append, contentDeeper]
  rfl

theorem clausesLoop (line : Nat) (x : String) (e : Node) (body : List Node) :
    (loop line x e body).clauses = .loop x e.unlined :: (clausesAll body ++ [.close]) := by
  rw [clauses, rows, List.map_cons, List.map_append, contentDeeper]
  rfl

theorem clausesHandler (line : Nat) (event : String) (body : List Node) :
    (handler line event body).clauses = .handler event :: (clausesAll body ++ [.closeHandler]) := by
  rw [clauses, rows, List.map_cons, List.map_append, contentDeeper]
  rfl

theorem clausesCond (line : Nat) (c : Node) (body : List Node) (branches : List (Branch Node))
    (otherwise : List Node) :
    (cond line c body branches otherwise).clauses =
      .cond c.unlined :: (clausesAll body ++ (clausesBranches branches ++ clausesLast otherwise)) := by
  rw [clauses, rows, rowsBranchesAppend, List.map_cons, List.map_append, List.map_append,
    contentDeeper, clausesLast]
  split
  · rfl
  · rw [List.map_cons, List.map_append, contentDeeper]
    rfl

theorem clausesResult (line : Nat) (e : Node) : (result line e).clauses = [.result e.unlined] := rfl

theorem clausesAssign (line : Nat) (x : String) (e : Node) :
    (assign line x e).clauses = [.assign x e.unlined] := rfl

theorem headGoes (n : Node) : ∃ c rest, n.clauses = c :: rest ∧ c.stops = false := by
  cases n with
  | literal | name | binary | call | assign | result => exact ⟨_, _, rfl, rfl⟩
  | function => exact ⟨_, _, clausesFunction .., rfl⟩
  | cond => exact ⟨_, _, clausesCond .., rfl⟩
  | loop => exact ⟨_, _, clausesLoop .., rfl⟩
  | handler => exact ⟨_, _, clausesHandler .., rfl⟩

/- Nothing follows that could go on with a body. -/
def Stops (cs : List Clause) : Prop := ∀ c rest, cs = c :: rest → c.stops = true

theorem stopsNil : Stops [] := by
  intro c rest same
  contradiction

theorem stopsCons {c : Clause} (stops : c.stops = true) (cs : List Clause) : Stops (c :: cs) := by
  intro _ _ same
  cases same
  exact stops

theorem headNoStop {n : Node} {cs ds : List Clause} (same : ds = n.clauses ++ cs) : ¬ Stops ds := by
  intro stops
  obtain ⟨c, rest, start, goes⟩ := headGoes n
  rw [start, List.cons_append] at same
  rw [stops c _ same] at goes
  contradiction

/- The end of a conditional: no further guarded body. -/
def Ends (cs : List Clause) : Prop := ∃ rest, cs = .close :: rest ∨ cs = .otherwise :: rest

theorem endsLast (otherwise : List Node) (cs : List Clause) : Ends (clausesLast otherwise ++ cs) := by
  unfold clausesLast
  split
  · exact ⟨_, .inl rfl⟩
  · exact ⟨_, .inr rfl⟩

theorem endsStop {cs : List Clause} (ends : Ends cs) : Stops cs := by
  obtain ⟨rest, rfl | rfl⟩ := ends
  · exact stopsCons rfl rest
  · exact stopsCons rfl rest

theorem branchesStop (bs : List (Branch Node)) {cs : List Clause} (ends : Ends cs) :
    Stops (clausesBranches bs ++ cs) := by
  cases bs with
  | nil => exact endsStop ends
  | cons b rest =>
    obtain ⟨c, body⟩ := b
    rw [clausesBranch]
    exact stopsCons rfl _

theorem endsNoBranch {cs ds : List Clause} {c : Node} {body : List Node} {bs : List (Branch Node)}
    (same : cs = clausesBranches (⟨c, body⟩ :: bs) ++ ds) : ¬ Ends cs := by
  intro ends
  rw [clausesBranch, List.cons_append] at same
  obtain ⟨rest, start | start⟩ := ends
  · rw [start] at same
    cases (List.cons.inj same).1
  · rw [start] at same
    cases (List.cons.inj same).1

/- The clauses of a body, and where it stops, tell the body. -/
def Tells (ns : List Node) : Prop :=
  ∀ ms cs ds, Stops cs → Stops ds → clausesAll ns ++ cs = clausesAll ms ++ ds →
    relineAll (fun _ => 0) ns = relineAll (fun _ => 0) ms ∧ cs = ds

theorem closedTells {ns ms : List Node} {c : Clause} {cs ds : List Clause} (body : Tells ns)
    (stops : c.stops = true) (same : clausesAll ns ++ c :: cs = clausesAll ms ++ c :: ds) :
    relineAll (fun _ => 0) ns = relineAll (fun _ => 0) ms ∧ cs = ds := by
  obtain ⟨nodes, rest⟩ := body ms _ _ (stopsCons stops cs) (stopsCons stops ds) same
  exact ⟨nodes, (List.cons.inj rest).2⟩

theorem valueTells {e m : Node} {cs ds : List Clause} (alone : e.clauses = [.value e.unlined])
    (same : e.clauses ++ cs = m.clauses ++ ds) : e.unlined = m.unlined ∧ cs = ds := by
  rw [alone] at same
  cases m with
  | literal | name | binary | call =>
    obtain ⟨first, rest⟩ := List.cons.inj same
    exact ⟨Clause.value.inj first, rest⟩
  | _ => simp [clauses, rows, content, Clause.unlined] at same

theorem lastTells {ns ms : List Node} {cs ds : List Clause} (body : Tells ns)
    (same : clausesLast ns ++ cs = clausesLast ms ++ ds) :
    relineAll (fun _ => 0) ns = relineAll (fun _ => 0) ms ∧ cs = ds := by
  cases ns with
  | nil =>
    cases ms with
    | nil => exact ⟨rfl, (List.cons.inj same).2⟩
    | cons m ms => simp [clausesLast] at same
  | cons n ns =>
    cases ms with
    | nil => simp [clausesLast] at same
    | cons m ms =>
      have inner : clausesAll (n :: ns) ++ .close :: cs = clausesAll (m :: ms) ++ .close :: ds := by
        simpa [clausesLast] using same
      exact closedTells body rfl inner

-- Induction on the first tree. What follows its clauses is told with it, since a body can only
-- be cut off where the clauses after it are known.
mutual

theorem nodeTells : ∀ (n m : Node) (cs ds : List Clause), n.clauses ++ cs = m.clauses ++ ds →
    n.unlined = m.unlined ∧ cs = ds
  | literal .., m, cs, ds, same | name .., m, cs, ds, same | binary .., m, cs, ds, same
  | call .., m, cs, ds, same => valueTells rfl same
  | assign _ x e, m, cs, ds, same => by
    cases m with
    | assign _ y f =>
      simp only [clausesAssign, List.cons_append, List.nil_append, List.cons.injEq,
        Clause.assign.injEq] at same
      obtain ⟨⟨rfl, values⟩, rest⟩ := same
      rw [unlined] at values
      exact ⟨by rw [unlined, reline, reline, values], rest⟩
    | _ => simp [clauses, rows, content, Clause.unlined] at same
  | result _ e, m, cs, ds, same => by
    cases m with
    | result _ f =>
      simp only [clausesResult, List.cons_append, List.nil_append, List.cons.injEq,
        Clause.result.injEq] at same
      obtain ⟨values, rest⟩ := same
      rw [unlined] at values
      exact ⟨by rw [unlined, reline, reline, values], rest⟩
    | _ => simp [clauses, rows, content, Clause.unlined] at same
  | function _ f ps body, m, cs, ds, same => by
    cases m with
    | function _ g qs other =>
      simp only [clausesFunction, List.cons_append, List.append_assoc, List.nil_append,
        List.cons.injEq, Clause.function.injEq] at same
      obtain ⟨⟨rfl, rfl⟩, rest⟩ := same
      obtain ⟨bodies, rest⟩ := closedTells (bodyTells body) rfl rest
      exact ⟨by rw [unlined, reline, reline, bodies], rest⟩
    | _ => simp [clauses, rows, content, Clause.unlined] at same
  | loop _ x e body, m, cs, ds, same => by
    cases m with
    | loop _ y f other =>
      simp only [clausesLoop, List.cons_append, List.append_assoc, List.nil_append,
        List.cons.injEq, Clause.loop.injEq] at same
      obtain ⟨⟨rfl, items⟩, rest⟩ := same
      obtain ⟨bodies, rest⟩ := closedTells (bodyTells body) rfl rest
      rw [unlined] at items
      exact ⟨by rw [unlined, reline, reline, items, bodies], rest⟩
    | _ => simp [clauses, rows, content, Clause.unlined] at same
  | handler _ event body, m, cs, ds, same => by
    cases m with
    | handler _ other body' =>
      simp only [clausesHandler, List.cons_append, List.append_assoc, List.nil_append,
        List.cons.injEq, Clause.handler.injEq] at same
      obtain ⟨rfl, rest⟩ := same
      obtain ⟨bodies, rest⟩ := closedTells (bodyTells body) rfl rest
      exact ⟨by rw [unlined, reline, reline, bodies], rest⟩
    | _ => simp [clauses, rows, content, Clause.unlined] at same
  | cond _ c body branches otherwise, m, cs, ds, same => by
    cases m with
    | cond _ d body' branches' otherwise' =>
      simp only [clausesCond, List.cons_append, List.append_assoc, List.cons.injEq,
        Clause.cond.injEq] at same
      obtain ⟨conditions, rest⟩ := same
      have ends := endsLast otherwise cs
      have ends' := endsLast otherwise' ds
      obtain ⟨bodies, rest⟩ := bodyTells body _ _ _ (branchesStop branches ends)
        (branchesStop branches' ends') rest
      obtain ⟨others, rest⟩ := branchesTell branches branches' _ _ ends ends' rest
      obtain ⟨lasts, rest⟩ := lastTells (bodyTells otherwise) rest
      rw [unlined] at conditions
      exact ⟨by rw [unlined, reline, reline, conditions, bodies, others, lasts], rest⟩
    | _ => simp [clauses, rows, content, Clause.unlined] at same

theorem bodyTells : ∀ ns : List Node, Tells ns
  | [] => by
    intro ms cs ds stops _ same
    cases ms with
    | nil => exact ⟨rfl, same⟩
    | cons m ms =>
      rw [clausesCons, List.append_assoc] at same
      exact absurd stops (headNoStop same)
  | n :: ns => by
    intro ms cs ds stops stops' same
    cases ms with
    | nil =>
      rw [clausesCons, List.append_assoc] at same
      exact absurd stops' (headNoStop same.symm)
    | cons m ms =>
      rw [clausesCons, clausesCons, List.append_assoc, List.append_assoc] at same
      obtain ⟨first, rest⟩ := nodeTells n m _ _ same
      obtain ⟨nodes, after⟩ := bodyTells ns ms cs ds stops stops' rest
      rw [unlined] at first
      exact ⟨by rw [relineAll, relineAll, first, nodes], after⟩

theorem branchesTell : ∀ (bs bs' : List (Branch Node)) (cs ds : List Clause), Ends cs → Ends ds →
    clausesBranches bs ++ cs = clausesBranches bs' ++ ds →
      relineBranches (fun _ => 0) bs = relineBranches (fun _ => 0) bs' ∧ cs = ds
  | [], [], cs, ds, _, _, same => ⟨rfl, same⟩
  | [], ⟨c, body⟩ :: rest, cs, ds, ends, _, same => absurd ends (endsNoBranch same)
  | ⟨c, body⟩ :: rest, [], cs, ds, _, ends, same => absurd ends (endsNoBranch same.symm)
  | ⟨c, body⟩ :: rest, ⟨c', body'⟩ :: rest', cs, ds, ends, ends', same => by
    simp only [clausesBranch, List.cons_append, List.append_assoc, List.cons.injEq,
      Clause.branch.injEq] at same
    obtain ⟨conditions, after⟩ := same
    obtain ⟨bodies, after⟩ := bodyTells body body' _ _ (branchesStop rest ends)
      (branchesStop rest' ends') after
    obtain ⟨others, after⟩ := branchesTell rest rest' cs ds ends ends' after
    rw [unlined] at conditions
    exact ⟨by rw [relineBranches, relineBranches, conditions, bodies, others], after⟩

end

theorem clausesTell {ns ms : List Node} (same : clausesAll ns = clausesAll ms) :
    ns.map unlined = ms.map unlined := by
  have both : clausesAll ns ++ [] = clausesAll ms ++ [] := by rw [same]
  have nodes := (bodyTells ns ms [] [] stopsNil stopsNil both).1
  rwa [relineAllMap, relineAllMap] at nodes

end Node

namespace Emit

theorem declarationsTell {indent : Nat} {p q : List Node}
    (hp : Node.obeyAll Node.writable .statement p = true)
    (hq : Node.obeyAll Node.writable .statement q = true)
    (same : declarations indent p = declarations indent q) :
    p.map Node.unlined = q.map Node.unlined := by
  have formed := Node.strictWritable.formed
  rw [declarationsRows indent p (Node.obeyWeakerAll formed hp),
    declarationsRows indent q (Node.obeyWeakerAll formed hq)] at same
  apply Node.clausesTell
  exact Row.textsContent (Node.rowsAllObey Node.strictWritable p hp)
    (Node.rowsAllObey Node.strictWritable q hq) same

theorem programDeclarations {options : EmitOptions} {p q : List Node}
    (same : program options p = program options q) :
    declarations options.indent p = declarations options.indent q := by
  have chars := congrArg String.toList same
  rw [programHeader, programHeader] at chars
  exact List.append_cancel_left chars

end Emit

theorem parsedWritable {source : String} {p : List Node} (parsed : parse source = .ok p)
    (finite : Node.obeyAll Node.finite .statement p = true) :
    Node.obeyAll Node.writable .statement p = true :=
  Node.obeyBothAll (parseWellFormed parsed) finite

theorem textTellsTheProgram (options : EmitOptions) {a b : String} {p q : List Node}
    (first : parse a = .ok p) (second : parse b = .ok q)
    (finite : Node.obeyAll Node.finite .statement p = true)
    (finite' : Node.obeyAll Node.finite .statement q = true) :
    Emit.program options p = Emit.program options q ↔ p.map Node.unlined = q.map Node.unlined := by
  constructor
  · intro same
    have declarations := Emit.programDeclarations same
    exact Emit.declarationsTell (parsedWritable first finite) (parsedWritable second finite')
      declarations
  · intro same
    exact emitUnlined same options

/- The number that the numeral 1 stands for. -/
def oneRead : Number := (Decimal.ofParts ['1'] []).toNumber false

theorem oneFinite : oneRead.isFinite = true := by decide +kernel

def chainedTree : Node :=
  .binary 1 .subtract (.binary 1 .subtract (.name 1 "g") (.literal 1 (.number oneRead))) (.name 1 "g")

def nestedTree : Node :=
  .binary 1 .subtract (.name 1 "g") (.binary 1 .subtract (.literal 1 (.number oneRead)) (.name 1 "g"))

def chainedTokens : List Token :=
  [⟨.name "g", 1⟩, ⟨.mark .minus, 1⟩, ⟨.number oneRead, 1⟩, ⟨.mark .minus, 1⟩, ⟨.name "g", 1⟩]

def nestedTokens : List Token :=
  [⟨.name "g", 1⟩, ⟨.mark .minus, 1⟩, ⟨.mark .leftParen, 1⟩, ⟨.number oneRead, 1⟩,
    ⟨.mark .minus, 1⟩, ⟨.name "g", 1⟩, ⟨.mark .rightParen, 1⟩]

namespace Lexical

theorem gLexeme {c : Char} {after : List Char} (ends : ¬ InWord c) :
    Lexeme ['g'] (.name "g") (c :: after) :=
  letterBefore (by decide) (by intro k; cases k <;> decide) ends

theorem minusLexeme (after : List Char) : Lexeme ['-'] (.mark .minus) after :=
  .mark (m := .minus) (by decide)

theorem oneLexeme (after : List Char) : Lexeme ['1'] (.number oneRead) ('-' :: after) :=
  .whole (List.cons_ne_nil _ _) (List.forall_mem_singleton.mpr (by decide))
    (by rintro c rest ⟨⟩; decide) (by rintro rest ⟨⟩)

theorem chainedCut : Cut 1 "g-1-g".toList chainedTokens := by
  have last : Lexeme ['g'] (.name "g") [] :=
    letterLexeme (by decide) (by intro k; cases k <;> decide) (by rintro c rest ⟨⟩)
  exact cutLexeme (gLexeme (by decide)) (cutLexeme (minusLexeme _) (cutLexeme (oneLexeme _)
    (cutLexeme (minusLexeme _) (cutLexeme last (.finish .nil)))))

theorem nestedCut : Cut 1 "g-(1-g)".toList nestedTokens := by
  have opening : Lexeme ['('] (.mark .leftParen) "1-g)".toList := .mark (m := .leftParen) (by decide)
  have closing : Lexeme [')'] (.mark .rightParen) [] := .mark (m := .rightParen) (by decide)
  exact cutLexeme (gLexeme (by decide)) (cutLexeme (minusLexeme _) (cutLexeme opening
    (cutLexeme (oneLexeme _) (cutLexeme (minusLexeme _) (cutLexeme (gLexeme (by decide))
      (cutLexeme closing (.finish .nil)))))))

end Lexical

theorem chainedParses : parse "g-1-g" = .ok [chainedTree] := by
  refine (parseIff _ _).mpr ⟨_, Lexical.chainedCut, (parseTokensIff chainedTokens _).mp ?_⟩
  unfold chainedTokens chainedTree
  generalize oneRead = n
  cbv

theorem nestedParses : parse "g-(1-g)" = .ok [nestedTree] := by
  refine (parseIff _ _).mpr ⟨_, Lexical.nestedCut, (parseTokensIff nestedTokens _).mp ?_⟩
  unfold nestedTokens nestedTree
  generalize oneRead = n
  cbv

/- Two programs that are told apart by their grouping alone. -/
theorem groupingIsTold :
    parse "g-1-g" = .ok [chainedTree] ∧ parse "g-(1-g)" = .ok [nestedTree] ∧
      Node.obeyAll Node.finite .statement [chainedTree] = true ∧
      Node.obeyAll Node.finite .statement [nestedTree] = true ∧
      ∀ options, Emit.program options [chainedTree] ≠ Emit.program options [nestedTree] := by
  have finite : Node.obeyAll Node.finite .statement [chainedTree] = true := by
    simp [chainedTree, Node.obeyAll, Node.obeys, Node.finite, oneFinite]
  have finite' : Node.obeyAll Node.finite .statement [nestedTree] = true := by
    simp [nestedTree, Node.obeyAll, Node.obeys, Node.finite, oneFinite]
  refine ⟨chainedParses, nestedParses, finite, finite', ?_⟩
  intro options same
  have trees := (textTellsTheProgram options chainedParses nestedParses finite finite').mp same
  simp [chainedTree, nestedTree, Node.unlined, Node.reline] at trees

end EventScript
