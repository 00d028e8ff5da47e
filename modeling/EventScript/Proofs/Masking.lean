import EventScript.Proofs.Clauses

/-! Text whose literals are masked. A scan from left to right is outside of literals,
inside one, or at a character that a slash skips; of a literal only the quotes are kept.
The parts of a written line end outside, and two that differ in the texts of their
literals are masked alike. -/
namespace EventScript

namespace Script

inductive Mode where
  | outside
  | inside
  | skipping
  deriving DecidableEq

namespace Mode

def next : Mode → Char → Mode
  | outside, c => if c = '"' then inside else outside
  | inside, c => if c = '"' then outside else if c = '\\' then skipping else inside
  | skipping, _ => inside

def after (m : Mode) (cs : List Char) : Mode := cs.foldl next m

def keeps : Mode → Char → Bool
  | outside, _ => true
  | inside, c => c == '"'
  | skipping, _ => false

end Mode

def picked (pick : Mode → Char → Bool) (m : Mode) : List Char → List Char
  | [] => []
  | c :: cs => if pick m c then c :: picked pick (m.next c) cs else picked pick (m.next c) cs

def masked : Mode → List Char → List Char := picked Mode.keeps

/- What masking takes away: the contents of all literals in turn. -/
def contents : Mode → List Char → List Char := picked fun m c => !m.keeps c

theorem afterAppend (m : Mode) (cs ds : List Char) : m.after (cs ++ ds) = (m.after cs).after ds :=
  List.foldl_append

theorem pickedAppend (pick : Mode → Char → Bool) (m : Mode) (cs ds : List Char) :
    picked pick m (cs ++ ds) = picked pick m cs ++ picked pick (m.after cs) ds := by
  induction cs generalizing m with
  | nil => rfl
  | cons c cs ih =>
    have step : m.after (c :: cs) = (m.next c).after cs := rfl
    rw [List.cons_append, picked, picked, ih, step]
    split <;> rfl

theorem pickedSublist (pick : Mode → Char → Bool) (m : Mode) (cs : List Char) :
    (picked pick m cs).Sublist cs := by
  induction cs generalizing m with
  | nil => exact .slnil
  | cons c cs ih =>
    rw [picked]
    split
    · exact (ih _).cons_cons c
    · exact (ih _).cons c

/- A part of a line that leaves no literal open. -/
structure Sealed (cs : List Char) : Prop where
  inLine : '\n' ∉ cs
  plain : '\r' ∉ cs
  closed : Mode.outside.after cs = .outside

theorem sealedAppend {cs ds : List Char} (h : Sealed cs) (k : Sealed ds) : Sealed (cs ++ ds) where
  inLine := by simp [h.inLine, k.inLine]
  plain := by simp [h.plain, k.plain]
  closed := by rw [afterAppend, h.closed, k.closed]

def isPlain (c : Char) : Bool := c != '"' && c != '\n' && c != '\r'

theorem sealedPlain {cs : List Char} (each : ∀ c ∈ cs, isPlain c = true) : Sealed cs := by
  have other : ∀ c, isPlain c = false → c ∉ cs := by
    intro c none member
    rw [each c member] at none
    contradiction
  refine ⟨other _ rfl, other _ rfl, ?_⟩
  clear other
  induction cs with
  | nil => rfl
  | cons c cs ih =>
    obtain ⟨first, rest⟩ := List.forall_mem_cons.mp each
    have quote : c ≠ '"' := by
      rintro rfl
      exact absurd first (by decide)
    have step : Mode.outside.next c = .outside := if_neg quote
    rw [Mode.after, List.foldl_cons, step]
    exact ih rest

theorem spelledSealed {s : String} (plain : s.toList.all isPlain = true) :
    Sealed (Emit.spelled s) := by
  rw [Emit.spelled]
  exact sealedPlain (List.all_eq_true.mp plain)

theorem wordPlain {c : Char} (word : Lexical.InWord c) : isPlain c = true := by
  have other : ∀ d, ¬ Lexical.InWord d → c ≠ d := by
    rintro d none rfl
    exact none word
  simp (disch := decide) [isPlain, other]

theorem nameChars {s : String} (name : isName s = true) :
    ∃ c cs, s.toList = c :: cs ∧ Lexical.StartsWord c ∧ ∀ d ∈ cs, Lexical.InWord d := by
  have word := (Bool.and_eq_true_iff.mp name).1
  unfold isWord at word
  cases chars : s.toList with
  | nil => simp [chars] at word
  | cons c cs =>
    simp only [chars, Bool.and_eq_true] at word
    refine ⟨c, cs, rfl, (Lexer.wordStartIff c).mp word.1, ?_⟩
    intro d member
    exact (Lexer.wordCharIff d).mp (List.all_eq_true.mp word.2 d member)

theorem nameSealed {s : String} (name : isName s = true) : Sealed s.toList := by
  obtain ⟨c, cs, chars, start, word⟩ := nameChars name
  rw [chars]
  refine sealedPlain (List.forall_mem_cons.mpr ⟨wordPlain (Lexical.startsInWord start), ?_⟩)
  exact fun d member => wordPlain (word d member)

/- A number without a sign is written with digits or as a word. -/
theorem numeralCases {n : Number} (unsigned : n.isUnsigned = true) :
    (∃ ds fs, Decimal.Splits (Emit.numeral.chars n) ds fs) ∨
      Emit.numeral.chars n = "Infinity".toList := by
  cases finite : n.isFinite with
  | true =>
    obtain ⟨ds, fs, splits, _⟩ := Emit.numeralSplits finite unsigned
    exact .inl ⟨ds, fs, splits⟩
  | false =>
    obtain _ | ⟨negative, rank, bounded⟩ := n
    · contradiction
    cases negative with
    | true => contradiction
    | false =>
      have top : rank = Number.top := by simpa [Number.isFinite] using finite
      exact .inr (by simp [NumberFormat.chars, top, Emit.numeral])

theorem digitsPlain {cs : List Char} (digits : ∀ c ∈ cs, Lexical.IsDigit c) :
    ∀ c ∈ cs, isPlain c = true :=
  fun c member => wordPlain (.inr (.inl (digits c member)))

theorem numeralSealed {n : Number} (unsigned : n.isUnsigned = true) :
    Sealed (Emit.numeral.chars n) := by
  rcases numeralCases unsigned with ⟨ds, fs, splits⟩ | word
  · obtain ⟨_, whole, fraction, joined⟩ := splits
    rw [joined]
    refine sealedPlain ?_
    split
    · exact digitsPlain whole
    · refine List.forall_mem_append.mpr ⟨digitsPlain whole, ?_⟩
      exact List.forall_mem_cons.mpr ⟨by decide, digitsPlain fraction⟩
  · rw [word]
    exact sealedPlain (List.all_eq_true.mp (by decide))

theorem escapeInside (c : Char) :
    Mode.inside.after (Emit.escapeChar c) = .inside ∧ masked .inside (Emit.escapeChar c) = [] := by
  rcases escapeCharCases c with ⟨e, same, _⟩ | ⟨same, quote, slash, _⟩
  · rw [same]
    exact ⟨rfl, rfl⟩
  · rw [same]
    simp [Mode.after, Mode.next, masked, picked, Mode.keeps, quote, slash]

theorem escapedInside (cs : List Char) :
    Mode.inside.after (Emit.escapeChars cs) = .inside ∧ masked .inside (Emit.escapeChars cs) = [] := by
  induction cs with
  | nil => exact ⟨rfl, rfl⟩
  | cons c cs ih =>
    obtain ⟨stays, none⟩ := escapeInside c
    have step : Emit.escapeChars (c :: cs) = Emit.escapeChar c ++ Emit.escapeChars cs := rfl
    rw [masked] at none ih ⊢
    rw [step, afterAppend, pickedAppend, stays, none, ih.1, ih.2]
    exact ⟨rfl, rfl⟩

theorem escapeReturn (c : Char) : '\r' ∉ Emit.escapeChar c := by
  unfold Emit.escapeChar
  split_ifs <;> simp_all [eq_comm]

theorem quotedShape (cs : List Char) :
    Emit.quoteChars cs = ['"'] ++ (Emit.escapeChars cs ++ ['"']) := rfl

theorem quotedSealed (cs : List Char) : Sealed (Emit.quoteChars cs) where
  inLine := by simp [quotedShape, Lexical.textBodyLine (escapedBody cs)]
  plain := by
    have none : '\r' ∉ Emit.escapeChars cs := by
      intro member
      obtain ⟨c, _, inside⟩ := List.mem_flatMap.mp member
      exact escapeReturn c inside
    simp [quotedShape, none]
  closed := by
    have opened : Mode.outside.after ['"'] = .inside := rfl
    rw [quotedShape, afterAppend, afterAppend, opened, (escapedInside cs).1]
    rfl

theorem quotedMasked (cs : List Char) : masked .outside (Emit.quoteChars cs) = ['"', '"'] := by
  have opened : Mode.outside.after ['"'] = .inside := rfl
  obtain ⟨stays, none⟩ := escapedInside cs
  rw [masked] at none ⊢
  rw [quotedShape, pickedAppend, pickedAppend, opened, stays, none]
  rfl

structure Alike (cs ds : List Char) : Prop where
  left : Sealed cs
  right : Sealed ds
  same : masked .outside cs = masked .outside ds

theorem alikeSelf {cs : List Char} (h : Sealed cs) : Alike cs cs := ⟨h, h, rfl⟩

theorem alikeQuoted (cs ds : List Char) : Alike (Emit.quoteChars cs) (Emit.quoteChars ds) :=
  ⟨quotedSealed cs, quotedSealed ds, (quotedMasked cs).trans (quotedMasked ds).symm⟩

theorem maskedAppend {cs : List Char} (h : Sealed cs) (ds : List Char) :
    masked .outside (cs ++ ds) = masked .outside cs ++ masked .outside ds := by
  rw [masked, pickedAppend, h.closed]

theorem alikeAppend {as bs cs ds : List Char} (h : Alike as bs) (k : Alike cs ds) :
    Alike (as ++ cs) (bs ++ ds) where
  left := sealedAppend h.left k.left
  right := sealedAppend h.right k.right
  same := by rw [maskedAppend h.left, maskedAppend h.right, h.same, k.same]

theorem alikeSpelled {s : String} (plain : s.toList.all isPlain = true) :
    Alike (Emit.spelled s) (Emit.spelled s) := alikeSelf (spelledSealed plain)

theorem alikeSign {c : Char} (plain : isPlain c = true) : Alike [c] [c] :=
  alikeSelf (sealedPlain (List.forall_mem_singleton.mpr plain))

theorem alikeGrouped (group : Bool) {cs ds : List Char} (h : Alike cs ds) :
    Alike (Emit.grouped group cs) (Emit.grouped group ds) := by
  cases group with
  | false => exact h
  | true =>
    have all := alikeAppend (alikeAppend (alikeSign (c := '(') rfl) h) (alikeSign (c := ')') rfl)
    exact all

theorem alikeSeparated {css dss : List (List Char)} (each : List.Forall₂ Alike css dss) :
    Alike (Emit.separated css) (Emit.separated dss) := by
  induction each with
  | nil => exact alikeSelf (sealedPlain (List.forall_mem_nil _))
  | @cons cs ds css dss first tail ih =>
    cases tail with
    | nil =>
      have one : ∀ es : List Char, Emit.separated [es] = es := by
        intro es
        simp [Emit.separated, List.intercalate]
      rw [one, one]
      exact first
    | cons second tail =>
      rw [separatedStep, separatedStep]
      exact alikeAppend first (alikeAppend (alikeSpelled (by decide)) ih)

theorem alikeOperator (op : BinaryOp) : Alike (Emit.operator op) (Emit.operator op) := by
  cases op <;> exact alikeSpelled (by decide)

end Script

namespace Node

mutual

/- The tree with nothing in its text literals. -/
def blanked : Node → Node
  | literal line (.text _) => literal line (.text "")
  | literal line (.number n) => literal line (.number n)
  | name line s => name line s
  | binary line op left right => binary line op (blanked left) (blanked right)
  | assign line target value => assign line target (blanked value)
  | call line callee arguments => call line callee (blankedAll arguments)
  | function line s parameters body => function line s parameters (blankedAll body)
  | cond line condition body branches otherwise =>
    cond line (blanked condition) (blankedAll body) (blankedBranches branches) (blankedAll otherwise)
  | loop line s items body => loop line s (blanked items) (blankedAll body)
  | handler line event body => handler line event (blankedAll body)
  | result line value => result line (blanked value)

def blankedAll : List Node → List Node
  | [] => []
  | n :: ns => blanked n :: blankedAll ns

def blankedBranches : List (Branch Node) → List (Branch Node)
  | [] => []
  | ⟨condition, body⟩ :: rest => ⟨blanked condition, blankedAll body⟩ :: blankedBranches rest

end

theorem blankedComparison (n : Node) : n.blanked.isComparison = n.isComparison := by
  cases n with
  | literal line value => cases value <;> rfl
  | _ => rfl

end Node

namespace Script
open Emit (node)

mutual

theorem expressionAlike (indent : Nat) : ∀ e : Node, e.obeys Node.wellFormed .operand = true →
    Alike (node indent .operand e) (node indent .operand e.blanked)
  | .literal _ (.number n), h => alikeSelf (numeralSealed h)
  | .literal _ (.text s), _ => alikeQuoted _ _
  | .name _ s, h => alikeSelf (nameSealed h)
  | .binary _ op l r, h => by
    simp only [Node.obeys, Bool.and_eq_true] at h
    have left := expressionAlike indent l h.1.2
    have right := expressionAlike indent r h.2
    simp only [node, Node.blanked, Emit.ended, Node.blankedComparison]
    refine alikeGrouped _ (alikeAppend (alikeAppend ?_ (alikeOperator op)) ?_)
    · exact alikeGrouped _ left
    · exact alikeGrouped _ right
  | .assign _ x v, h => by
    simp only [Node.obeys, Bool.and_eq_true] at h
    have value := expressionAlike indent v h.2
    have target := alikeSelf (nameSealed h.1)
    simp only [node, Node.blanked]
    exact alikeGrouped true (alikeAppend (alikeAppend target (alikeSpelled (by decide))) value)
  | .call _ f vs, h => by
    simp only [Node.obeys, Bool.and_eq_true] at h
    have inside := alikeSeparated (operandsAlike indent vs h.2)
    simp only [node, Node.blanked, Emit.ended]
    exact alikeAppend (alikeSelf (nameSealed h.1)) (alikeGrouped true inside)
  | .function .., h | .cond .., h | .loop .., h | .handler .., h | .result .., h => by
    simp [Node.obeys, Node.wellFormed] at h

theorem operandsAlike (indent : Nat) : ∀ es : List Node,
    Node.obeyAll Node.wellFormed .operand es = true →
      List.Forall₂ Alike (Emit.operands indent es) (Emit.operands indent (Node.blankedAll es))
  | [], _ => .nil
  | e :: es, h => by
    simp only [Node.obeyAll, Bool.and_eq_true] at h
    simp only [Emit.operands, Node.blankedAll]
    exact .cons (expressionAlike indent e h.1) (operandsAlike indent es h.2)

end

end Script

namespace Clause
open Script

def blanked : Clause → Clause
  | cond c => cond c.blanked
  | branch c => branch c.blanked
  | loop x e => loop x e.blanked
  | result e => result e.blanked
  | assign x e => assign x e.blanked
  | value e => value e.blanked
  | c => c

theorem parametersAlike {ps : List String} (names : ps.all isName = true) :
    Alike (Emit.separated (ps.map String.toList)) (Emit.separated (ps.map String.toList)) := by
  refine alikeSeparated (List.forall₂_same.mpr ?_)
  intro cs member
  obtain ⟨p, inside, rfl⟩ := List.mem_map.mp member
  exact alikeSelf (nameSealed (List.all_eq_true.mp names p inside))

theorem alike {c : Clause} (h : c.obeys Node.wellFormed = true) : Alike c.chars c.blanked.chars := by
  cases c with
  | function f ps =>
    simp only [obeys, Bool.and_eq_true] at h
    have parameters := alikeGrouped true (parametersAlike h.2)
    exact alikeAppend (alikeSpelled (by decide)) (alikeAppend (alikeSelf (nameSealed h.1))
      (alikeAppend parameters (alikeSpelled (by decide))))
  | cond e | branch e | result e =>
    exact alikeAppend (alikeSpelled (by decide))
      (alikeAppend (expressionAlike 0 e h) (alikeSpelled (by decide)))
  | value e => exact alikeAppend (expressionAlike 0 e h) (alikeSpelled (by decide))
  | loop x e =>
    simp only [obeys, Bool.and_eq_true] at h
    have items := alikeAppend (expressionAlike 0 e h.2) (alikeSpelled (s := ") \x7b") (by decide))
    exact alikeAppend (alikeSpelled (by decide)) (alikeAppend (alikeSelf (nameSealed h.1))
      (alikeAppend (alikeSpelled (by decide)) items))
  | assign x e =>
    simp only [obeys, Bool.and_eq_true] at h
    have value := alikeAppend (expressionAlike 0 e h.2) (alikeSpelled (s := ";") (by decide))
    exact alikeAppend (alikeSpelled (by decide)) (alikeAppend (alikeSelf (nameSealed h.1))
      (alikeAppend (alikeSpelled (by decide)) value))
  | handler event =>
    exact alikeAppend (alikeSpelled (by decide))
      (alikeAppend (alikeQuoted _ _) (alikeSpelled (by decide)))
  | otherwise | close | closeHandler => exact alikeSpelled (by decide)

end Clause

end EventScript
