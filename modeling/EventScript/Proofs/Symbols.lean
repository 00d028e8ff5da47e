import Mathlib.Data.List.Forall2
import EventScript.Proofs.WellFormed

/-! The symbols of written text. Blanks part symbols, words and numerals are as long
as they can be, and a text is closed by the first quote that is not escaped. A text
has at most one reading, and expressions are written so that they have one. -/
namespace EventScript

namespace Script
open Lexer (isWordStart isWordChar readText readNumber)

inductive Symbol where
  | name (s : String)
  | number (n : Number)
  | text (s : String)
  | operator (op : BinaryOp)
  | assign
  | opening
  | closing
  | comma
  | leftBrace
  | rightBrace
  | semicolon
  deriving DecidableEq

def sign? : Char → List Char → Option (Symbol × List Char)
  | '(', cs => some (.opening, cs)
  | ')', cs => some (.closing, cs)
  | ',', cs => some (.comma, cs)
  | '\x7b', cs => some (.leftBrace, cs)
  | '\x7d', cs => some (.rightBrace, cs)
  | ';', cs => some (.semicolon, cs)
  | '+', cs => some (.operator .add, cs)
  | '-', cs => some (.operator .subtract, cs)
  | '*', cs => some (.operator .multiply, cs)
  | '/', cs => some (.operator .divide, cs)
  | '=', '=' :: '=' :: cs => some (.operator .same, cs)
  | '!', '=' :: '=' :: cs => some (.operator .differs, cs)
  | '=', cs => some (.assign, cs)
  | _, _ => none

def symbol? (c : Char) (cs : List Char) : Option (Symbol × List Char) :=
  if c = '"' then
    match readText c cs with
    | .ok (s, rest) => some (.text (String.ofList s), rest)
    | .error _ => none
  else if Char.isDigit c then
    match readNumber (c :: cs) with
    | .ok (n, rest) => some (.number n, rest)
    | .error _ => none
  else if isWordStart c then
    some (.name (String.ofList ((c :: cs).takeWhile isWordChar)), (c :: cs).dropWhile isWordChar)
  else sign? c cs

inductive Scans : List Char → List Symbol → Prop where
  | finish : Scans [] []
  | blank {cs ss} (rest : Scans cs ss) : Scans (' ' :: cs) ss
  | symbol {c cs s after ss} (first : symbol? c cs = some (s, after)) (rest : Scans after ss) :
      Scans (c :: cs) (s :: ss)

theorem blankNone (cs : List Char) : symbol? ' ' cs = none := rfl

theorem scansUnique {cs : List Char} {ss us : List Symbol} (h : Scans cs ss) (k : Scans cs us) :
    ss = us := by
  induction h generalizing us with
  | finish =>
    cases k
    rfl
  | blank rest ih =>
    cases k with
    | blank other => exact ih other
    | symbol first _ => rw [blankNone] at first; contradiction
  | @symbol c cs s after ss first rest ih =>
    cases k with
    | blank => rw [blankNone] at first; contradiction
    | symbol again other =>
      rw [first] at again
      cases again
      rw [ih other]

theorem scansBlanks {cs : List Char} {ss : List Symbol} (h : Scans cs ss) (n : Nat) :
    Scans (List.replicate n ' ' ++ cs) ss := by
  induction n with
  | zero => exact h
  | succ n ih =>
    rw [List.replicate_succ]
    exact .blank ih

/- What follows a word or a numeral and is no part of it. -/
def Parts (cs : List Char) : Prop := ∀ c rest, cs = c :: rest → ¬ Lexical.InWord c ∧ c ≠ '.'

theorem partsCons {c : Char} (word : ¬ Lexical.InWord c) (point : c ≠ '.') (cs : List Char) :
    Parts (c :: cs) := by
  intro d rest same
  cases same
  exact ⟨word, point⟩

theorem partsWord {cs : List Char} (h : Parts cs) : Lexical.NotNext Lexical.InWord cs :=
  fun c rest same => (h c rest same).1

theorem partsDigit {cs : List Char} (h : Parts cs) : Lexical.NotNext Lexical.IsDigit cs :=
  fun c rest same digit => (h c rest same).1 (.inr (.inl digit))

theorem partsPoint {cs : List Char} (h : Parts cs) :
    ∀ rest, cs = '.' :: rest → Lexical.NotNext Lexical.IsDigit rest :=
  fun rest same => absurd rfl (h '.' rest same).2

theorem wordScans {s : String} {after : List Char} {ss : List Symbol} (word : isWord s = true)
    (parts : Parts after) (rest : Scans after ss) : Scans (s.toList ++ after) (.name s :: ss) := by
  unfold isWord at word
  cases chars : s.toList with
  | nil => simp [chars] at word
  | cons c cs =>
    simp only [chars, Bool.and_eq_true] at word
    have starts := (Lexer.wordStartIff c).mp word.1
    have inside : ∀ d ∈ c :: cs, Lexical.InWord d := by
      intro d member
      rcases List.mem_cons.mp member with rfl | member
      · exact Lexical.startsInWord starts
      · exact (Lexer.wordCharIff d).mp (List.all_eq_true.mp word.2 d member)
    obtain ⟨take, drop⟩ := Lexer.runRead Lexer.wordCharIff inside (partsWord parts)
    have quote : c ≠ '"' := by
      rintro rfl
      exact absurd word.1 (by decide)
    have digit : ¬ Char.isDigit c = true :=
      fun digit => Lexical.startsNoDigit starts ((Lexer.digitIff c).mp digit)
    have first : symbol? c (cs ++ after) = some (.name s, after) := by
      rw [List.cons_append] at take drop
      rw [symbol?, if_neg quote, if_neg digit, if_pos word.1, take, drop, ← chars,
        String.ofList_toList]
    exact .symbol first rest

theorem nameScans {s : String} {after : List Char} {ss : List Symbol} (name : isName s = true)
    (parts : Parts after) (rest : Scans after ss) : Scans (s.toList ++ after) (.name s :: ss) :=
  wordScans (Bool.and_eq_true_iff.mp name).1 parts rest

theorem numeralScans {n : Number} {after : List Char} {ss : List Symbol}
    (finite : n.isFinite = true) (unsigned : n.isUnsigned = true) (parts : Parts after)
    (rest : Scans after ss) : Scans (Emit.numeral.chars n ++ after) (.number n :: ss) := by
  obtain ⟨ds, fs, splits, same⟩ := Emit.numeralSplits finite unsigned
  obtain ⟨d, more, start, first⟩ := Decimal.splitsStart splits
  have read := Decimal.splitsRead splits (partsDigit parts) (partsPoint parts)
  have quote : d ≠ '"' := by
    rintro rfl
    exact absurd first (by decide)
  have digit : Char.isDigit d = true := (Lexer.digitIff d).mpr first
  rw [start, List.cons_append, same] at read
  rw [start]
  have symbol : symbol? d (more ++ after) = some (.number n, after) := by
    rw [symbol?, if_neg quote, if_pos digit, read]
  exact .symbol symbol rest

theorem escapeCharCases (c : Char) :
    (∃ e, Emit.escapeChar c = ['\\', e] ∧ (e, c) ∈ Lexical.escapes) ∨
      Emit.escapeChar c = [c] ∧ c ≠ '"' ∧ c ≠ '\\' ∧ c ≠ '\n' := by
  by_cases known : c ∈ Lexical.escapes.map Prod.snd
  · left
    simp only [Lexical.escapes, List.map_cons, List.map_nil, List.mem_cons, List.not_mem_nil,
      or_false] at known
    rcases known with rfl | rfl | rfl | rfl | rfl | rfl <;> exact ⟨_, rfl, by decide⟩
  · right
    simp only [Lexical.escapes, List.map_cons, List.map_nil, List.mem_cons, List.not_mem_nil,
      or_false, not_or] at known
    obtain ⟨newline, return', tab, slash, quote, single⟩ := known
    exact ⟨by simp [Emit.escapeChar, newline, return', tab, slash, quote, single], quote, slash, newline⟩

theorem escapedBody (cs : List Char) : Lexical.TextBody '"' (Emit.escapeChars cs) cs := by
  induction cs with
  | nil => exact .nil
  | cons c cs ih =>
    have step : Emit.escapeChars (c :: cs) = Emit.escapeChar c ++ Emit.escapeChars cs := rfl
    rw [step]
    rcases escapeCharCases c with ⟨e, same, known⟩ | ⟨same, ordinary⟩
    · rw [same]
      exact .escape known ih
    · rw [same]
      exact .plain ordinary ih

theorem quotedScans (s : String) {after : List Char} {ss : List Symbol} (rest : Scans after ss) :
    Scans (Emit.quoteChars s.toList ++ after) (.text s :: ss) := by
  have read := Lexer.readTextComplete (.inl rfl) (escapedBody s.toList) after
  have shape : Emit.quoteChars s.toList ++ after =
      '"' :: (Emit.escapeChars s.toList ++ '"' :: after) := by
    simp [Emit.quoteChars]
  have first : symbol? '"' (Emit.escapeChars s.toList ++ '"' :: after) = some (.text s, after) := by
    rw [symbol?, if_pos rfl, read]
    simp only [String.ofList_toList]
  rw [shape]
  exact .symbol first rest

def grouped (group : Bool) (ss : List Symbol) : List Symbol :=
  if group then .opening :: (ss ++ [.closing]) else ss

def separated : List (List Symbol) → List Symbol
  | [] => []
  | [ss] => ss
  | ss :: us :: rest => ss ++ .comma :: separated (us :: rest)

end Script

namespace Node
open Script (Symbol grouped separated)

mutual

/- The symbols of a node as an operand. -/
def symbols : Node → List Symbol
  | literal _ (.number n) => [.number n]
  | literal _ (.text s) => [.text s]
  | name _ s => [.name s]
  | binary _ op l r =>
    grouped (!op.isComparison) (grouped (l.isComparison && !op.isComparison) (symbols l) ++
      .operator op :: grouped r.isComparison (symbols r))
  | assign _ target value => grouped true (.name target :: .assign :: symbols value)
  | call _ callee arguments => .name callee :: grouped true (separated (symbolsAll arguments))
  | _ => []

def symbolsAll : List Node → List (List Symbol)
  | [] => []
  | n :: ns => symbols n :: symbolsAll ns

end

/- A number that is written with digits. -/
def finite : Position → Node → Bool
  | _, literal _ (.number n) => n.isFinite
  | _, _ => true

def writable (position : Position) (n : Node) : Bool := wellFormed position n && finite position n

end Node

namespace Script
open Emit (node)

/- Any text that parts goes on after the written expression. -/
def Written (cs : List Char) (ss : List Symbol) : Prop :=
  ∀ after us, Parts after → Scans after us → Scans (cs ++ after) (ss ++ us)

theorem groupedScans {cs after : List Char} {ss us : List Symbol} (group : Bool)
    (inside : Written cs ss) (parts : Parts after) (rest : Scans after us) :
    Scans (Emit.grouped group cs ++ after) (grouped group ss ++ us) := by
  cases group with
  | false => exact inside after us parts rest
  | true =>
    have closing : Scans (')' :: after) (.closing :: us) := .symbol rfl rest
    have all := inside _ _ (partsCons (by decide) (by decide) after) closing
    have chars : Emit.grouped true cs ++ after = '(' :: (cs ++ ')' :: after) := by
      simp [Emit.grouped]
    have symbols : grouped true ss ++ us = .opening :: (ss ++ .closing :: us) := by
      simp [grouped]
    rw [chars, symbols]
    exact .symbol rfl all

theorem operatorScans (op : BinaryOp) {after : List Char} {us : List Symbol} (rest : Scans after us) :
    Scans (Emit.operator op ++ after) (.operator op :: us) := by
  cases op <;> simp only [Emit.operator, Emit.spelled] <;> exact .blank (.symbol rfl (.blank rest))

theorem operatorParts (op : BinaryOp) (after : List Char) : Parts (Emit.operator op ++ after) := by
  cases op <;> simp only [Emit.operator, Emit.spelled] <;>
    exact partsCons (by decide) (by decide) _

theorem separatedStep (cs ds : List Char) (rest : List (List Char)) :
    Emit.separated (cs :: ds :: rest) = cs ++ (Emit.spelled ", " ++ Emit.separated (ds :: rest)) := by
  simp [Emit.separated, List.intercalate, List.intersperse]

theorem separatedWritten {css : List (List Char)} {sss : List (List Symbol)}
    (each : List.Forall₂ Written css sss) : Written (Emit.separated css) (separated sss) := by
  induction each with
  | nil =>
    intro after us _ rest
    exact rest
  | @cons cs ss css sss first tail ih =>
    cases tail with
    | nil =>
      intro after us parts rest
      have one : Emit.separated [cs] = cs := by simp [Emit.separated, List.intercalate]
      rw [one]
      exact first after us parts rest
    | @cons ds ts css sss second tail =>
      intro after us parts rest
      have comma : Scans (',' :: ' ' :: (Emit.separated (ds :: css) ++ after))
          (.comma :: (separated (ts :: sss) ++ us)) := .symbol rfl (.blank (ih after us parts rest))
      have all := first _ _ (partsCons (by decide) (by decide) _) comma
      rw [separatedStep, List.append_assoc, List.append_assoc, Emit.spelled]
      rw [separated, List.append_assoc]
      exact all

mutual

theorem expressionWritten (indent : Nat) : ∀ e : Node, e.obeys Node.writable .operand = true →
    Written (node indent .operand e) e.symbols
  | .literal _ (.number n), h => by
    simp only [Node.obeys, Node.writable, Node.wellFormed, Node.finite, Bool.and_eq_true] at h
    simp only [node, Emit.ended, Node.symbols]
    intro after us parts rest
    exact numeralScans h.2 h.1 parts rest
  | .literal _ (.text s), _ => by
    simp only [node, Emit.ended, Node.symbols]
    intro after us _ rest
    exact quotedScans s rest
  | .name _ s, h => by
    simp only [Node.obeys, Node.writable, Node.wellFormed, Node.finite, Bool.and_true] at h
    simp only [node, Emit.ended, Node.symbols]
    intro after us parts rest
    exact nameScans h parts rest
  | .binary _ op l r, h => by
    simp only [Node.obeys, Node.writable, Node.wellFormed, Node.finite, Bool.and_eq_true] at h
    have left := expressionWritten indent l h.1.2
    have right := expressionWritten indent r h.2
    simp only [node, Emit.ended, Node.symbols]
    intro after us parts rest
    refine groupedScans _ ?_ parts rest
    intro after us parts rest
    have second := groupedScans r.isComparison right parts rest
    have first := groupedScans (l.isComparison && !op.isComparison) left (operatorParts op _)
      (operatorScans op second)
    simpa only [List.append_assoc, List.cons_append] using first
  | .assign _ x v, h => by
    simp only [Node.obeys, Node.writable, Node.wellFormed, Node.finite, Bool.and_eq_true,
      Bool.and_true] at h
    have value := expressionWritten indent v h.2
    simp only [node, Node.symbols]
    intro after us parts rest
    refine groupedScans true ?_ parts rest
    intro after us parts rest
    have sign : Scans (' ' :: '=' :: ' ' :: (node indent .operand v ++ after))
        (.assign :: (v.symbols ++ us)) := .blank (.symbol rfl (.blank (value after us parts rest)))
    have all := nameScans h.1 (partsCons (by decide) (by decide) _) sign
    simpa [Emit.spelled] using all
  | .call _ f vs, h => by
    simp only [Node.obeys, Node.writable, Node.wellFormed, Node.finite, Bool.and_eq_true,
      Bool.and_true] at h
    have inside := separatedWritten (operandsWritten indent vs h.2)
    simp only [node, Emit.ended, Node.symbols]
    intro after us parts rest
    have arguments := groupedScans true inside parts rest
    have opening : Parts (Emit.grouped true (Emit.separated (Emit.operands indent vs)) ++ after) :=
      partsCons (by decide) (by decide) _
    have all := nameScans h.1 opening arguments
    simpa only [List.append_assoc, List.cons_append] using all
  | .function .., h | .cond .., h | .loop .., h | .handler .., h | .result .., h => by
    simp [Node.obeys, Node.writable, Node.wellFormed] at h

theorem operandsWritten (indent : Nat) : ∀ es : List Node,
    Node.obeyAll Node.writable .operand es = true →
      List.Forall₂ Written (Emit.operands indent es) (Node.symbolsAll es)
  | [], _ => by
    simp only [Emit.operands, Node.symbolsAll]
    exact .nil
  | e :: es, h => by
    simp only [Node.obeyAll, Bool.and_eq_true] at h
    simp only [Emit.operands, Node.symbolsAll]
    exact .cons (expressionWritten indent e h.1) (operandsWritten indent es h.2)

end

end Script

end EventScript
