import EventScript.Proofs.Script

/-! Clauses of written programs: the head of a block, the line that closes one, or a
statement on a line of its own. A clause never holds a newline, and its symbols tell
which clause it is and, up to lines, the expression in it. -/
namespace EventScript

inductive Clause where
  | function (name : String) (parameters : List String)
  | cond (condition : Node)
  | branch (condition : Node)
  | otherwise
  | loop (name : String) (items : Node)
  | handler (event : String)
  | close
  | closeHandler
  | result (value : Node)
  | assign (target : String) (value : Node)
  | value (e : Node)

namespace Clause
open Emit (spelled node quoteChars)
open Script (Symbol Scans Written Parts separated partsCons wordScans nameScans quotedScans
  groupedScans separatedWritten expressionWritten)

def chars : Clause → List Char
  | function f ps =>
    spelled "function " ++ (f.toList ++ (Emit.grouped true (Emit.separated (ps.map String.toList)) ++
      spelled " \x7b"))
  | cond c => spelled "if (" ++ (node 0 .operand c ++ spelled ") \x7b")
  | branch c => spelled "\x7d else if (" ++ (node 0 .operand c ++ spelled ") \x7b")
  | otherwise => spelled "\x7d else \x7b"
  | loop x e =>
    spelled "for (let " ++ (x.toList ++ (spelled " of " ++ (node 0 .operand e ++ spelled ") \x7b")))
  | handler event => spelled "__register__(" ++ (quoteChars event.toList ++ spelled ", function() \x7b")
  | close => spelled "\x7d"
  | closeHandler => spelled "\x7d);"
  | result e => spelled "return " ++ (node 0 .operand e ++ spelled ";")
  | assign x e => spelled "var " ++ (x.toList ++ (spelled " = " ++ (node 0 .operand e ++ spelled ";")))
  | value e => node 0 .operand e ++ spelled ";"

def symbols : Clause → List Symbol
  | function f ps =>
    .name "function" :: .name f :: .opening ::
      (separated (ps.map fun p => [.name p]) ++ [.closing, .leftBrace])
  | cond c => .name "if" :: .opening :: (c.symbols ++ [.closing, .leftBrace])
  | branch c =>
    .rightBrace :: .name "else" :: .name "if" :: .opening :: (c.symbols ++ [.closing, .leftBrace])
  | otherwise => [.rightBrace, .name "else", .leftBrace]
  | loop x e =>
    .name "for" :: .opening :: .name "let" :: .name x :: .name "of" ::
      (e.symbols ++ [.closing, .leftBrace])
  | handler event =>
    [.name "__register__", .opening, .text event, .comma, .name "function", .opening, .closing,
      .leftBrace]
  | close => [.rightBrace]
  | closeHandler => [.rightBrace, .closing, .semicolon]
  | result e => .name "return" :: (e.symbols ++ [.semicolon])
  | assign x e => .name "var" :: .name x :: .assign :: (e.symbols ++ [.semicolon])
  | value e => e.symbols ++ [.semicolon]

def obeys (rule : Position → Node → Bool) : Clause → Bool
  | function f ps => isName f && ps.all isName
  | cond e | branch e | result e | value e => e.obeys rule .operand
  | loop x e | assign x e => isName x && e.obeys rule .operand
  | otherwise | handler _ | close | closeHandler => true

def writable (c : Clause) : Bool := c.obeys Node.writable

theorem obeysWeaker {rule also : Position → Node → Bool}
    (weaker : ∀ position n, rule position n = true → also position n = true) {c : Clause}
    (h : c.obeys rule = true) : c.obeys also = true := by
  cases c with
  | cond | branch | result | value => exact Node.obeysWeaker weaker h
  | loop | assign =>
    simp only [obeys, Bool.and_eq_true] at h ⊢
    exact ⟨h.1, Node.obeysWeaker weaker h.2⟩
  | function | otherwise | handler | close | closeHandler => exact h

theorem braceScans : Scans (spelled ") \x7b") [.closing, .leftBrace] := by
  rw [spelled]
  exact .symbol rfl (.blank (.symbol rfl .finish))

theorem braceParts : Parts (spelled ") \x7b") := by
  rw [spelled]
  exact partsCons (by decide) (by decide) _

theorem semicolonScans : Scans (spelled ";") [.semicolon] := by
  rw [spelled]
  exact .symbol rfl .finish

theorem semicolonParts : Parts (spelled ";") := by
  rw [spelled]
  exact partsCons (by decide) (by decide) _

theorem parametersWritten {ps : List String} (names : ps.all isName = true) :
    Written (Emit.separated (ps.map String.toList)) (separated (ps.map fun p => [.name p])) := by
  apply separatedWritten
  induction ps with
  | nil => exact .nil
  | cons p ps ih =>
    simp only [List.all_cons, Bool.and_eq_true] at names
    refine .cons ?_ (ih names.2)
    intro after us parts rest
    exact nameScans names.1 parts rest

/- A word of the target and the blank after it. -/
theorem leadScans {s : String} {after : List Char} {ss : List Symbol} (word : isWord s = true)
    (rest : Scans after ss) : Scans (s.toList ++ ' ' :: after) (.name s :: ss) :=
  wordScans word (partsCons (by decide) (by decide) after) (.blank rest)

theorem openingScans {after : List Char} {ss : List Symbol} (rest : Scans after ss) :
    Scans ('(' :: after) (.opening :: ss) := .symbol rfl rest

theorem headScans {e : Node} (h : e.obeys Node.writable .operand = true) :
    Scans (node 0 .operand e ++ spelled ") \x7b") (e.symbols ++ [.closing, .leftBrace]) :=
  expressionWritten 0 e h _ _ braceParts braceScans

theorem lastScans {e : Node} (h : e.obeys Node.writable .operand = true) :
    Scans (node 0 .operand e ++ spelled ";") (e.symbols ++ [.semicolon]) :=
  expressionWritten 0 e h _ _ semicolonParts semicolonScans

theorem scans (c : Clause) (h : c.writable = true) : Scans c.chars c.symbols := by
  cases c with
  | function f ps =>
    simp only [writable, obeys, Bool.and_eq_true] at h
    have ending : Scans [' ', '\x7b'] [.leftBrace] := .blank (.symbol rfl .finish)
    have parts : Parts [' ', '\x7b'] := partsCons (by decide) (by decide) _
    have inside := groupedScans true (parametersWritten h.2) parts ending
    have opening : Parts (Emit.grouped true (Emit.separated (ps.map String.toList)) ++ [' ', '\x7b']) :=
      partsCons (by decide) (by decide) _
    have all := leadScans (s := "function") (by decide) (nameScans h.1 opening inside)
    simpa [chars, symbols, spelled, Script.grouped] using all
  | cond c =>
    have all := leadScans (s := "if") (by decide) (openingScans (headScans h))
    simpa [chars, symbols, spelled] using all
  | branch c =>
    have second := leadScans (s := "if") (by decide) (openingScans (headScans h))
    have first := leadScans (s := "else") (by decide) second
    have all : Scans ('\x7d' :: ' ' :: _) _ := .symbol rfl (.blank first)
    simpa [chars, symbols, spelled] using all
  | otherwise =>
    have brace : Scans ['\x7b'] [.leftBrace] := .symbol rfl .finish
    have word := leadScans (s := "else") (by decide) brace
    have all : Scans ('\x7d' :: ' ' :: _) _ := .symbol rfl (.blank word)
    simpa [chars, symbols, spelled] using all
  | loop x e =>
    simp only [writable, obeys, Bool.and_eq_true] at h
    have items := leadScans (s := "of") (by decide) (headScans h.2)
    have named := nameScans h.1 (partsCons (by decide) (by decide) _) (.blank items)
    have word := leadScans (s := "let") (by decide) named
    have all := leadScans (s := "for") (by decide) (openingScans word)
    simpa [chars, symbols, spelled] using all
  | handler event =>
    have brace : Scans ['(', ')', ' ', '\x7b'] [.opening, .closing, .leftBrace] :=
      .symbol rfl (.symbol rfl (.blank (.symbol rfl .finish)))
    have word := wordScans (s := "function") (by decide) (partsCons (by decide) (by decide) _) brace
    have comma : Scans (',' :: ' ' :: _) _ := .symbol rfl (.blank word)
    have call := openingScans (quotedScans event comma)
    have all := wordScans (s := "__register__") (by decide) (partsCons (by decide) (by decide) _) call
    simpa [chars, symbols, spelled] using all
  | close =>
    have all : Scans ['\x7d'] [.rightBrace] := .symbol rfl .finish
    simpa [chars, symbols, spelled] using all
  | closeHandler =>
    have all : Scans ['\x7d', ')', ';'] [.rightBrace, .closing, .semicolon] :=
      .symbol rfl (.symbol rfl (.symbol rfl .finish))
    simpa [chars, symbols, spelled] using all
  | result e =>
    have all := leadScans (s := "return") (by decide) (lastScans h)
    simpa [chars, symbols, spelled] using all
  | assign x e =>
    simp only [writable, obeys, Bool.and_eq_true] at h
    have sign : Scans ('=' :: ' ' :: _) _ := .symbol rfl (.blank (lastScans h.2))
    have named := nameScans h.1 (partsCons (by decide) (by decide) _) (.blank sign)
    have all := leadScans (s := "var") (by decide) named
    simpa [chars, symbols, spelled] using all
  | value e => exact lastScans h

def unlined : Clause → Clause
  | cond c => cond c.unlined
  | branch c => branch c.unlined
  | loop x e => loop x e.unlined
  | result e => result e.unlined
  | assign x e => assign x e.unlined
  | value e => value e.unlined
  | c => c

def ending : Clause → Symbol
  | function .. | cond _ | branch _ | otherwise | loop .. | handler _ => .leftBrace
  | close => .rightBrace
  | closeHandler | result _ | assign .. | value _ => .semicolon

theorem symbolsEnding (c : Clause) : c.symbols.getLast? = some c.ending := by
  cases c <;> simp [symbols, ending, List.getLast?_cons]

theorem parametersDetermine {ps qs : List String}
    (same : separated (ps.map fun p => [Symbol.name p]) = separated (qs.map fun q => [.name q])) :
    ps = qs := by
  induction ps generalizing qs with
  | nil =>
    cases qs with
    | nil => rfl
    | cons q qs => cases qs <;> simp [separated] at same
  | cons p ps ih =>
    cases qs with
    | nil => cases ps <;> simp [separated] at same
    | cons q qs =>
      cases ps with
      | nil =>
        cases qs with
        | nil => simpa [separated] using same
        | cons r qs => simp [separated] at same
      | cons p' ps =>
        cases qs with
        | nil => simp [separated] at same
        | cons r qs =>
          simp only [List.map_cons, separated, List.cons_append, List.nil_append, List.cons.injEq,
            Symbol.name.injEq, true_and] at same
          have tail : p' :: ps = r :: qs := ih same.2
          rw [same.1, tail]

end Clause

namespace Script

def isNameNext : List Symbol → Bool
  | .name _ :: _ => true
  | _ => false

/- How the symbols of an expression begin. -/
def begins : List Symbol → Bool
  | .number _ :: _ | .text _ :: _ | .opening :: _ => true
  | .name s :: rest => isName s && !isNameNext rest
  | _ => false

theorem expressionBegins : ∀ e : Node, e.obeys Node.writable .operand = true →
    ∀ after, isNameNext after = false → begins (e.symbols ++ after) = true
  | .literal _ (.number _), _, _, _ => rfl
  | .literal _ (.text _), _, _, _ => rfl
  | .name _ s, h, after, next => by
    simp only [Node.obeys, Node.writable, Node.wellFormed, Node.finite, Bool.and_true] at h
    simp [Node.symbols, begins, h, next]
  | .binary _ op l r, h, after, _ => by
    simp only [Node.obeys, Bool.and_eq_true] at h
    cases bare : op.isComparison with
    | false => simp [Node.symbols, bare, grouped, begins]
    | true =>
      have left := expressionBegins l h.1.2
        (.operator op :: (grouped r.isComparison r.symbols ++ after)) rfl
      simpa [Node.symbols, bare, grouped] using left
  | .assign .., _, _, _ => rfl
  | .call _ f vs, h, after, _ => by
    simp only [Node.obeys, Node.writable, Node.wellFormed, Node.finite, Bool.and_eq_true,
      Bool.and_true] at h
    simp [Node.symbols, begins, grouped, isNameNext, h.1]
  | .function .., h, _, _ | .cond .., h, _, _ | .loop .., h, _, _ | .handler .., h, _, _
  | .result .., h, _, _ => by
    simp [Node.obeys, Node.writable, Node.wellFormed] at h

end Script

namespace Clause
open Script (Symbol begins expressionBegins)

theorem operandsDetermine {e f : Node} {after : List Symbol}
    (he : e.obeys Node.writable .operand = true) (hf : f.obeys Node.writable .operand = true)
    (same : e.symbols ++ after = f.symbols ++ after) : e.unlined = f.unlined :=
  Script.symbolsDetermine he hf (List.append_cancel_right same)

theorem sameEnding {c d : Clause} (same : c.symbols = d.symbols) : c.ending = d.ending := by
  have both := congrArg List.getLast? same
  rw [symbolsEnding, symbolsEnding] at both
  exact Option.some.inj both

theorem resultBegins (e : Node) : begins (result e).symbols = false := by
  have keyword : isName "return" = false := by decide
  simp [symbols, begins, keyword]

theorem assignBegins (x : String) (e : Node) : begins (assign x e).symbols = false := by
  simp [symbols, begins, Script.isNameNext]

theorem valueDetermines {e : Node} {d : Clause} (he : (value e).writable = true)
    (hd : d.writable = true) (same : (value e).symbols = d.symbols) :
    (value e).unlined = d.unlined := by
  have ends := sameEnding same
  have expression : begins d.symbols = true := by
    rw [← same]
    exact expressionBegins e he _ rfl
  cases d with
  | value f =>
    rw [unlined, unlined, operandsDetermine he hd same]
  | result f => rw [resultBegins] at expression; contradiction
  | assign x f => rw [assignBegins] at expression; contradiction
  | _ => contradiction

/- The fixed symbols of the clauses differ, so that a clause is told by them unless it is an
expression alone. -/
theorem symbolsDetermine {c d : Clause} (hc : c.writable = true) (hd : d.writable = true)
    (same : c.symbols = d.symbols) : c.unlined = d.unlined := by
  cases d with
  | value f => exact (valueDetermines hd hc same.symm).symm
  | function g qs =>
    cases c with
    | value e => exact valueDetermines hc hd same
    | function f ps =>
      simp only [symbols, List.cons.injEq, Symbol.name.injEq, true_and] at same
      rw [same.1, parametersDetermine (List.append_cancel_right same.2)]
    | _ => simp [symbols] at same
  | cond f =>
    cases c with
    | value e => exact valueDetermines hc hd same
    | cond e =>
      simp only [symbols, List.cons.injEq, true_and] at same
      rw [unlined, unlined, operandsDetermine hc hd same]
    | _ => simp [symbols] at same
  | branch f =>
    cases c with
    | value e => exact valueDetermines hc hd same
    | branch e =>
      simp only [symbols, List.cons.injEq, true_and] at same
      rw [unlined, unlined, operandsDetermine hc hd same]
    | _ => simp [symbols] at same
  | loop y f =>
    cases c with
    | value e => exact valueDetermines hc hd same
    | loop x e =>
      simp only [writable, obeys, Bool.and_eq_true] at hc hd
      simp only [symbols, List.cons.injEq, Symbol.name.injEq, true_and] at same
      rw [unlined, unlined, same.1, operandsDetermine hc.2 hd.2 same.2]
    | _ => simp [symbols] at same
  | assign y f =>
    cases c with
    | value e => exact valueDetermines hc hd same
    | assign x e =>
      simp only [writable, obeys, Bool.and_eq_true] at hc hd
      simp only [symbols, List.cons.injEq, Symbol.name.injEq, true_and] at same
      rw [unlined, unlined, same.1, operandsDetermine hc.2 hd.2 same.2]
    | _ => simp [symbols] at same
  | result f =>
    cases c with
    | value e => exact valueDetermines hc hd same
    | result e =>
      simp only [symbols, List.cons.injEq, true_and] at same
      rw [unlined, unlined, operandsDetermine hc hd same]
    | _ => simp [symbols] at same
  | handler event =>
    cases c with
    | value e => exact valueDetermines hc hd same
    | handler event => simpa [symbols, unlined] using same
    | _ => simp [symbols] at same
  | otherwise | close | closeHandler =>
    cases c with
    | value e => exact valueDetermines hc hd same
    | otherwise | close | closeHandler => simp_all [symbols]
    | _ => simp [symbols] at same

end Clause

end EventScript
