import EventScript.Proofs.Symbols

/-! Expressions of the written language by precedence: products bind before sums, sums
before comparisons, all grouped to the left, and an assignment takes what is on its right.
Symbols make one tree at most, since a reader that never goes back finds every tree they
make. The symbols that are written for an expression make that expression. -/
namespace EventScript.Script

def isProduct : BinaryOp → Bool
  | .multiply | .divide => true
  | _ => false

def isSum : BinaryOp → Bool
  | .add | .subtract => true
  | _ => false

/- The trees that symbols make. They have no lines. -/
abbrev Makes (α : Type) := List Symbol → α → Prop

inductive Level (operators : BinaryOp → Bool) (operand : Makes Node) : List Symbol → Node → Prop where
  | first {ss n} (only : operand ss n) : Level operators operand ss n
  | next {ss us l r op} (left : Level operators operand ss l) (known : operators op = true)
      (right : operand us r) :
      Level operators operand (ss ++ .operator op :: us) (.binary 0 op l r)

inductive Arguments (expression : Makes Node) : List Symbol → List Node → Prop where
  | none : Arguments expression [] []
  | last {ss v} (only : expression ss v) : Arguments expression ss [v]
  | next {ss us v vs} (head : expression ss v) (tail : Arguments expression us vs) :
      Arguments expression (ss ++ .comma :: us) (v :: vs)

inductive Primary (expression : Makes Node) : List Symbol → Node → Prop where
  | number (n : Number) : Primary expression [.number n] (.literal 0 (.number n))
  | text (s : String) : Primary expression [.text s] (.literal 0 (.text s))
  | name (s : String) : Primary expression [.name s] (.name 0 s)
  | group {ss n} (inside : expression ss n) :
      Primary expression (.opening :: (ss ++ [.closing])) n
  | call {s ss vs} (inside : Arguments expression ss vs) :
      Primary expression (.name s :: .opening :: (ss ++ [.closing])) (.call 0 s vs)

def Product (expression : Makes Node) : Makes Node := Level isProduct (Primary expression)

def Sum (expression : Makes Node) : Makes Node := Level isSum (Product expression)

def Comparison (expression : Makes Node) : Makes Node :=
  Level BinaryOp.isComparison (Sum expression)

inductive Assignment (expression : Makes Node) : List Symbol → Node → Prop where
  | plain {ss n} (only : Comparison expression ss n) : Assignment expression ss n
  | assign {ss us x v} (target : Comparison expression ss (.name 0 x)) (value : expression us v) :
      Assignment expression (ss ++ .assign :: us) (.assign 0 x v)

def Expression : Nat → Makes Node
  | 0 => fun _ _ => False
  | depth + 1 => Assignment (Expression depth)

def Reads (cs : List Char) (n : Node) : Prop :=
  ∃ ss depth, Scans cs ss ∧ Expression depth ss n

abbrev Reader := List Symbol → Option (Node × List Symbol)

def chain (operators : BinaryOp → Bool) (operand : Reader) : Nat → Node → Reader
  | fuel + 1, left, .operator op :: ss =>
    if operators op then do
      let (right, ss) ← operand ss
      chain operators operand fuel (.binary 0 op left right) ss
    else some (left, .operator op :: ss)
  | _, left, ss => some (left, ss)

def level (operators : BinaryOp → Bool) (operand : Reader) : Reader := fun ss => do
  let (left, ss) ← operand ss
  chain operators operand ss.length left ss

def arguments (expression : Reader) : Nat → List Symbol → Option (List Node × List Symbol)
  | _, .closing :: ss => some ([], ss)
  | 0, _ => none
  | fuel + 1, ss => do
    match ← expression ss with
    | (v, .closing :: ss) => some ([v], ss)
    | (v, .comma :: ss) => do
      let (vs, ss) ← arguments expression fuel ss
      some (v :: vs, ss)
    | _ => none

def primary (expression : Reader) : Reader
  | .number n :: ss => some (.literal 0 (.number n), ss)
  | .text s :: ss => some (.literal 0 (.text s), ss)
  | .name s :: .opening :: ss => do
    let (vs, ss) ← arguments expression ss.length ss
    some (.call 0 s vs, ss)
  | .name s :: ss => some (.name 0 s, ss)
  | .opening :: ss => do
    match ← expression ss with
    | (n, .closing :: ss) => some (n, ss)
    | _ => none
  | _ => none

def product (expression : Reader) : Reader := level isProduct (primary expression)

def sum (expression : Reader) : Reader := level isSum (product expression)

def comparison (expression : Reader) : Reader := level BinaryOp.isComparison (sum expression)

def assignment (expression : Reader) : Reader := fun ss => do
  match ← comparison expression ss with
  | (.name _ target, .assign :: ss) => do
    let (value, ss) ← expression ss
    some (.assign 0 target value, ss)
  | other => some other

def expression : Nat → Reader
  | 0, _ => none
  | depth + 1, ss => assignment (expression depth) ss

section Levels

variable {operators : BinaryOp → Bool} {operand : Reader}

def Ends (operators : BinaryOp → Bool) (ss : List Symbol) : Prop :=
  ∀ op rest, ss = .operator op :: rest → operators op = false

theorem endsOther {s : Symbol} (other : ∀ op, s ≠ .operator op) (ss : List Symbol) :
    Ends operators (s :: ss) := by
  intro op rest same
  cases same
  exact absurd rfl (other op)

theorem endsOperator {op : BinaryOp} (other : operators op = false) (ss : List Symbol) :
    Ends operators (.operator op :: ss) := by
  intro _ _ same
  cases same
  exact other

theorem chainEnds {ss : List Symbol} (ends : Ends operators ss) (fuel : Nat) (left : Node) :
    chain operators operand fuel left ss = some (left, ss) := by
  unfold chain
  split
  · rename_i op rest
    simp [ends op rest rfl]
  · rfl

theorem chainStep {op : BinaryOp} {left right : Node} {ss after : List Symbol} {fuel : Nat}
    (known : operators op = true) (second : operand ss = some (right, after)) :
    chain operators operand (fuel + 1) left (.operator op :: ss) =
      chain operators operand fuel (.binary 0 op left right) after := by
  rw [chain]
  simp [known, second]

/- Whatever the symbols make is read, when what follows cannot go on with it. -/
def Finds (read : Reader) (makes : Makes Node) (stops : List Symbol → Prop) : Prop :=
  ∀ ss n after, makes ss n → stops after → read (ss ++ after) = some (n, after)

-- A level is grouped to the left, so a tree is the first operand of those around it: whatever
-- the chain gives for the tree and the symbols after it is what is read.
theorem levelReads {makes : Makes Node} {stops : List Symbol → Prop}
    (finds : Finds operand makes stops)
    (goes : ∀ op rest, operators op = true → stops (.operator op :: rest)) {ss : List Symbol}
    {n : Node} (h : Level operators makes ss n) : ∀ after result, stops after →
      (∀ fuel, after.length ≤ fuel → chain operators operand fuel n after = some result) →
      level operators operand (ss ++ after) = some result := by
  induction h with
  | first only =>
    intro after result ends rest
    simp [level, finds _ _ after only ends, rest after.length (Nat.le_refl _)]
  | @next ss us l r op left known right ih =>
    intro after result ends rest
    rw [List.append_assoc, List.cons_append]
    refine ih _ result (goes op _ known) ?_
    intro fuel enough
    simp only [List.length_cons, List.length_append] at enough
    obtain ⟨fuel, rfl⟩ : ∃ k, fuel = k + 1 := ⟨fuel - 1, by omega⟩
    exact (chainStep known (finds us r after right ends)).trans (rest fuel (by omega))

theorem levelFinds {makes : Makes Node} {stops : List Symbol → Prop}
    (finds : Finds operand makes stops)
    (goes : ∀ op rest, operators op = true → stops (.operator op :: rest)) :
    Finds (level operators operand) (Level operators makes)
      (fun after => stops after ∧ Ends operators after) := by
  intro ss n after made ends
  exact levelReads finds goes made after _ ends.1 fun fuel _ => chainEnds ends.2 fuel n

end Levels

def NoCall (ss : List Symbol) : Prop := ∀ rest, ss ≠ .opening :: rest

theorem noCallOther {s : Symbol} (other : s ≠ .opening) (ss : List Symbol) : NoCall (s :: ss) := by
  intro rest same
  cases same
  exact other rfl

def Closes (ss : List Symbol) : Prop :=
  ∀ s rest, ss = s :: rest → s ≠ .opening ∧ s ≠ .assign ∧ ∀ op, s ≠ .operator op

theorem closesNil : Closes [] := by
  intro s rest same
  contradiction

theorem closesCons {s : Symbol} (opening : s ≠ .opening) (assign : s ≠ .assign)
    (other : ∀ op, s ≠ .operator op) (ss : List Symbol) : Closes (s :: ss) := by
  intro _ _ same
  cases same
  exact ⟨opening, assign, other⟩

theorem closesEnds {operators : BinaryOp → Bool} {ss : List Symbol} (h : Closes ss) :
    Ends operators ss := by
  intro op rest same
  exact absurd rfl ((h _ rest same).2.2 op)

theorem closesNoCall {ss : List Symbol} (h : Closes ss) : NoCall ss := by
  intro rest same
  exact (h _ rest same).1 rfl

theorem closingCloses (ss : List Symbol) : Closes (.closing :: ss) :=
  closesCons (by simp) (by simp) (by simp) ss

theorem commaCloses (ss : List Symbol) : Closes (.comma :: ss) :=
  closesCons (by simp) (by simp) (by simp) ss

section Expressions

variable {read : Reader} {makes : Makes Node}

theorem argumentsFind (finds : Finds read makes Closes)
    (closed : ∀ rest, read (.closing :: rest) = none) {ss : List Symbol} {vs : List Node}
    (h : Arguments makes ss vs) (after : List Symbol) : ∀ fuel, ss.length < fuel →
      arguments read fuel (ss ++ .closing :: after) = some (vs, after) := by
  have start {us rest : List Symbol} {w : Node × List Symbol} (found : read us = some w) :
      us ≠ .closing :: rest := by
    rintro rfl
    rw [closed] at found
    contradiction
  induction h with
  | none =>
    intro fuel enough
    rw [List.nil_append, arguments]
  | @last ss v only =>
    intro fuel enough
    obtain ⟨fuel, rfl⟩ : ∃ k, fuel = k + 1 := ⟨fuel - 1, by omega⟩
    have found := finds ss v _ only (closingCloses after)
    rw [arguments, found]
    · rfl
    · exact fun rest => start found
  | @next ss us v vs head tail ih =>
    intro fuel enough
    simp only [List.length_cons, List.length_append] at enough
    obtain ⟨fuel, rfl⟩ : ∃ k, fuel = k + 1 := ⟨fuel - 1, by omega⟩
    have found := finds ss v _ head (commaCloses (us ++ .closing :: after))
    rw [List.append_assoc, List.cons_append, arguments, found]
    · simp [ih fuel (by omega)]
    · exact fun rest => start found

theorem primaryFinds (finds : Finds read makes Closes)
    (closed : ∀ rest, read (.closing :: rest) = none) :
    Finds (primary read) (Primary makes) NoCall := by
  intro ss n after made ends
  cases made with
  | number n => rfl
  | text s => rfl
  | name s =>
    cases after with
    | nil => rfl
    | cons a rest =>
      cases a with
      | opening => exact absurd rfl (ends rest)
      | _ => rfl
  | @group ss _ inside =>
    have found := finds ss n _ inside (closingCloses after)
    simp [primary, found]
  | @call s ss vs inside =>
    have found := argumentsFind finds closed inside after (ss ++ .closing :: after).length (by simp)
    have shape : Symbol.name s :: .opening :: (ss ++ [.closing]) ++ after =
        .name s :: .opening :: (ss ++ .closing :: after) := by simp
    rw [shape, primary, found]
    rfl

theorem comparisonFinds (finds : Finds read makes Closes)
    (closed : ∀ rest, read (.closing :: rest) = none) :
    Finds (comparison read) (Comparison makes)
      (fun after => ((NoCall after ∧ Ends isProduct after) ∧ Ends isSum after) ∧
        Ends BinaryOp.isComparison after) := by
  have noCall (op : BinaryOp) (rest : List Symbol) : NoCall (.operator op :: rest) :=
    noCallOther (by simp) rest
  refine levelFinds (levelFinds (levelFinds (primaryFinds finds closed) ?_) ?_) ?_
  · intro op rest _
    exact noCall op rest
  · intro op rest known
    exact ⟨noCall op rest, endsOperator (by cases op <;> first | rfl | contradiction) rest⟩
  · intro op rest known
    exact ⟨⟨noCall op rest, endsOperator (by cases op <;> first | rfl | contradiction) rest⟩,
      endsOperator (by cases op <;> first | rfl | contradiction) rest⟩

theorem assignmentFinds (finds : Finds read makes Closes)
    (closed : ∀ rest, read (.closing :: rest) = none) :
    Finds (assignment read) (Assignment makes) Closes := by
  intro ss n after made ends
  cases made with
  | plain only =>
    have found := comparisonFinds finds closed ss n after only
      ⟨⟨⟨closesNoCall ends, closesEnds ends⟩, closesEnds ends⟩, closesEnds ends⟩
    simp only [assignment, found]
    cases n with
    | name line s =>
      cases after with
      | nil => rfl
      | cons a rest =>
        have other := (ends a rest rfl).2.1
        cases a <;> first | contradiction | rfl
    | _ => rfl
  | @assign ss us x v target value =>
    have other : ∀ op, Symbol.assign ≠ .operator op := by simp
    have found := comparisonFinds finds closed ss _ (.assign :: (us ++ after)) target
      ⟨⟨⟨noCallOther (by simp) _, endsOther other _⟩, endsOther other _⟩, endsOther other _⟩
    rw [List.append_assoc, List.cons_append]
    simp [assignment, found, finds us v after value ends]

end Expressions

theorem expressionClosing (depth : Nat) (ss : List Symbol) :
    expression depth (.closing :: ss) = none := by
  cases depth with
  | zero => rfl
  | succ depth => rfl

theorem expressionFinds {depth more : Nat} (deep : depth ≤ more) :
    Finds (expression more) (Expression depth) Closes := by
  induction depth generalizing more with
  | zero =>
    intro ss n after made
    contradiction
  | succ depth ih =>
    obtain ⟨more, rfl⟩ : ∃ k, more = k + 1 := ⟨more - 1, by omega⟩
    exact assignmentFinds (ih (by omega)) (expressionClosing more)

theorem expressionUnique {depth depth' : Nat} {ss : List Symbol} {n m : Node}
    (h : Expression depth ss n) (k : Expression depth' ss m) : n = m := by
  have first := expressionFinds (Nat.le_max_left depth depth') ss n [] h closesNil
  have second := expressionFinds (Nat.le_max_right depth depth') ss m [] k closesNil
  rw [first] at second
  exact congrArg Prod.fst (Option.some.inj second)

/- An expression as an operand: a comparison stands in parentheses. -/
def operandSymbols (e : Node) : List Symbol := grouped e.isComparison e.symbols

def MakesOperand (e : Node) : Prop :=
  ∀ depth, (operandSymbols e).length ≤ depth →
    Primary (Expression depth) (operandSymbols e) e.unlined

def MakesBare (e : Node) : Prop :=
  ∀ depth, e.symbols.length ≤ depth → Comparison (Expression depth) e.symbols e.unlined

theorem primarySum {makes : Makes Node} {ss : List Symbol} {n : Node} (h : Primary makes ss n) :
    Sum makes ss n := .first (.first h)

theorem bareExpression {e : Node} (bare : MakesBare e) {depth : Nat}
    (deep : e.symbols.length < depth) : Expression depth e.symbols e.unlined := by
  obtain ⟨depth, rfl⟩ : ∃ k, depth = k + 1 := ⟨depth - 1, by omega⟩
  exact .plain (bare depth (by omega))

theorem operandBare {e : Node} (bare : e.isComparison = false) (h : MakesOperand e) :
    MakesBare e := by
  intro depth deep
  have symbols : operandSymbols e = e.symbols := by simp [operandSymbols, grouped, bare]
  have made := h depth (by rw [symbols]; exact deep)
  rw [symbols] at made
  exact .first (primarySum made)

theorem unlinedBinary (line : Nat) (op : BinaryOp) (l r : Node) :
    (Node.binary line op l r).unlined = .binary 0 op l.unlined r.unlined := by
  simp [Node.unlined, Node.reline]

theorem comparisonBare {l r : Node} {op : BinaryOp} {line : Nat} (compares : op.isComparison = true)
    (left : MakesBare l) (right : MakesOperand r) : MakesBare (.binary line op l r) := by
  intro depth deep
  have symbols : (Node.binary line op l r).symbols =
      l.symbols ++ .operator op :: operandSymbols r := by
    simp [Node.symbols, compares, grouped, operandSymbols]
  rw [symbols] at deep ⊢
  simp only [List.length_append, List.length_cons] at deep
  rw [unlinedBinary]
  exact .next (left depth (by omega)) compares (primarySum (right depth (by omega)))

theorem comparisonOperand {e : Node} (compares : e.isComparison = true) (h : MakesBare e) :
    MakesOperand e := by
  intro depth deep
  have symbols : operandSymbols e = .opening :: (e.symbols ++ [.closing]) := by
    simp [operandSymbols, grouped, compares]
  rw [symbols] at deep ⊢
  simp only [List.length_cons, List.length_append, List.length_nil] at deep
  exact .group (bareExpression h (by omega))

theorem arithmeticOperand {l r : Node} {op : BinaryOp} {line : Nat}
    (arithmetic : op.isComparison = false) (left : MakesOperand l) (right : MakesOperand r) :
    MakesOperand (.binary line op l r) := by
  intro depth deep
  have bare : (Node.binary line op l r).isComparison = op.isComparison := rfl
  have symbols : operandSymbols (.binary line op l r) =
      .opening :: (operandSymbols l ++ .operator op :: operandSymbols r ++ [.closing]) := by
    simp [operandSymbols, Node.symbols, bare, arithmetic, grouped]
  rw [symbols] at deep ⊢
  simp only [List.length_cons, List.length_append, List.length_nil] at deep
  obtain ⟨depth, rfl⟩ : ∃ k, depth = k + 1 := ⟨depth - 1, by omega⟩
  have first := left depth (by omega)
  have second := right depth (by omega)
  rw [unlinedBinary]
  refine .group (.plain (.first ?_))
  cases factor : isProduct op with
  | true => exact .first (.next (.first first) factor second)
  | false =>
    have term : isSum op = true := by cases op <;> first | contradiction | rfl
    exact .next (primarySum first) term (.first second)

theorem assignOperand {v : Node} {x : String} {line : Nat} (value : MakesBare v) :
    MakesOperand (.assign line x v) := by
  intro depth deep
  have symbols : operandSymbols (.assign line x v) =
      .opening :: ([.name x] ++ .assign :: v.symbols ++ [.closing]) := by
    simp [operandSymbols, Node.symbols, Node.isComparison, grouped]
  have unlined : (Node.assign line x v).unlined = .assign 0 x v.unlined := by
    simp [Node.unlined, Node.reline]
  rw [symbols] at deep ⊢
  simp only [List.length_cons, List.length_append, List.length_nil] at deep
  obtain ⟨depth, rfl⟩ : ∃ k, depth = k + 1 := ⟨depth - 1, by omega⟩
  rw [unlined]
  exact .group (.assign (.first (primarySum (.name x))) (bareExpression value (by omega)))

theorem argumentsMake {vs : List Node} {depth : Nat} (each : ∀ v ∈ vs, MakesBare v)
    (deep : (separated (Node.symbolsAll vs)).length < depth) :
    Arguments (Expression depth) (separated (Node.symbolsAll vs)) (vs.map Node.unlined) := by
  induction vs with
  | nil => exact .none
  | cons v vs ih =>
    obtain ⟨bare, rest⟩ := List.forall_mem_cons.mp each
    cases vs with
    | nil => exact .last (bareExpression bare deep)
    | cons w vs =>
      simp only [Node.symbolsAll, separated, List.length_append, List.length_cons] at deep ih ⊢
      exact .next (bareExpression bare (by omega)) (ih rest (by omega))

theorem callOperand {vs : List Node} {f : String} {line : Nat} (each : ∀ v ∈ vs, MakesBare v) :
    MakesOperand (.call line f vs) := by
  intro depth deep
  have symbols : operandSymbols (.call line f vs) =
      .name f :: .opening :: (separated (Node.symbolsAll vs) ++ [.closing]) := by
    simp [operandSymbols, Node.symbols, Node.isComparison, grouped]
  have unlined : (Node.call line f vs).unlined = .call 0 f (vs.map Node.unlined) := by
    simp [Node.unlined, Node.reline, Node.relineAllMap]
  rw [symbols] at deep ⊢
  simp only [List.length_cons, List.length_append, List.length_nil] at deep
  rw [unlined]
  exact .call (argumentsMake each (by omega))

theorem literalOperand (line : Nat) : ∀ v : Literal, MakesOperand (.literal line v)
  | .number n => fun _ _ => .number n
  | .text s => fun _ _ => .text s

theorem nameOperand (line : Nat) (s : String) : MakesOperand (.name line s) :=
  fun _ _ => .name s

mutual

theorem symbolsMake : ∀ e : Node, e.obeys Node.writable .operand = true →
    MakesOperand e ∧ MakesBare e
  | .literal line v, _ => ⟨literalOperand line v, operandBare rfl (literalOperand line v)⟩
  | .name line s, _ => ⟨nameOperand line s, operandBare rfl (nameOperand line s)⟩
  | .binary line op l r, h => by
    simp only [Node.obeys, Bool.and_eq_true] at h
    have left := symbolsMake l h.1.2
    have right := symbolsMake r h.2
    cases compares : op.isComparison with
    | true =>
      have bare : MakesBare (.binary line op l r) := comparisonBare compares left.2 right.1
      exact ⟨comparisonOperand compares bare, bare⟩
    | false =>
      have operand : MakesOperand (.binary line op l r) :=
        arithmeticOperand compares left.1 right.1
      exact ⟨operand, operandBare compares operand⟩
  | .assign line x v, h => by
    simp only [Node.obeys, Bool.and_eq_true] at h
    have operand : MakesOperand (.assign line x v) := assignOperand (symbolsMake v h.2).2
    exact ⟨operand, operandBare rfl operand⟩
  | .call line f vs, h => by
    simp only [Node.obeys, Bool.and_eq_true] at h
    have operand : MakesOperand (.call line f vs) := callOperand (symbolsMakeAll vs h.2)
    exact ⟨operand, operandBare rfl operand⟩
  | .function .., h | .cond .., h | .loop .., h | .handler .., h | .result .., h => by
    simp [Node.obeys, Node.writable, Node.wellFormed] at h

theorem symbolsMakeAll : ∀ es : List Node, Node.obeyAll Node.writable .operand es = true →
    ∀ e ∈ es, MakesBare e
  | [], _ => List.forall_mem_nil _
  | e :: es, h => by
    simp only [Node.obeyAll, Bool.and_eq_true] at h
    exact List.forall_mem_cons.mpr ⟨(symbolsMake e h.1).2, symbolsMakeAll es h.2⟩

end

theorem symbolsExpression {e : Node} (h : e.obeys Node.writable .operand = true) :
    Expression (e.symbols.length + 1) e.symbols e.unlined :=
  bareExpression (symbolsMake e h).2 (Nat.lt_succ_self _)

/- The symbols of two expressions differ unless the expressions differ in lines only. -/
theorem symbolsDetermine {e f : Node} (he : e.obeys Node.writable .operand = true)
    (hf : f.obeys Node.writable .operand = true) (same : e.symbols = f.symbols) :
    e.unlined = f.unlined := by
  have first := symbolsExpression he
  rw [same] at first
  exact expressionUnique first (symbolsExpression hf)

end EventScript.Script
