import Mathlib.Data.Option.Basic
import EventScript.Proofs.Termination

/-! Returns outside any function. The search for one finds the first in the order of the
text, and a program without one runs its top level statement by statement: none of them
returns, so the run stops early only where a statement fails. -/
namespace EventScript

open Evaluation Eval

namespace Node

def isReturn : Node → Bool
  | result .. => true
  | _ => false

mutual

/- The statements outside any function and handler, in the order of the text, with those in
branches and loops. -/
def exposed : Node → List Node
  | n@(cond _ _ body branches otherwise) =>
    n :: (exposedIn body ++ exposedInBranches branches ++ exposedIn otherwise)
  | n@(loop _ _ _ body) => n :: exposedIn body
  | n => [n]

def exposedIn : List Node → List Node
  | [] => []
  | n :: ns => exposed n ++ exposedIn ns

def exposedInBranches : List (Branch Node) → List Node
  | [] => []
  | ⟨_, body⟩ :: rest => exposedIn body ++ exposedInBranches rest

end

/- The line of the first return in a list. -/
def returnLine (ns : List Node) : Option Nat := (ns.find? isReturn).map line

theorem returnLineAppend (ns ms : List Node) :
    returnLine (ns ++ ms) = (returnLine ns <|> returnLine ms) := by
  rw [returnLine, List.find?_append, returnLine, returnLine]
  cases ns.find? isReturn <;> rfl

theorem returnLineCons {n : Node} (other : n.isReturn = false) (ns : List Node) :
    returnLine (n :: ns) = returnLine ns := by
  rw [returnLine, List.find?_cons_of_neg (by rw [other]; exact Bool.false_ne_true), returnLine]

mutual

theorem strayFirst : ∀ n : Node, strayReturn n = returnLine (exposed n)
  | result .. | literal .. | name .. | binary .. | assign .. | call .. | function .. | handler .. => rfl
  | cond _ _ body branches otherwise => by
    rw [exposed, returnLineCons rfl, returnLineAppend, returnLineAppend, ← strayFirstIn body,
      ← strayFirstInBranches branches, ← strayFirstIn otherwise, strayReturn]
    cases strayIn body <;> rfl
  | loop _ _ _ body => by rw [exposed, returnLineCons rfl, ← strayFirstIn body, strayReturn]

theorem strayFirstIn : ∀ ns : List Node, strayIn ns = returnLine (exposedIn ns)
  | [] => rfl
  | n :: ns => by rw [exposedIn, returnLineAppend, ← strayFirst n, ← strayFirstIn ns, strayIn]

theorem strayFirstInBranches : ∀ bs : List (Branch Node),
    strayInBranches bs = returnLine (exposedInBranches bs)
  | [] => rfl
  | ⟨_, body⟩ :: rest => by
    rw [exposedInBranches, returnLineAppend, ← strayFirstIn body, ← strayFirstInBranches rest,
      strayInBranches]

end

section Standing

variable {p : List Node}

mutual

theorem exposedStands : ∀ {n : Node}, Stands p .statement n → ∀ c ∈ exposed n, Stands p .statement c
  | cond _ _ body branches otherwise, stands, c, member => by
    simp only [exposed, List.mem_cons, List.mem_append] at member
    rcases member with rfl | (inside | inside) | inside
    · exact stands
    · refine exposedStandsIn ?_ c inside
      exact fun b member => .inside stands (.statement List.mem_cons_self member)
    · refine exposedStandsInBranches ?_ c inside
      exact fun branch listed b member => .inside stands
        (.statement (List.mem_cons_of_mem _ (List.mem_cons_of_mem _ (List.mem_map_of_mem listed))) member)
    · refine exposedStandsIn ?_ c inside
      exact fun b member => .inside stands
        (.statement (List.mem_cons_of_mem _ List.mem_cons_self) member)
  | loop _ _ _ body, stands, c, member => by
    simp only [exposed, List.mem_cons] at member
    rcases member with rfl | inside
    · exact stands
    · refine exposedStandsIn ?_ c inside
      exact fun b member => .inside stands (.statement List.mem_cons_self member)
  | result .., stands, c, member | literal .., stands, c, member | name .., stands, c, member
  | binary .., stands, c, member | assign .., stands, c, member | call .., stands, c, member
  | function .., stands, c, member | handler .., stands, c, member => by
    rw [List.mem_singleton.mp member]
    exact stands

theorem exposedStandsIn : ∀ {ns : List Node}, (∀ n ∈ ns, Stands p .statement n) →
    ∀ c ∈ exposedIn ns, Stands p .statement c
  | n :: ns, stand, c, member => by
    obtain ⟨first, rest⟩ := List.forall_mem_cons.mp stand
    rcases List.mem_append.mp member with inside | inside
    · exact exposedStands first c inside
    · exact exposedStandsIn rest c inside

theorem exposedStandsInBranches : ∀ {bs : List (Branch Node)},
    (∀ b ∈ bs, ∀ n ∈ b.body, Stands p .statement n) →
      ∀ c ∈ exposedInBranches bs, Stands p .statement c
  | ⟨_, body⟩ :: rest, stand, c, member => by
    obtain ⟨first, others⟩ := List.forall_mem_cons.mp stand
    rcases List.mem_append.mp member with inside | inside
    · exact exposedStandsIn first c inside
    · exact exposedStandsInBranches others c inside

end

/- A return that is refused stands as a statement. -/
theorem strayStands {line : Nat} (h : strayIn p = some line) :
    ∃ n, Stands p .statement n ∧ n.line = line := by
  rw [strayFirstIn] at h
  obtain ⟨n, found, same⟩ := Option.map_eq_some_iff.mp h
  exact ⟨n, exposedStandsIn (fun _ member => .top member) n (List.mem_of_find?_eq_some found), same⟩

end Standing

end Node

namespace Evaluation

/- A computation that does not return. -/
def GoesOn (x : Eval Flow) : Prop := ∀ m flow n, x m = .ok flow n → ∃ v, flow = .next v

section Flows

variable {α : Type} {i : Invoke}

theorem goesOnNext (v : Value) : GoesOn (pure (.next v)) := by
  intro m flow n done
  cases done
  exact ⟨v, rfl⟩

theorem goesOnBind {x : Eval α} {f : α → Eval Flow} (next : ∀ a, GoesOn (f a)) :
    GoesOn (x >>= f) := by
  intro m flow n done
  obtain ⟨a, o, _, last⟩ := okOfBind done
  exact next a o flow n last

theorem goesOnAtLine {x : Eval Flow} (h : GoesOn x) (line : Nat) : GoesOn (Eval.atLine line x) := by
  intro m flow n done
  rcases atLineCases line x m with ⟨a, o, first, second⟩ | ⟨e, e', o, first, second⟩
  · rw [second] at done
    cases done
    exact h m _ _ first
  · rw [second] at done
    contradiction

theorem goesOnLocated {x : Eval Flow} (h : GoesOn x) (position : Position) (line : Nat) :
    GoesOn (located position line x) := by
  cases position with
  | statement => exact goesOnAtLine h line
  | operand => exact h

theorem goesOnIf {b : Bool} {x y : Eval Flow} (yes : GoesOn x) (no : GoesOn y) :
    GoesOn (if b then x else y) := by
  cases b with
  | true => exact yes
  | false => exact no

/- What follows runs if the first part goes on, and that is how it must have ended. -/
theorem goesOnThen {x rest : Eval Flow} (first : GoesOn x) (next : GoesOn rest) :
    GoesOn (x >>= fun
      | .returned value => pure (.returned value)
      | .next _ => rest) := by
  intro m flow n done
  obtain ⟨a, o, head, last⟩ := okOfBind done
  obtain ⟨v, rfl⟩ := first m a o head
  exact next o flow n last

theorem goesOnItems {run : Value → Eval Flow} (h : ∀ item, GoesOn (run item)) (items : List Value) :
    GoesOn (forItems run items) := by
  induction items with
  | nil => exact goesOnNext .undefined
  | cons item items ih => exact goesOnThen (h item) ih

mutual

theorem nodeGoesOn : ∀ {n : Node}, n.strayReturn = none → ∀ (position : Position) (scope : Scope),
    GoesOn (perform i position n scope)
  | .literal .., _, position, scope => by
    rw [perform]
    exact goesOnNext _
  | .name .., _, position, scope => by
    rw [perform]
    exact goesOnLocated (goesOnBind fun _ => goesOnNext _) position _
  | .binary .., _, position, scope => by
    rw [perform]
    exact goesOnLocated (goesOnBind fun _ => goesOnBind fun _ => goesOnNext _) position _
  | .assign .., _, position, scope => by
    rw [perform]
    refine goesOnLocated (goesOnBind fun _ => ?_) position _
    cases position <;> exact goesOnBind fun _ => goesOnNext _
  | .call .., _, position, scope => by
    rw [perform]
    exact goesOnLocated (goesOnBind fun _ => goesOnBind fun _ => goesOnBind fun _ => goesOnNext _)
      position _
  | .function .., _, position, scope => by
    rw [perform]
    exact goesOnAtLine (goesOnBind fun _ => goesOnNext _) _
  | .cond _ _ body branches otherwise, legal, position, scope => by
    obtain ⟨first, rest⟩ := (Option.orElse_eq_none _ _).mp legal
    obtain ⟨others, last⟩ := (Option.orElse_eq_none _ _).mp rest
    rw [perform]
    refine goesOnAtLine (goesOnBind fun _ => goesOnIf ?_ ?_) _
    · exact goesOnBind fun _ => statementsGoOn first scope
    · exact branchesGoOn others scope (goesOnBind fun _ => statementsGoOn last scope)
  | .loop _ _ _ body, legal, position, scope => by
    rw [perform]
    refine goesOnAtLine (goesOnBind fun _ => goesOnBind fun _ => goesOnItems (fun _ => ?_) _) _
    exact goesOnBind fun turn => goesOnBind fun _ => statementsGoOn legal turn
  | .handler .., _, position, scope => by
    rw [perform]
    exact goesOnAtLine (goesOnBind fun _ => goesOnNext _) _

theorem statementsGoOn : ∀ {ns : List Node}, Node.strayIn ns = none → ∀ scope : Scope,
    GoesOn (statements i ns scope)
  | [], _, scope => by
    rw [statements]
    exact goesOnNext .undefined
  | n :: ns, legal, scope => by
    obtain ⟨first, rest⟩ := (Option.orElse_eq_none _ _).mp legal
    rw [statements]
    exact goesOnIf (statementsGoOn rest scope)
      (goesOnThen (nodeGoesOn first .statement scope) (statementsGoOn rest scope))

theorem branchesGoOn : ∀ {bs : List (Branch Node)}, Node.strayInBranches bs = none →
    ∀ (scope : Scope) {last : Eval Flow}, GoesOn last → GoesOn (choose i bs scope last)
  | [], _, scope, last, h => by
    rw [choose]
    exact h
  | ⟨_, body⟩ :: rest, legal, scope, last, h => by
    obtain ⟨first, others⟩ := (Option.orElse_eq_none _ _).mp legal
    rw [choose]
    exact goesOnBind fun _ => goesOnIf (goesOnBind fun _ => statementsGoOn first scope)
      (branchesGoOn others scope h)

end

end Flows

/- Statements performed one after the other, each of which went on. -/
inductive Performs (i : Invoke) (scope : Scope) : List Node → Machine → Machine → Prop where
  | done {m} : Performs i scope [] m m
  | next {n ns m v o q} (ran : perform i .statement n scope m = .ok (.next v) o)
      (rest : Performs i scope ns o q) : Performs i scope (n :: ns) m q

/- One of the statements fails after those before it were performed. -/
def Stops (i : Invoke) (scope : Scope) (ns : List Node) (m : Machine) (halt : Halt) (n : Machine) :
    Prop :=
  ∃ before e after o, ns = before ++ e :: after ∧ Performs i scope before m o ∧
    perform i .statement e scope o = .error halt n

theorem statementsPerformed {i : Invoke} {ns : List Node} (legal : Node.strayIn ns = none)
    (scope : Scope) (m : Machine) :
    let others := ns.filter fun n => !n.isFunction
    (∃ n, statements i ns scope m = .ok (.next .undefined) n ∧ Performs i scope others m n) ∨
      ∃ halt n, statements i ns scope m = .error halt n ∧ Stops i scope others m halt n := by
  induction ns generalizing m with
  | nil =>
    rw [statements]
    exact .inl ⟨m, rfl, .done⟩
  | cons e ns ih =>
    obtain ⟨first, rest⟩ := (Option.orElse_eq_none _ _).mp legal
    rw [statements]
    cases function : e.isFunction with
    | true =>
      simp only [List.filter_cons, function, Bool.not_true, Bool.false_eq_true, if_false, if_true]
      exact ih rest m
    | false =>
      simp only [List.filter_cons, function, Bool.not_false, Bool.false_eq_true, if_false, if_true]
      cases ran : perform i .statement e scope m with
      | error halt n =>
        refine .inr ⟨halt, n, ?_, [], e, _, m, rfl, .done, ran⟩
        simp only [bind, EStateM.bind, ran]
      | ok flow n =>
        obtain ⟨v, rfl⟩ := nodeGoesOn first .statement scope m flow n ran
        rw [bindOk ran]
        rcases ih rest n with ⟨o, done, performs⟩ | ⟨halt, o, failed, stops⟩
        · exact .inl ⟨o, done, .next ran performs⟩
        · obtain ⟨before, f, after, q, same, performs, last⟩ := stops
          refine .inr ⟨halt, o, failed, e :: before, f, after, q, ?_, .next ran performs, last⟩
          rw [same, List.cons_append]

end Evaluation

namespace Moment

variable {e : EvalError}

theorem lastCharacter {front ending text : String} {c d : Char} (first : ending.toList.getLast? = some c)
    (second : text.toList.getLast? = some d) (apart : c ≠ d) : front ++ ending ≠ text := by
  intro same
  have last := congrArg (fun s => s.toList.getLast?) same
  simp only [String.toList_append, List.getLast?_append, first, second, Option.some_or] at last
  exact apart (Option.some.inj last)

theorem primitiveMessage (h : Primitive e) : e.message ≠ EvalError.illegalReturn.message := by
  cases h with
  | notDefined name => exact lastCharacter (c := 'd') (d := 't') rfl rfl (by decide)
  | notFunction name => exact lastCharacter (c := 'n') (d := 't') rfl rfl (by decide)
  | notIterable text => exact lastCharacter (c := 'e') (d := 't') rfl rfl (by decide)
  | notInteger text => exact lastCharacter (c := 'r') (d := 't') rfl rfl (by decide)
  | badLength | callLimit => decide

theorem failsLegally {s : Moment} (h : s.Halts (.error e)) : e.message ≠ EvalError.illegalReturn.message := by
  obtain ⟨e₀, primitive, same⟩ := failsPrimitive h
  intro message
  rw [same] at message
  exact primitiveMessage primitive message

end Moment

theorem strayReturnsAreCaught (p : List Node) (m : Machine) :
    (∀ n, (Node.exposedIn p).find? Node.isReturn = some n →
      Machine.load p m = .error (.error ⟨.error, "Illegal return statement", some n.line⟩) m) ∧
    ((∀ n ∈ Node.exposedIn p, n.isReturn = false) →
      (∀ invoke scope, GoesOn (statements invoke p scope)) ∧
      let others := p.filter fun n => !n.isFunction
      let hoisted := { m with store := hoist Machine.globals m.store p }
      ((∃ n, Machine.load p m = .ok () n ∧
          Performs (calling m.allowed) Machine.globals others hoisted n) ∨
        (∃ error n, Machine.load p m = .error (.error error) n ∧
          Stops (calling m.allowed) Machine.globals others hoisted (.error error) n ∧
          error.message ≠ "Illegal return statement") ∨
        ∃ n, Machine.load p m = .error .overflow n ∧
          Stops (calling m.allowed) Machine.globals others hoisted .overflow n ∧
          ∃ s event, (Operation.load p).Passes m s ∧ s.task = .dispatch 0 event)) := by
  constructor
  · intro n found
    have stray : Node.strayIn p = some n.line := by
      rw [Node.strayFirstIn, Node.returnLine, found]
      rfl
    simp only [Machine.load, stray]
    rfl
  · intro none
    have legal : Node.strayIn p = .none := by
      have absent : (Node.exposedIn p).find? Node.isReturn = .none := by
        rw [List.find?_eq_none]
        intro n member
        rw [none n member]
        exact Bool.false_ne_true
      rw [Node.strayFirstIn, Node.returnLine, absent]
      rfl
    refine ⟨fun invoke scope => statementsGoOn legal scope, ?_⟩
    intro others hoisted
    have opened : Machine.load p m =
        (statements (calling m.allowed) p Machine.globals >>= fun _ => pure ()) hoisted := by
      rw [Machine.loadOpens legal]
      rfl
    rcases statementsPerformed (i := calling m.allowed) legal Machine.globals hoisted with
      ⟨n, done, performs⟩ | ⟨halt, n, failed, stops⟩
    · refine .inl ⟨n, ?_, performs⟩
      rw [opened, bindOk done]
      rfl
    · have loaded : Machine.load p m = .error halt n := by rw [opened, bindError failed]
      cases halt with
      | error error =>
        refine .inr (.inl ⟨error, n, loaded, stops, ?_⟩)
        exact Moment.failsLegally (s := ⟨m.allowed, .statements p Machine.globals, hoisted⟩) ⟨n, failed⟩
      | overflow =>
        have cut : (Operation.load p).run m = .error .overflow n := bindError loaded
        exact .inr (.inr ⟨n, loaded, stops, Operation.overflowPasses cut⟩)

/- A function that returns, then a loop in an else part. -/
def loopInElse (body : List Node) : List Node :=
  [.function 1 "f" [] [.result 2 (.name 2 "x")],
    .cond 3 (.name 3 "f") [.call 4 "print" []] [] [.loop 5 "i" (.name 5 "items") body]]

theorem strayReturnInElse :
    ((Node.exposedIn (loopInElse [.result 6 (.name 6 "i")])).find? Node.isReturn =
        some (.result 6 (.name 6 "i")) ∧
      Machine.load (loopInElse [.result 6 (.name 6 "i")]) (Machine.start [] 1) =
        .error (.error ⟨.error, "Illegal return statement", some 6⟩) (Machine.start [] 1)) ∧
    ((∀ n ∈ Node.exposedIn (loopInElse []), n.isReturn = false) ∧
      ∀ invoke scope, GoesOn (statements invoke (loopInElse []) scope)) := by
  have legal : ∀ n ∈ Node.exposedIn (loopInElse []), n.isReturn = false := by
    intro n member
    simp only [loopInElse, Node.exposedIn, Node.exposed, Node.exposedInBranches, List.append_nil,
      List.singleton_append, List.mem_cons, List.not_mem_nil, or_false] at member
    rcases member with rfl | rfl | rfl | rfl <;> rfl
  obtain ⟨refused, _⟩ := strayReturnsAreCaught (loopInElse [.result 6 (.name 6 "i")]) (Machine.start [] 1)
  obtain ⟨_, accepted⟩ := strayReturnsAreCaught (loopInElse []) (Machine.start [] 1)
  exact ⟨⟨rfl, refused (.result 6 (.name 6 "i")) rfl⟩, legal, (accepted legal).1⟩

end EventScript
