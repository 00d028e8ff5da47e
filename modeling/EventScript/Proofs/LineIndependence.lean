import EventScript.Proofs.Renumbering
import EventScript.Proofs.Sessions

/-! Where tokens stand on the page has no bearing on what they mean. Lists of tokens
that differ in lines only have the same fault, or trees that differ in lines only;
such trees are written as the same text, and no host can tell their runs apart but by
the line numbers of failures. -/
namespace EventScript

namespace Node

theorem relineBranchesMap (f : Nat → Nat) (bs : List (Branch Node)) :
    relineBranches f bs = bs.map (Branch.map (reline f)) := by
  induction bs with
  | nil => rfl
  | cons b bs ih => rw [relineBranches, ih, List.map_cons, relineAllMap, Branch.map]

end Node

def Observation.unlined : Observation → Observation := reline fun _ => 0

def Translation.relining (f : Nat → Nat) : Translation where
  node := Node.reline f
  line := f
  literal _ _ := by rw [Node.reline]
  name _ _ := by rw [Node.reline]
  binary _ _ _ _ := by rw [Node.reline]
  assign _ _ _ := by rw [Node.reline]
  call _ _ _ := by rw [Node.reline, Node.relineAllMap]
  function _ _ _ _ := by rw [Node.reline, Node.relineAllMap]
  loop _ _ _ _ := by rw [Node.reline, Node.relineAllMap]
  handler _ _ _ := by rw [Node.reline, Node.relineAllMap]
  result _ _ := by rw [Node.reline]
  cond _ _ _ _ _ := by
    simp only [Node.reline, Node.relineAllMap, Node.relineBranchesMap]
    exact Node.alikeSelf _

theorem kindsUnlined {ts us : List Token} (kinds : ts.map Token.kind = us.map Token.kind) :
    ts.map (Token.reline fun _ => 0) = us.map (Token.reline fun _ => 0) := by
  have made : Token.reline (fun _ => 0) = (fun kind => Token.mk kind 0) ∘ Token.kind := rfl
  rw [made, ← List.map_map, ← List.map_map, kinds]

namespace Operation

/- Steps in which a program is still to be put where it is loaded. -/
def filled (program : List Node) : Option Operation → Operation
  | some op => op
  | none => load program

theorem observationsUnlined {p q : List Node} (same : p.map Node.unlined = q.map Node.unlined)
    (steps : List (Option Operation)) (answers : List (Option String)) (patience : Nat) :
    (observations (steps.map (filled p)) (Machine.start answers patience)).map Observation.unlined =
      (observations (steps.map (filled q)) (Machine.start answers patience)).map Observation.unlined := by
  let t := Translation.relining fun _ => 0
  have start : t.machine (Machine.start answers patience) = Machine.start answers patience :=
    Machine.startMapped _ answers patience
  have step : ∀ s, t.operation (filled p s) = t.operation (filled q s) := by
    intro s
    cases s with
    | some op => rfl
    | none => exact congrArg load same
  have ops : (steps.map (filled p)).map t.operation = (steps.map (filled q)).map t.operation := by
    simp only [List.map_map, Function.comp_def, step]
  have first := t.observationsFollow (steps.map (filled p)) (Machine.start answers patience)
  have second := t.observationsFollow (steps.map (filled q)) (Machine.start answers patience)
  rw [start] at first second
  exact first.symm.trans ((congrArg (observations · _) ops).trans second)

end Operation

theorem parseUnlined {ts us : List Token} (kinds : ts.map Token.kind = us.map Token.kind) :
    (∃ e e', parseTokens ts = .error e ∧ parseTokens us = .error e' ∧ e.fault = e'.fault) ∨
      ∃ p q, parseTokens ts = .ok p ∧ parseTokens us = .ok q ∧
        p.map Node.unlined = q.map Node.unlined := by
  have first := parseRenumbered (fun _ => 0) ts
  have second := parseRenumbered (fun _ => 0) us
  rw [← kindsUnlined kinds, first] at second
  cases left : parseTokens ts with
  | error e =>
    cases right : parseTokens us with
    | error e' =>
      rw [left, right] at second
      have errors : (e.reline fun _ => 0) = e'.reline fun _ => 0 := Except.error.inj second
      have faults : (e.reline fun _ => 0).fault = (e'.reline fun _ => 0).fault := by rw [errors]
      exact .inl ⟨e, e', rfl, rfl, faults⟩
    | ok q =>
      rw [left, right] at second
      cases second
  | ok p =>
    cases right : parseTokens us with
    | error e' =>
      rw [left, right] at second
      cases second
    | ok q =>
      rw [left, right] at second
      exact .inr ⟨p, q, rfl, rfl, Except.ok.inj second⟩

theorem layoutNeverChangesMeaning (ts us : List Token)
    (kinds : ts.map Token.kind = us.map Token.kind) :
    (∃ e e', parseTokens ts = .error e ∧ parseTokens us = .error e' ∧ e.message = e'.message) ∨
      ∃ p q, parseTokens ts = .ok p ∧ parseTokens us = .ok q ∧
        p.map Node.unlined = q.map Node.unlined ∧
        (∀ options, Emit.program options p = Emit.program options q) ∧
        ∀ (steps : List (Option Operation)) answers patience,
          (Operation.observations (steps.map (Operation.filled p)) (Machine.start answers patience)).map
              Observation.unlined =
            (Operation.observations (steps.map (Operation.filled q)) (Machine.start answers patience)).map
              Observation.unlined := by
  rcases parseUnlined kinds with ⟨e, e', first, second, fault⟩ | ⟨p, q, first, second, same⟩
  · exact .inl ⟨e, e', first, second, by rw [SyntaxError.message, SyntaxError.message, fault]⟩
  · exact .inr ⟨p, q, first, second, same, emitUnlined same, Operation.observationsUnlined same⟩

def callOnOneLine : List Token :=
  [⟨.name "print", 1⟩, ⟨.mark .leftBracket, 1⟩, ⟨.name "missing", 1⟩, ⟨.mark .rightBracket, 1⟩]

def callOverLines : List Token :=
  [⟨.name "print", 2⟩, ⟨.mark .leftBracket, 3⟩, ⟨.name "missing", 5⟩, ⟨.mark .rightBracket, 5⟩]

/- Both calls fail, each on the line that it has. -/
theorem callsMeanTheSame :
    callOnOneLine.map Token.kind = callOverLines.map Token.kind ∧
      parseTokens callOnOneLine = .ok [.call 1 "print" [.name 1 "missing"]] ∧
      parseTokens callOverLines = .ok [.call 2 "print" [.name 5 "missing"]] ∧
      ∀ (steps : List (Option Operation)) answers patience,
        (Operation.observations (steps.map (Operation.filled [.call 1 "print" [.name 1 "missing"]]))
            (Machine.start answers patience)).map Observation.unlined =
          (Operation.observations (steps.map (Operation.filled [.call 2 "print" [.name 5 "missing"]]))
            (Machine.start answers patience)).map Observation.unlined := by
  have kinds : callOnOneLine.map Token.kind = callOverLines.map Token.kind := rfl
  have first : parseTokens callOnOneLine = .ok [.call 1 "print" [.name 1 "missing"]] := by cbv
  have second : parseTokens callOverLines = .ok [.call 2 "print" [.name 5 "missing"]] := by cbv
  refine ⟨kinds, first, second, ?_⟩
  rcases layoutNeverChangesMeaning callOnOneLine callOverLines kinds with
    ⟨e, e', fault, _⟩ | ⟨p, q, left, right, _, _, seen⟩
  · rw [first] at fault
    contradiction
  · rw [first] at left
    rw [second] at right
    cases left
    cases right
    exact seen

end EventScript
