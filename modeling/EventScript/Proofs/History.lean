import EventScript.Proofs.Conduct
import EventScript.Proofs.Registration

/-! History only grows. Whatever an operation does and however it ends, what was shown
and asked stays, answers are taken from the front, one for each question, and the
listeners of an event stay in front of those that it gets. -/
namespace EventScript

open Evaluation Eval

namespace Console

theorem shownTell (c : Console) (text : String) : (c.tell text).shown = c.shown ++ [text] := by
  simp [shown, tell]

theorem askedTell (c : Console) (text : String) : (c.tell text).asked = c.asked := by
  simp [asked, tell]

theorem shownAsk (c : Console) (message : String) : (c.ask message).2.shown = c.shown := by
  simp [shown, ask]

theorem askedAsk (c : Console) (message : String) :
    (c.ask message).2.asked = c.asked ++ [message] := by
  simp [asked, ask]

end Console

structure Machine.Continues (m n : Machine) : Prop where
  shown : m.console.shown <+: n.console.shown
  asked : m.console.asked <+: n.console.asked
  answers : n.console.answers =
    m.console.answers.drop (n.console.asked.length - m.console.asked.length)
  listeners : ∀ event, m.registry.listeners event <+: n.registry.listeners event

namespace History

variable {l m n : Machine}

theorem continuesSame (console : n.console = m.console) (registry : n.registry = m.registry) :
    m.Continues n where
  shown := by simp only [console, List.prefix_rfl]
  asked := by simp only [console, List.prefix_rfl]
  answers := by rw [console, Nat.sub_self, List.drop_zero]
  listeners event := by simp only [registry, List.prefix_rfl]

theorem continuesTrans (first : l.Continues m) (second : m.Continues n) : l.Continues n where
  shown := first.shown.trans second.shown
  asked := first.asked.trans second.asked
  answers := by
    have more := first.asked.length_le
    have most := second.asked.length_le
    rw [second.answers, first.answers, List.drop_drop]
    congr 1
    omega
  listeners event := (first.listeners event).trans (second.listeners event)

theorem continuesTell (m : Machine) (text : String) :
    m.Continues { m with console := m.console.tell text } where
  shown := by
    rw [Console.shownTell]
    exact List.prefix_append _ _
  asked := by simp only [Console.askedTell, List.prefix_rfl]
  answers := by
    rw [Console.askedTell, Nat.sub_self]
    rfl
  listeners event := List.prefix_rfl

theorem continuesAsk (m : Machine) (message : String) :
    m.Continues { m with console := (m.console.ask message).2 } where
  shown := by simp only [Console.shownAsk, List.prefix_rfl]
  asked := by
    rw [Console.askedAsk]
    exact List.prefix_append _ _
  answers := by
    rw [Console.askedAsk, List.length_append, Nat.add_sub_cancel_left]
    exact List.drop_one.symm
  listeners event := List.prefix_rfl

theorem continuesRegister (sorted : Registry.Sorted m.registry.entries) (event : String)
    (listener : Value) :
    m.Continues { m with registry := m.registry.register event listener } where
  shown := List.prefix_rfl
  asked := List.prefix_rfl
  answers := by rw [Nat.sub_self, List.drop_zero]
  listeners other := by
    rw [Registry.listenersRegistered sorted]
    split
    · rename_i same
      rw [same]
      exact List.prefix_append _ _
    · exact List.prefix_rfl

def Ordered (m : Machine) : Prop := Registry.Sorted m.registry.entries

theorem builtinContinues {arguments : List Value} (sorted : Ordered m)
    (left : BuiltinLeaves arguments m n) : Ordered n ∧ m.Continues n := by
  cases left with
  | nothing | speaks | makes => exact ⟨sorted, continuesSame rfl rfl⟩
  | tells text => exact ⟨sorted, continuesTell m text⟩
  | asks message => exact ⟨sorted, continuesAsk m message⟩
  | registers event => exact ⟨Registry.registerSorted sorted _ _, continuesRegister sorted _ _⟩

theorem writesContinue {s : Moment} {given : List Value} (sorted : Ordered m)
    (h : Writes s m given n) : Ordered n ∧ m.Continues n := by
  cases h with
  | declares | assigns | makes | opens | turns => exact ⟨sorted, continuesSame rfl rfl⟩
  | listens => exact ⟨Registry.registerSorted sorted _ _, continuesRegister sorted _ _⟩
  | answers | notifies => exact builtinContinues sorted (builtinLeaves _ _ m)

abbrev regime : Regime := .ofMachines Ordered Machine.Continues fun _ => True

theorem lawful : regime.Lawful := by
  refine Regime.lawfulMachines (continuesSame rfl rfl) continuesTrans (fun _ _ => trivial) ?_ ?_ ?_
  · intro s a given b _ sorted written
    exact writesContinue sorted written
  · intro k c arguments m _ sorted
    exact sorted
  · intro k c arguments m n _ _ sorted later
    have entered : m.Continues (c.entry arguments m).2 := continuesSame rfl rfl
    have returned : n.Continues { n with depth := n.depth - 1 } := continuesSame rfl rfl
    exact ⟨sorted, continuesTrans (continuesTrans entered later) returned⟩

theorem operationContinues (op : Operation) (sorted : Ordered m) :
    Ordered (op.run.leaves m) ∧ m.Continues (op.run.leaves m) := by
  rcases op.beginsOrNot m with ⟨first, begins⟩ | ⟨name, datum, rfl⟩ | ⟨program, line, rfl, stray⟩
  · have fit : Ordered first.hoisted.machine ∧ m.Continues first.hoisted.machine := by
      cases begins <;> exact ⟨sorted, continuesSame rfl rfl⟩
    have kept := (Regime.operationKeeps lawful begins (Regime.admitsMachines trivial fit.1) fit.2).kept
    exact ⟨kept.fit, kept.later⟩
  · exact ⟨sorted, continuesSame rfl rfl⟩
  · rw [leavesError (Operation.loadRefused stray m)]
    exact ⟨sorted, continuesSame rfl rfl⟩

theorem afterContinues (ops : List Operation) (sorted : Ordered m) :
    Ordered (m.after ops) ∧ m.Continues (m.after ops) := by
  induction ops generalizing m with
  | nil => exact ⟨sorted, continuesSame rfl rfl⟩
  | cons op ops ih =>
    obtain ⟨ordered, continues⟩ := operationContinues op sorted
    obtain ⟨last, rest⟩ := ih ordered
    exact ⟨last, continuesTrans continues rest⟩

/- Listeners that are registered while an event is fired are not counted, nor are those
that fire in between. -/
theorem fireCounts {call : Closure → List Value → Eval Value} {chances count : Nat} {event : String}
    (done : fire call chances event m = .ok count n) : count = (m.registry.listeners event).length := by
  cases chances with
  | zero => contradiction
  | succ chances =>
    rw [fireOpens] at done
    obtain ⟨_, o, _, counted⟩ := okOfBind done
    cases counted
    rfl

theorem runCounts {op : Operation} {event : String} {answer : Option Nat}
    (fires : op.event? = some event) (done : op.run m = .ok answer n) :
    answer = some (m.registry.listeners event).length := by
  have dispatched : ∀ {event}, (some <$> Machine.dispatch event) m = .ok answer n →
      answer = some (m.registry.listeners event).length := by
    intro event done
    rw [map_eq_pure_bind] at done
    obtain ⟨count, o, ran, counted⟩ := okOfBind done
    rw [Machine.dispatchOpens] at ran
    rw [← fireCounts ran]
    cases counted
    rfl
  cases op with
  | bind | load => contradiction
  | dispatch | launch | pressKey =>
    cases fires
    exact dispatched done

end History

theorem historyOnlyGrows (answers : List (Option String)) (patience : Nat) (ops : List Operation)
    (op : Operation) :
    let m := (Machine.start answers patience).after ops
    m.Continues (op.run.leaves m) ∧ (∀ more, m.Continues (m.after more)) ∧
      ∀ event answer n, op.event? = some event → op.run m = .ok answer n →
        answer = some (m.registry.listeners event).length := by
  intro m
  have start : History.Ordered (Machine.start answers patience) := Registry.sortedEmpty
  have sorted := (History.afterContinues ops start).1
  refine ⟨(History.operationContinues op sorted).2, ?_, ?_⟩
  · intro more
    exact (History.afterContinues more sorted).2
  · intro event answer n fires done
    exact History.runCounts fires done

def counting : List Node :=
  [.handler 1 "go" [.handler 1 "go" [], .call 1 "input" [.literal 1 (.text "n")]], .handler 2 "go" []]

theorem countingGrows :
    let m := (Machine.start [some "1"] 1).after [.load counting]
    m.Continues ((Operation.dispatch "go").run.leaves m) ∧
      ∃ n, (Operation.dispatch "go").run m = .ok (some 2) n := by
  intro m
  obtain ⟨continues, _, counts⟩ := historyOnlyGrows [some "1"] 1 [.load counting] (.dispatch "go")
  refine ⟨continues, ?_⟩
  have listening : (m.registry.listeners "go").length = 2 := by decide +kernel
  cases done : (Operation.dispatch "go").run m with
  | ok answer n =>
    have counted := counts "go" answer n rfl done
    rw [listening] at counted
    exact ⟨n, by rw [counted]⟩
  | error e n =>
    have succeeds : (match (Operation.dispatch "go").run m with
      | .ok _ _ => true
      | .error _ _ => false) = true := by decide +kernel
    rw [done] at succeeds
    exact absurd succeeds Bool.false_ne_true

end EventScript
