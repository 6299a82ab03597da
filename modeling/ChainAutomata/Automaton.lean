/-
Automata: the graphs that patterns are compiled to.

The states of an automaton lie in a list, its arena, and are addressed by their position in it.
Transitions leave a state in a fixed order; each says what is done with the event at hand, where it
leads, and under which condition.  Nothing in the types keeps an automaton well formed: a
transition may lead nowhere and a state may be filed under a number that is not its position.
`Automaton.audit`, elsewhere, finds such faults.

* `Automaton.state?`, `startState?`, `finalState?`, `target?` — lookups, absent when out of range;
* `Automaton.statesNamed` — the states with a name; the two halves of a repeated element share one;
* `Automaton.unfold` — the transitions of a state by the names of their targets.
-/
import ChainAutomata.Condition

universe u

namespace ChainAutomata

open Inspection (Tree)

/-- The position of a state in the arena. -/
abbrev StateId := Nat

/-- How a state is written in messages. -/
def StateId.display (id : StateId) : String := "#" ++ Text.decimal id

/-- How a state is shown in inspection text. -/
def StateId.inspect (id : StateId) : Tree := .tuple "StateId" [.number id]

/-- The role of a state. -/
inductive Role where
  | start
  | normal
  | final
  deriving DecidableEq, Repr

namespace Role

/-- The spelling in exported descriptions. -/
def label : Role → String
  | start => "start"
  | normal => "normal"
  | final => "final"

/-- The spelling in inspection text. -/
def inspect : Role → Tree
  | start => .atom "Start"
  | normal => .atom "Normal"
  | final => .atom "Final"

end Role

/-- What a transition does with the event at hand. -/
inductive Action where
  /-- Consumes the event and moves on. -/
  | take
  /-- Consumes the event and keeps waiting. -/
  | ignore
  /-- Moves on without consuming anything. -/
  | proceed
  deriving DecidableEq, Repr

namespace Action

/-- Whether the action looks at the event, and so carries a condition. -/
def needsCondition : Action → Bool
  | take | ignore => true
  | proceed => false

/-- The spelling in messages and exported descriptions. -/
def label : Action → String
  | take => "TAKE"
  | ignore => "IGNORE"
  | proceed => "PROCEED"

/-- The spelling in inspection text. -/
def inspect : Action → Tree
  | take => .atom "Take"
  | ignore => .atom "Ignore"
  | proceed => .atom "Proceed"

end Action

/-- An edge out of a state. -/
structure Transition (ε : Type u) where
  action : Action
  target : StateId
  condition : Option (Condition ε)

/-- A named state with its edges in order. -/
structure State (ε : Type u) where
  id : StateId
  name : String
  role : Role
  transitions : List (Transition ε) := []

/-- An arena of states with a designated start and a designated end. -/
structure Automaton (ε : Type u) where
  states : List (State ε)
  start : StateId
  final : StateId

variable {ε : Type u}

namespace Transition

def inspect (t : Transition ε) : Tree :=
  .record "StateTransition" [
    ("action", t.action.inspect),
    ("target", t.target.inspect),
    ("condition", .optional (t.condition.map Condition.inspect))]

end Transition

namespace State

def isStart (s : State ε) : Bool := s.role == .start

def isFinal (s : State ε) : Bool := s.role == .final

def inspect (s : State ε) : Tree :=
  .record "State" [
    ("id", s.id.inspect),
    ("name", .text s.name),
    ("kind", s.role.inspect),
    ("transitions", .list (s.transitions.map Transition.inspect))]

end State

namespace Automaton

/-- The number of states. -/
def size (a : Automaton ε) : Nat := a.states.length

/-- The state at a position. -/
def state? (a : Automaton ε) (id : StateId) : Option (State ε) := a.states[id]?

def startState? (a : Automaton ε) : Option (State ε) := a.state? a.start

def finalState? (a : Automaton ε) : Option (State ε) := a.state? a.final

/-- The state that a transition leads to. -/
def target? (a : Automaton ε) (t : Transition ε) : Option (State ε) := a.state? t.target

/-- The states with a name, in arena order. -/
def statesNamed (a : Automaton ε) (name : String) : List (State ε) :=
  a.states.filter fun s => s.name == name

/-- The transitions of a state as pairs of target name and action; one that leads nowhere is left
out. -/
def unfold (a : Automaton ε) (s : State ε) : List (String × Action) :=
  s.transitions.filterMap fun t => (a.target? t).map fun target => (target.name, t.action)

def inspect (a : Automaton ε) : Tree :=
  .record "Nfa" [
    ("start", a.start.inspect),
    ("final_state", a.final.inspect),
    ("states", .list (a.states.map State.inspect))]

theorem isSome_state?_iff {a : Automaton ε} {id : StateId} :
    (a.state? id).isSome ↔ id < a.size := by
  simp [state?, size]

end Automaton

end ChainAutomata
