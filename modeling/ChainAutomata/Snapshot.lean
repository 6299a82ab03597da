/-
Snapshots: an automaton as plain data, for tools and logs.

A snapshot lists every state with its transitions in order, each with the name of its target and
the description of its condition.  It holds no functions, so snapshots can be compared, and nothing
of the graph is left out.

* `Automaton.snapshot?` — the snapshot of an automaton, absent when its start is no state;
* `Snapshot.toJson` — the form in which a snapshot is exported.
-/
import ChainAutomata.Automaton
import ChainAutomata.Json

universe u

namespace ChainAutomata

open Inspection (Tree)

/-- A transition as plain data. -/
structure TransitionView where
  action : Action
  target : StateId
  /-- The name of the target; empty if there is no such state. -/
  targetName : String
  condition : Option String
  deriving DecidableEq, Repr

/-- A state as plain data. -/
structure StateView where
  id : StateId
  name : String
  role : Role
  transitions : List TransitionView
  deriving DecidableEq, Repr

/-- An automaton as plain data. -/
structure Snapshot where
  start : StateId
  states : List StateView
  deriving DecidableEq, Repr

namespace TransitionView

def inspect (t : TransitionView) : Tree :=
  .record "TransitionDescription" [
    ("action", t.action.inspect),
    ("target", t.target.inspect),
    ("target_name", .text t.targetName),
    ("condition", .optional (t.condition.map Tree.text))]

/-- A missing condition is left out. -/
def toJson (t : TransitionView) : Json :=
  .object ([
    ("action", .text t.action.label),
    ("target", .integer t.target),
    ("target_name", .text t.targetName)]
    ++ match t.condition with
      | none => []
      | some c => [("condition", .text c)])

end TransitionView

namespace StateView

def inspect (s : StateView) : Tree :=
  .record "StateDescription" [
    ("id", s.id.inspect),
    ("name", .text s.name),
    ("kind", s.role.inspect),
    ("transitions", .list (s.transitions.map TransitionView.inspect))]

def toJson (s : StateView) : Json :=
  .object [
    ("id", .integer s.id),
    ("name", .text s.name),
    ("kind", .text s.role.label),
    ("transitions", .array (s.transitions.map TransitionView.toJson))]

end StateView

namespace Snapshot

def inspect (s : Snapshot) : Tree :=
  .record "NfaDescription" [
    ("start", s.start.inspect),
    ("states", .list (s.states.map StateView.inspect))]

def toJson (s : Snapshot) : Json :=
  .object [
    ("start", .integer s.start),
    ("states", .array (s.states.map StateView.toJson))]

/-- The exported text, over several lines. -/
def exported (s : Snapshot) : String := s.toJson.indented

end Snapshot

namespace Automaton

variable {ε : Type u}

/-- A transition of the automaton as plain data. -/
def viewTransition (a : Automaton ε) (t : Transition ε) : TransitionView where
  action := t.action
  target := t.target
  targetName := ((a.target? t).map State.name).getD ""
  condition := t.condition.map Condition.describe

/-- A state of the automaton as plain data. -/
def viewState (a : Automaton ε) (s : State ε) : StateView where
  id := s.id
  name := s.name
  role := s.role
  transitions := s.transitions.map a.viewTransition

/-- The automaton as plain data; its start is given by the id under which the start state is
filed. -/
def snapshot? (a : Automaton ε) : Option Snapshot :=
  a.startState?.map fun s => ⟨s.id, a.states.map a.viewState⟩

end Automaton

end ChainAutomata
