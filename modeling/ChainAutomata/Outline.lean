/-
Outlines: the form of an automaton without its numbering.

An outline lists the states by role, name and transitions, a transition being an action and the
name of its target.  The transitions of each state and then the states are sorted, so that the
outline does not depend on how states were numbered or in which order edges were added.

* `Automaton.outline` — the outline of an automaton;
* `Outline.contains` — whether some state has a given name and exactly the given transitions, in
  any order.

Design notes: entries are ordered by comparing their parts one after the other, states by role,
then name, then transitions; names are compared by code points.
-/
import ChainAutomata.Automaton

universe u

namespace ChainAutomata

open Inspection (Tree)

namespace Role

/-- Start states come first, final ones last. -/
def rank : Role → Nat
  | start => 0
  | normal => 1
  | final => 2

end Role

namespace Action

/-- The order of the actions in an outline. -/
def rank : Action → Nat
  | take => 0
  | ignore => 1
  | proceed => 2

end Action

/-- A transition without its number: an action and the name of the target. -/
abbrev Edge := Action × String

namespace Edge

/-- The order of edges: by action, then by target name. -/
def compare (x y : Edge) : Ordering :=
  (Ord.compare x.1.rank y.1.rank).then (Ord.compare x.2 y.2)

def le (x y : Edge) : Bool := (compare x y).isLE

/-- The order of lists of edges: by the first place in which they differ, a list that ends first
being smaller. -/
def compareLists : List Edge → List Edge → Ordering
  | [], [] => .eq
  | [], _ :: _ => .lt
  | _ :: _, [] => .gt
  | x :: xs, y :: ys => (compare x y).then (compareLists xs ys)

/-- The edges in order. -/
def sort (xs : List Edge) : List Edge := xs.mergeSort le

def inspect (x : Edge) : Tree := .tuple "" [x.1.inspect, .text x.2]

end Edge

/-- A state without its number. -/
structure StateOutline where
  role : Role
  name : String
  /-- The edges of the state, in order. -/
  edges : List Edge
  deriving DecidableEq, Repr

namespace StateOutline

/-- The order of states: by role, then name, then edges. -/
def compare (x y : StateOutline) : Ordering :=
  (Ord.compare x.role.rank y.role.rank).then
    ((Ord.compare x.name y.name).then (Edge.compareLists x.edges y.edges))

def le (x y : StateOutline) : Bool := (compare x y).isLE

def inspect (x : StateOutline) : Tree :=
  .tuple "" [x.role.inspect, .text x.name, .list (x.edges.map Edge.inspect)]

end StateOutline

/-- An automaton without its numbering. -/
structure Outline where
  states : List StateOutline
  deriving DecidableEq, Repr

namespace Outline

def size (o : Outline) : Nat := o.states.length

/-- Whether some state has this name and these edges, in any order. -/
def contains (o : Outline) (name : String) (edges : List Edge) : Bool :=
  o.states.any fun s => s.name == name && s.edges == Edge.sort edges

def inspect (o : Outline) : Tree :=
  .record "NfaShape" [("states", .list (o.states.map StateOutline.inspect))]

end Outline

namespace Automaton

variable {ε : Type u}

/-- A state of the automaton without its number. -/
def outlineState (a : Automaton ε) (s : State ε) : StateOutline where
  role := s.role
  name := s.name
  edges := Edge.sort ((a.unfold s).map fun p => (p.2, p.1))

/-- The automaton without its numbering. -/
def outline (a : Automaton ε) : Outline :=
  ⟨(a.states.map a.outlineState).mergeSort StateOutline.le⟩

end Automaton

end ChainAutomata
