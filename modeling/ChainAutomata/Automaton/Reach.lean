/-
Reachability in an automaton, by breadth-first search.

* `claim` — picks the entries of a list that are still unmarked, each once, and unmarks nothing
  else;
* `explore` — the search: it visits the ids of a queue one after the other and appends the
  unmarked successors of each to the queue;
* `Automaton.reachable?` — the ids that can be reached from the start, in the order of the search;
* `Automaton.finishing?` — the ids from which the final state can be reached, by the same search
  over reversed edges.

Design notes: both searches give no answer when they meet an id outside the arena, so that an
answer says that every lookup succeeded.  A search ends because each step takes one id off the
queue, and only ids that leave the unmarked list are put on it.
-/
import ChainAutomata.Automaton

universe u

namespace ChainAutomata

/-- The entries of `targets` that are unmarked, each once and in order, and the ids that stay
unmarked. -/
def claim (unmarked : List Nat) : List Nat → List Nat × List Nat
  | [] => ([], unmarked)
  | t :: ts =>
    if t ∈ unmarked then
      let rest := claim (unmarked.erase t) ts
      (t :: rest.1, rest.2)
    else claim unmarked ts

/-- An id is claimed or stays unmarked, never both and never neither. -/
theorem perm_claim (unmarked targets : List Nat) :
    ((claim unmarked targets).1 ++ (claim unmarked targets).2).Perm unmarked := by
  induction targets generalizing unmarked with
  | nil => simp [claim]
  | cons t ts ih =>
    by_cases ht : t ∈ unmarked
    · simp only [claim, if_pos ht, List.cons_append]
      exact ((ih (unmarked.erase t)).cons t).trans (List.perm_cons_erase ht).symm
    · simpa only [claim, if_neg ht] using ih unmarked

/-- The ids visited by a breadth-first search, in order, starting from a queue of marked ids. -/
def explore (successors? : Nat → Option (List Nat)) :
    (unmarked queue : List Nat) → Option (List Nat)
  | _, [] => some []
  | unmarked, id :: queue =>
    match successors? id with
    | none => none
    | some targets =>
      let found := claim unmarked targets
      (explore successors? found.2 (queue ++ found.1)).map (id :: ·)
termination_by unmarked queue => unmarked.length + queue.length
decreasing_by
  have hlength := (perm_claim unmarked targets).length_eq
  rw [List.length_append] at hlength
  simp only [List.length_append, List.length_cons]
  omega

namespace Automaton

variable {ε : Type u}

/-- Whether an id is the position of a state. -/
def holds (a : Automaton ε) (id : StateId) : Bool := id < a.size

/-- The targets of the transitions of a state, if all of them exist. -/
def successors? (a : Automaton ε) (id : StateId) : Option (List StateId) :=
  match a.state? id with
  | none => none
  | some s =>
    let targets := s.transitions.map Transition.target
    if targets.all a.holds then some targets else none

/-- The ids reachable from the start, in the order in which a breadth-first search meets them. -/
def reachable? (a : Automaton ε) : Option (List StateId) :=
  if a.holds a.start then explore a.successors? ((List.range a.size).erase a.start) [a.start]
  else none

/-- The ids of the states with a transition to `target`, once per transition, in arena order. -/
def sources (a : Automaton ε) (target : StateId) : List StateId :=
  a.states.flatMap fun s => s.transitions.filterMap fun t =>
    if t.target = target then some s.id else none

/-- The ids of the states with a transition to `target`, if all of them are positions. -/
def predecessors? (a : Automaton ε) (target : StateId) : Option (List StateId) :=
  if (a.sources target).all a.holds then some (a.sources target) else none

/-- The ids from which the final state is reachable, in the order of a breadth-first search from
the final state against the direction of the edges. -/
def finishing? (a : Automaton ε) : Option (List StateId) :=
  if a.holds a.final
      && a.states.all (fun s => s.transitions.all fun t => a.holds t.target) then
    explore a.predecessors? ((List.range a.size).erase a.final) [a.final]
  else none

end Automaton

end ChainAutomata
