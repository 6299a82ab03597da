/-
Looking up a state in an outline.

An outline is asked whether some state has a given name and given edges.  The edges of its states
and those of the question are sorted before they are compared, so the answer does not depend on the
order of either, but it does depend on how often each edge occurs.

* `Automaton.departures` — the transitions of a state that lead to a state, as edges;
* `Automaton.count_departures` — how often an edge occurs among them;
* `Automaton.contains_outline` — the lookup in terms of the states of the automaton;
* `contains_outline_iff` — which questions are answered with yes.
-/
import ChainAutomata.Proofs.Views

universe u

namespace ChainAutomata

variable {ε : Type u}

namespace Automaton

/-- The transitions of a state that lead to a state, by their actions and the names of the targets. -/
def departures (a : Automaton ε) (s : State ε) : List Edge :=
  s.transitions.filterMap fun t => (a.state? t.target).map fun target => (t.action, target.name)

/-- A transition leads to a state of this name by this action. -/
def Departs (a : Automaton ε) (edge : Edge) (t : Transition ε) : Prop :=
  t.action = edge.1 ∧ (a.state? t.target).map State.name = some edge.2

instance (a : Automaton ε) (edge : Edge) : DecidablePred (a.Departs edge) :=
  fun _ => inferInstanceAs (Decidable (_ ∧ _))

theorem map_swap_unfold (a : Automaton ε) (s : State ε) :
    (a.unfold s).map Prod.swap = a.departures s := by
  rw [unfold, departures, List.map_filterMap]
  refine List.filterMap_congr fun t _ => ?_
  rw [target?, Option.map_map]
  rfl

/-- An edge occurs as often as there are transitions of its kind. -/
theorem count_departures (a : Automaton ε) (s : State ε) (edge : Edge) :
    (a.departures s).count edge = s.transitions.countP (a.Departs edge) := by
  rw [departures, List.count_filterMap]
  refine List.countP_congr fun t _ => ?_
  obtain ⟨action, name⟩ := edge
  cases htarget : a.state? t.target with
  | none => simp [Departs, htarget]
  | some target => simp [Departs, htarget]

theorem contains_outline {a : Automaton ε} {name : String} {edges : List Edge} :
    a.outline.contains name edges = true ↔
      ∃ s ∈ a.states, s.name = name ∧ Edge.sort (a.departures s) = Edge.sort edges := by
  have hmem : ∀ o, o ∈ a.outline.states ↔ ∃ s ∈ a.states, a.outlineState s = o := by
    intro o
    rw [a.states_outline_perm.mem_iff, List.mem_map]
  simp only [Outline.contains, List.any_eq_true, hmem, Bool.and_eq_true, beq_iff_eq,
    ← map_swap_unfold, ← edges_outlineState]
  constructor
  · rintro ⟨_, ⟨s, hs, rfl⟩, hname, hedges⟩
    exact ⟨s, hs, hname, hedges⟩
  · rintro ⟨s, hs, hname, hedges⟩
    exact ⟨_, ⟨s, hs, rfl⟩, hname, hedges⟩

end Automaton

/-- **What an outline contains.**  Some state has the name and its transitions that lead to a state,
taken as edges, are a permutation of the given ones: each edge is given as often as there are
transitions by its action to a state of its name. -/
theorem contains_outline_iff (a : Automaton ε) (name : String) (edges : List Edge) :
    (a.outline.contains name edges = true ↔
      ∃ s ∈ a.states, s.name = name ∧ (a.departures s).Perm edges) ∧
    (a.outline.contains name edges = true ↔
      ∃ s ∈ a.states, s.name = name ∧
        ∀ edge, edges.count edge = s.transitions.countP (a.Departs edge)) := by
  have hperm : a.outline.contains name edges = true ↔
      ∃ s ∈ a.states, s.name = name ∧ (a.departures s).Perm edges := by
    simp only [Automaton.contains_outline, Edge.sort_eq_sort_iff]
  -- a permutation has every edge as often as the list that it permutes
  refine ⟨hperm, hperm.trans (exists_congr fun s => ?_)⟩
  refine and_congr_right fun _ => and_congr_right fun _ => ?_
  rw [List.perm_comm, List.perm_iff_count]
  exact forall_congr' fun edge => by rw [a.count_departures]

end ChainAutomata
