/-
The views of an automaton agree.

Three views show transitions by the names of their targets.  Unfolding a state leaves out those that lead
nowhere, the snapshot keeps them under an empty name, and the outline leaves them out again and sorts
the rest.  The snapshot also gives the number of each target, so the other two views can be read off it:

* `Snapshot.arrivals` — the transitions of a snapshot that lead to one of its states;
* `Automaton.unfold_eq_map_filter` — they are what unfolding shows, in the same order;
* `Snapshot.outline`, `Automaton.outline_of_snapshot?` — the outline that is read off a snapshot;
* `views_agree` — what the views of an automaton have to do with each other.

Design notes: nothing is asked of the automaton but that its start exists, without which there is no
snapshot.  Targets may be missing and names empty or repeated.
-/
import ChainAutomata.Proofs.OutlineOrder
import ChainAutomata.Proofs.WellFormed
import ChainAutomata.Snapshot

universe u v

namespace ChainAutomata

variable {ε : Type u} {δ : Type v}

/-! ### Reading an outline off a snapshot -/

namespace Snapshot

/-- The transitions of a state that lead to a state of the snapshot. -/
def arrivals (snap : Snapshot) (v : StateView) : List TransitionView :=
  v.transitions.filter fun t => t.target < snap.states.length

/-- A state of the snapshot without its number. -/
def outlineState (snap : Snapshot) (v : StateView) : StateOutline where
  role := v.role
  name := v.name
  edges := Edge.sort ((snap.arrivals v).map fun t => (t.action, t.targetName))

/-- The outline that can be read off a snapshot. -/
def outline (snap : Snapshot) : Outline :=
  ⟨(snap.states.map snap.outlineState).mergeSort StateOutline.le⟩

end Snapshot

namespace Automaton

variable {a : Automaton ε} {snap : Snapshot}

/-! ### One state -/

theorem target?_eq_none_iff {t : Transition ε} : a.target? t = none ↔ a.size ≤ t.target :=
  List.getElem?_eq_none_iff

/-- Unfolding a state shows the transitions of its view whose targets exist, in order. -/
theorem unfold_eq_map_filter (a : Automaton ε) (s : State ε) :
    a.unfold s = ((a.viewState s).transitions.filter fun t => t.target < a.size).map
      fun t => (t.targetName, t.action) := by
  -- One side asks for the target itself and the other compares its number with the size.
  show s.transitions.filterMap _ = ((s.transitions.map a.viewTransition).filter _).map _
  induction s.transitions with
  | nil => rfl
  | cons t ts ih =>
    rw [List.map_cons]
    cases htarget : a.target? t with
    | none =>
      have hle : a.size ≤ (a.viewTransition t).target := target?_eq_none_iff.mp htarget
      rw [List.filterMap_cons_none (by rw [htarget]; rfl), ih,
        List.filter_cons_of_neg (by simpa using hle)]
    | some r =>
      have hlt : (a.viewTransition t).target < a.size := lt_size_of_state? htarget
      have hname : (a.viewTransition t).targetName = r.name := by rw [viewTransition, htarget]; rfl
      rw [List.filterMap_cons_some (by rw [htarget]; rfl), ih,
        List.filter_cons_of_pos (by simpa using hlt), List.map_cons, hname]
      rfl

/-- A view leaves the name of a target empty if there is no target or its name is empty. -/
theorem targetName_eq_empty_iff (a : Automaton ε) (t : Transition ε) :
    (a.viewTransition t).targetName = "" ↔
      a.state? t.target = none ∨ ∃ r, a.state? t.target = some r ∧ r.name = "" := by
  rw [viewTransition, target?]
  cases a.state? t.target <;> simp

theorem edges_outlineState (a : Automaton ε) (s : State ε) :
    (a.outlineState s).edges = Edge.sort ((a.unfold s).map Prod.swap) := rfl

theorem pairwise_edges_outlineState (a : Automaton ε) (s : State ε) :
    (a.outlineState s).edges.Pairwise fun x y => Edge.le x y = true :=
  pairwise_mergeSort_isLE Edge.compare _

/-! ### All states -/

theorem snapshot?_of_start_lt (hstart : a.start < a.size) :
    ∃ id, a.snapshot? = some ⟨id, a.states.map a.viewState⟩ := by
  obtain ⟨s, hs⟩ := exists_state?_of_lt hstart
  exact ⟨s.id, by rw [snapshot?, startState?, hs, Option.map_some]⟩

theorem states_of_snapshot? (h : a.snapshot? = some snap) : snap.states = a.states.map a.viewState := by
  obtain ⟨s, -, rfl⟩ := Option.map_eq_some_iff.mp h
  rfl

theorem length_states_of_snapshot? (h : a.snapshot? = some snap) : snap.states.length = a.size := by
  rw [states_of_snapshot? h, List.length_map, size]

theorem unfold_of_snapshot? (h : a.snapshot? = some snap) (s : State ε) :
    a.unfold s = (snap.arrivals (a.viewState s)).map fun t => (t.targetName, t.action) := by
  rw [unfold_eq_map_filter, Snapshot.arrivals, length_states_of_snapshot? h]

/-- A snapshot determines the outline. -/
theorem outline_of_snapshot? (h : a.snapshot? = some snap) : a.outline = snap.outline := by
  have hstate : ∀ s, a.outlineState s = snap.outlineState (a.viewState s) := by
    intro s
    rw [outlineState, Snapshot.outlineState, unfold_of_snapshot? h, List.map_map]
    rfl
  rw [outline, Snapshot.outline, states_of_snapshot? h, List.map_map]
  exact congrArg (fun states => Outline.mk (states.mergeSort StateOutline.le))
    (List.map_congr_left fun s _ => hstate s)

/-- The outline lists the states of the automaton. -/
theorem states_outline_perm (a : Automaton ε) :
    a.outline.states.Perm (a.states.map a.outlineState) :=
  List.mergeSort_perm _ _

/-- If every target exists, all transitions arrive. -/
theorem Closed.arrivals_eq (hclosed : a.Closed) (h : a.snapshot? = some snap) {s : State ε}
    (hs : s ∈ a.states) : snap.arrivals (a.viewState s) = (a.viewState s).transitions := by
  rw [Snapshot.arrivals, List.filter_eq_self, length_states_of_snapshot? h]
  intro shown hshown
  obtain ⟨t, ht, rfl⟩ := List.mem_map.mp hshown
  obtain ⟨i, hi⟩ := mem_states_iff.mp hs
  exact decide_eq_true (hclosed i s hi t ht)

end Automaton

open Automaton

/-- **The views of an automaton agree.**  The snapshot lists the transitions of every state in order, and a
target is without a name just where it does not exist or has the empty name.  Unfolding a state gives
those of them whose target exists, and the outline gives these sorted, with one entry for each state.
So automata with equal snapshots have equal outlines, and if the audit accepts the automaton, no
transition is missing in any view. -/
theorem views_agree {a : Automaton ε} (hstart : a.start < a.size) :
    ∃ snap, a.snapshot? = some snap ∧ snap.states.length = a.size ∧
      (∀ i s, a.state? i = some s → ∃ v, snap.states[i]? = some v ∧
        v.name = s.name ∧ v.role = s.role ∧
        v.transitions.map (fun t => (t.action, t.target)) =
          s.transitions.map (fun t => (t.action, t.target)) ∧
        (∀ t ∈ v.transitions, t.targetName = "" ↔
          a.state? t.target = none ∨ ∃ r, a.state? t.target = some r ∧ r.name = "") ∧
        a.unfold s = (snap.arrivals v).map (fun t => (t.targetName, t.action)) ∧
        (a.audit = .ok () → snap.arrivals v = v.transitions ∧
          (a.unfold s).length = s.transitions.length ∧
          (a.outlineState s).edges.length = s.transitions.length)) ∧
      a.outline.states.Perm (a.states.map fun s =>
        { role := s.role, name := s.name, edges := Edge.sort ((a.unfold s).map Prod.swap) }) ∧
      (∀ o ∈ a.outline.states, o.edges.Pairwise fun x y => Edge.le x y = true) ∧
      ∀ b : Automaton δ, b.snapshot? = some snap → b.outline = a.outline := by
  obtain ⟨id, hsnap⟩ := snapshot?_of_start_lt hstart
  -- Every state by itself, then the order of its edges, then a second automaton with this snapshot.
  refine ⟨_, hsnap, length_states_of_snapshot? hsnap, fun i s hs => ?_, a.states_outline_perm, ?_, ?_⟩
  · refine ⟨a.viewState s, ?_, rfl, rfl, ?_, ?_, unfold_of_snapshot? hsnap s, fun haudit => ?_⟩
    · rw [List.getElem?_map]
      exact congrArg (Option.map a.viewState) hs
    · rw [viewState, List.map_map]
      rfl
    · intro shown hshown
      obtain ⟨t, -, rfl⟩ := List.mem_map.mp hshown
      exact a.targetName_eq_empty_iff t
    · have harrivals := (wellFormed_of_audit haudit).closed.arrivals_eq hsnap
        (mem_states_iff.mpr ⟨i, hs⟩)
      have hlength : (a.unfold s).length = s.transitions.length := by
        rw [unfold_of_snapshot? hsnap, harrivals, List.length_map, viewState, List.length_map]
      refine ⟨harrivals, hlength, ?_⟩
      rw [edges_outlineState, (Edge.sort_perm _).length_eq, List.length_map, hlength]
  · intro o ho
    obtain ⟨s, -, rfl⟩ := List.mem_map.mp ((a.states_outline_perm.mem_iff).mp ho)
    exact a.pairwise_edges_outlineState s
  · intro b hb
    rw [outline_of_snapshot? hb, outline_of_snapshot? hsnap]

/-- An automaton with two transitions that lead nowhere, a state without a name and a name for two. -/
def frayed {ε : Type u} (probe : Probe ε) : Automaton ε where
  states := [⟨0, "", .final, []⟩,
    ⟨1, "go", .start, [⟨.take, 0, some (.function probe)⟩, ⟨.ignore, 7, none⟩, ⟨.proceed, 2, none⟩]⟩,
    ⟨2, "go", .normal, [⟨.take, 9, none⟩]⟩]
  start := 1
  final := 0

/-- Where a name is empty, the target is the state without a name or none at all; events of other
types are tested by other functions, which neither view shows. -/
theorem exists_snapshot_frayed :
    (frayed fun e : Nat => (e == 5, [])).start < (frayed fun e : Nat => (e == 5, [])).size ∧
    ∃ snap v, (frayed fun e : Nat => (e == 5, [])).snapshot? = some snap ∧
      snap.states[1]? = some v ∧ v.transitions.map TransitionView.targetName = ["", "", "go"] ∧
      (snap.arrivals v).map (fun t => (t.targetName, t.action)) = [("", .take), ("go", .proceed)] ∧
      (frayed fun e : Bool => (e, [])).outline = (frayed fun e : Nat => (e == 5, [])).outline := by
  have hstart : (frayed fun e : Nat => (e == 5, [])).start <
      (frayed fun e : Nat => (e == 5, [])).size := by decide
  obtain ⟨snap, hsnap, -, hstates, -, -, hsame⟩ := @views_agree Nat Bool _ hstart
  obtain ⟨v, hv, -, -, -, -, hunfold, -⟩ := hstates 1 _ rfl
  refine ⟨hstart, snap, v, hsnap, hv, ?_, hunfold.symm, hsame _ ?_⟩
  · obtain rfl := Option.some_inj.mp hsnap
    obtain rfl := Option.some_inj.mp hv
    rfl
  · rw [← hsnap]
    rfl

end ChainAutomata
