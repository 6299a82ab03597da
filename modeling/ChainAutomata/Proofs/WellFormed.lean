/-
The audit accepts exactly the well-formed automata.

`Automaton.WellFormed` says what a good automaton is, without any search and without an order in
which faults are looked for.  The audit is a sequence of scans and searches.  The two agree:

* `Automaton.audit_eq_ok_iff_wellFormed` — no fault is reported exactly when the automaton is well
  formed, and then every state on a path from the start, the final one apart, goes on.

Design notes: each part of the audit has one lemma that says when it is passed.  The roles are
audited by the ids that states are filed under, so what they say about positions
(`Filed.idsOf_eq_singleton_iff`) rests on a later part of the audit.
-/
import ChainAutomata.Automaton.Audit
import ChainAutomata.Proofs.Search
import Mathlib.Data.List.Nodup

universe u

namespace ChainAutomata

namespace Automaton

variable {ε : Type u} {a : Automaton ε}

/-- The state at a position has a role. -/
def HasRole (a : Automaton ε) (i : StateId) (role : Role) : Prop :=
  ∃ s, a.state? i = some s ∧ s.role = role

/-- What every good automaton satisfies. -/
structure WellFormed (a : Automaton ε) : Prop where
  /-- Every state is filed under its position. -/
  filed : a.Filed
  /-- There is one start state, and it is the designated one. -/
  start_iff : ∀ i, a.HasRole i .start ↔ i = a.start
  /-- There is one final state, and it is the designated one. -/
  final_iff : ∀ i, a.HasRole i .final ↔ i = a.final
  /-- Nothing leaves the final state. -/
  final_stops : ∀ s, a.state? a.final = some s → s.transitions = []
  /-- Every transition leads to a state. -/
  closed : a.Closed
  /-- Exactly the transitions that look at an event carry a condition. -/
  conditioned : ∀ i s, a.state? i = some s → ∀ t ∈ s.transitions,
    t.condition.isSome ↔ t.action ≠ .proceed
  /-- The final state can be reached from every state. -/
  finishes : ∀ i < a.size, a.Path i a.final

/-! ### The parts of the audit -/

theorem andThen_eq_ok_iff {x y : Except Fault Unit} :
    (x >>= fun _ => y) = .ok () ↔ x = .ok () ∧ y = .ok () := by
  cases x with
  | error fault => simp [bind, Except.bind]
  | ok u => simp [bind, Except.bind]

/-- The audit is passed when each of its parts is, the two searches giving an answer. -/
theorem audit_eq_ok_iff_parts :
    a.audit = .ok () ↔ a.auditStart = .ok () ∧ a.auditFinal = .ok () ∧
      a.auditStates 0 a.states = .ok () ∧
      (∃ reached, a.reachable? = some reached ∧ a.auditDeadEnds reached a.states = .ok ()) ∧
      ∃ finishing, a.finishing? = some finishing ∧ a.auditFinish finishing a.states = .ok () := by
  rw [audit]
  rw [andThen_eq_ok_iff, andThen_eq_ok_iff, andThen_eq_ok_iff]
  cases a.reachable? with
  | none => simp [bind, Except.bind]
  | some reached =>
    simp only [Option.some_inj, exists_eq_left']
    rw [andThen_eq_ok_iff]
    cases a.finishing? <;> simp

theorem auditStart_eq_ok_iff : a.auditStart = .ok () ↔ a.idsOf .start = [a.start] := by
  rw [auditStart]
  split <;> simp_all

theorem auditFinal_eq_ok_iff :
    a.auditFinal = .ok () ↔ a.idsOf .final = [a.final] ∧
      ∃ s, a.state? a.final = some s ∧ s.transitions = [] := by
  rw [auditFinal]
  by_cases hids : a.idsOf .final = [a.final]
  · rw [if_pos hids, finalState?]
    cases hs : a.state? a.final with
    | none => simp
    | some s =>
      cases hts : s.transitions with
      | nil => simp [hids, hts]
      | cons t ts => simp [hts]
  · simp [hids]

theorem auditTransitions_eq_ok_iff {name : String} {ts : List (Transition ε)} :
    a.auditTransitions name ts = .ok () ↔
      ∀ t ∈ ts, t.target < a.size ∧ t.action.needsCondition = t.condition.isSome := by
  induction ts with
  | nil => simp [auditTransitions]
  | cons t ts ih =>
    rw [auditTransitions, List.forall_mem_cons, ← ih, ← holds_eq_true_iff]
    by_cases htarget : a.holds t.target = true
    · rw [if_pos htarget]
      by_cases hcond : t.action.needsCondition = t.condition.isSome
      · rw [if_pos hcond]
        simp [htarget, hcond]
      · rw [if_neg hcond]
        simp [hcond]
    · rw [if_neg htarget]
      simp [htarget]

theorem auditStates_eq_ok_iff {position : Nat} {states : List (State ε)} :
    a.auditStates position states = .ok () ↔
      ∀ k s, states[k]? = some s → s.id = position + k ∧
        a.auditTransitions s.name s.transitions = .ok () := by
  induction states generalizing position with
  | nil => simp [auditStates]
  | cons s rest ih =>
    have hsplit : (∀ k s', (s :: rest)[k]? = some s' → s'.id = position + k ∧
          a.auditTransitions s'.name s'.transitions = .ok ()) ↔
        (s.id = position ∧ a.auditTransitions s.name s.transitions = .ok ()) ∧
          ∀ k s', rest[k]? = some s' → s'.id = position + 1 + k ∧
            a.auditTransitions s'.name s'.transitions = .ok () := by
      constructor
      · intro h
        refine ⟨h 0 s rfl, fun k s' hk => ?_⟩
        -- positions behind the head are counted from one further on
        have := h (k + 1) s' hk
        rwa [show position + 1 + k = position + (k + 1) by omega]
      · rintro ⟨hhead, hrest⟩ k s' hk
        rcases k with _ | k
        · rw [List.getElem?_cons_zero, Option.some_inj] at hk
          exact hk ▸ hhead
        · have := hrest k s' hk
          rwa [show position + 1 + k = position + (k + 1) by omega] at this
    rw [hsplit, ← ih, auditStates]
    by_cases hid : s.id = position
    · rw [if_pos hid]
      cases a.auditTransitions s.name s.transitions with
      | error fault => simp
      | ok u => simp [hid]
    · rw [if_neg hid]
      simp [hid]

theorem auditDeadEnds_eq_ok_iff {reached : List StateId} {states : List (State ε)} :
    a.auditDeadEnds reached states = .ok () ↔
      ∀ s ∈ states, s.id < a.size ∧
        ¬ (s.id ∈ reached ∧ s.role ≠ .final ∧ s.transitions = []) := by
  induction states with
  | nil => simp [auditDeadEnds]
  | cons s rest ih =>
    have hiff : (s.id ∈ reached ∧ ¬ s.isFinal ∧ s.transitions.isEmpty) ↔
        (s.id ∈ reached ∧ s.role ≠ .final ∧ s.transitions = []) := by simp [State.isFinal]
    rw [auditDeadEnds, List.forall_mem_cons, ← ih, ← holds_eq_true_iff, ← hiff]
    by_cases hid : a.holds s.id = true
    · rw [if_pos hid]
      by_cases hdead : s.id ∈ reached ∧ ¬ s.isFinal ∧ s.transitions.isEmpty
      · rw [if_pos hdead]
        simp [hdead]
      · rw [if_neg hdead]
        exact ⟨fun h => ⟨⟨hid, hdead⟩, h⟩, fun h => h.2⟩
    · rw [if_neg hid]
      simp [hid]

theorem auditFinish_eq_ok_iff {finishing : List StateId} {states : List (State ε)} :
    a.auditFinish finishing states = .ok () ↔
      ∀ s ∈ states, s.id < a.size ∧ s.id ∈ finishing := by
  induction states with
  | nil => simp [auditFinish]
  | cons s rest ih =>
    rw [auditFinish, List.forall_mem_cons, ← ih, ← holds_eq_true_iff]
    by_cases hid : a.holds s.id = true
    · by_cases hfin : s.id ∈ finishing <;> simp [hid, hfin]
    · simp [hid]

/-! ### Roles by position -/

theorem Filed.mem_idsOf_iff (hfiled : a.Filed) {role : Role} {i : StateId} :
    i ∈ a.idsOf role ↔ a.HasRole i role := by
  simp only [idsOf, List.mem_map, List.mem_filter, beq_iff_eq, HasRole]
  constructor
  · rintro ⟨s, ⟨hs, hrole⟩, rfl⟩
    obtain ⟨k, hk⟩ := mem_states_iff.mp hs
    rw [hfiled k s hk]
    exact ⟨s, hk, hrole⟩
  · rintro ⟨s, hs, hrole⟩
    exact ⟨s, ⟨mem_states_iff.mpr ⟨i, hs⟩, hrole⟩, hfiled i s hs⟩

theorem Filed.map_id_eq_range (hfiled : a.Filed) :
    a.states.map State.id = List.range a.size := by
  refine List.ext_getElem? fun i => ?_
  rw [List.getElem?_map]
  cases hs : a.states[i]? with
  | none =>
    have hlen := List.getElem?_eq_none_iff.mp hs
    symm
    simpa [size] using hlen
  | some s =>
    have hi : i < a.size := lt_size_of_state? hs
    rw [List.getElem?_range hi, Option.map_some, hfiled i s hs]

/-- No id occurs twice among the states of a role. -/
theorem Filed.nodup_idsOf (hfiled : a.Filed) (role : Role) : (a.idsOf role).Nodup := by
  have hall : (a.states.map State.id).Nodup := by
    rw [hfiled.map_id_eq_range]
    exact List.nodup_range
  exact hall.sublist (List.filter_sublist.map State.id)

theorem Filed.idsOf_eq_singleton_iff (hfiled : a.Filed) {role : Role} {x : StateId} :
    a.idsOf role = [x] ↔ ∀ i, a.HasRole i role ↔ i = x := by
  constructor
  · intro h i
    rw [← hfiled.mem_idsOf_iff, h, List.mem_singleton]
  · intro h
    refine List.perm_singleton.mp ?_
    rw [List.perm_ext_iff_of_nodup (hfiled.nodup_idsOf role) (List.nodup_singleton x)]
    intro i
    rw [hfiled.mem_idsOf_iff, h, List.mem_singleton]

/-! ### The audit as a whole -/

theorem needsCondition_eq_isSome_iff {t : Transition ε} :
    t.action.needsCondition = t.condition.isSome ↔
      (t.condition.isSome ↔ t.action ≠ .proceed) := by
  cases t.action <;> cases t.condition <;> simp [Action.needsCondition]

theorem wellFormed_of_audit (h : a.audit = .ok ()) : a.WellFormed := by
  obtain ⟨hstart, hfinal, hstates, -, ⟨finishing, hfin, hfinish⟩⟩ := audit_eq_ok_iff_parts.mp h
  obtain ⟨hfinal, s, hs, hstops⟩ := auditFinal_eq_ok_iff.mp hfinal
  have hall : ∀ i s, a.state? i = some s → s.id = i ∧
      a.auditTransitions s.name s.transitions = .ok () := by
    intro i s hi
    simpa using auditStates_eq_ok_iff.mp hstates i s hi
  have hfiled : a.Filed := fun i s hi => (hall i s hi).1
  have htrans := fun i s hi => auditTransitions_eq_ok_iff.mp (hall i s hi).2
  constructor
  case filed => exact hfiled
  -- the roles are audited by id; that an id is a position is known from the part on states only
  case start_iff => exact hfiled.idsOf_eq_singleton_iff.mp (auditStart_eq_ok_iff.mp hstart)
  case final_iff => exact hfiled.idsOf_eq_singleton_iff.mp hfinal
  case final_stops =>
    intro s' hs'
    rw [hs, Option.some_inj] at hs'
    exact hs' ▸ hstops
  case closed => exact fun i s hi t ht => (htrans i s hi t ht).1
  case conditioned =>
    exact fun i s hi t ht => needsCondition_eq_isSome_iff.mp (htrans i s hi t ht).2
  case finishes =>
    intro i hi
    obtain ⟨s', hs'⟩ := exists_state?_of_lt hi
    have := (auditFinish_eq_ok_iff.mp hfinish s' (mem_states_iff.mpr ⟨i, hs'⟩)).2
    rw [hfiled i s' hs'] at this
    exact (mem_finishing_iff hfiled hfin).mp this

/-- A state that is not final is left by a transition, since it has a path to the final state. -/
theorem WellFormed.continues (h : a.WellFormed) {i : StateId} {s : State ε}
    (hs : a.state? i = some s) (hrole : s.role ≠ .final) : s.transitions ≠ [] := by
  intro hnone
  -- the path is over at the final state, or its first step is a transition of this state
  rcases Relation.ReflTransGen.cases_head (h.finishes i (lt_size_of_state? hs)) with rfl | hstep
  · obtain ⟨s', hs', hrole'⟩ := (h.final_iff a.final).mpr rfl
    rw [hs, Option.some_inj] at hs'
    exact hrole (hs' ▸ hrole')
  · obtain ⟨j, ⟨s', hs', t, ht, -⟩, -⟩ := hstep
    rw [hs, Option.some_inj] at hs'
    rw [← hs', hnone] at ht
    simp at ht

theorem WellFormed.audit_eq_ok (h : a.WellFormed) : a.audit = .ok () := by
  obtain ⟨start, hstart, -⟩ := (h.start_iff a.start).mpr rfl
  obtain ⟨final, hfinal, -⟩ := (h.final_iff a.final).mpr rfl
  have hid : ∀ s ∈ a.states, ∃ i, a.state? i = some s ∧ s.id = i ∧ i < a.size := by
    intro s hs
    obtain ⟨i, hi⟩ := mem_states_iff.mp hs
    exact ⟨i, hi, h.filed i s hi, lt_size_of_state? hi⟩
  obtain ⟨reached, hreached⟩ := exists_reachable h.closed (lt_size_of_state? hstart)
  obtain ⟨finishing, hfinishing⟩ :=
    exists_finishing h.filed h.closed (lt_size_of_state? hfinal)
  refine audit_eq_ok_iff_parts.mpr ⟨?_, ?_, ?_, ⟨reached, hreached, ?_⟩, finishing, hfinishing, ?_⟩
  · exact auditStart_eq_ok_iff.mpr (h.filed.idsOf_eq_singleton_iff.mpr h.start_iff)
  · exact auditFinal_eq_ok_iff.mpr
      ⟨h.filed.idsOf_eq_singleton_iff.mpr h.final_iff, final, hfinal, h.final_stops final hfinal⟩
  · refine auditStates_eq_ok_iff.mpr ?_
    intro k s hk
    have hfiled : s.id = 0 + k := by rw [h.filed k s hk, Nat.zero_add]
    refine ⟨hfiled, auditTransitions_eq_ok_iff.mpr fun t ht => ?_⟩
    exact ⟨h.closed k s hk t ht, needsCondition_eq_isSome_iff.mpr (h.conditioned k s hk t ht)⟩
  · -- no state is a dead end, so it does not matter which ones are reached
    refine auditDeadEnds_eq_ok_iff.mpr ?_
    intro s hs
    obtain ⟨i, hi, hsid, hlt⟩ := hid s hs
    exact ⟨hsid ▸ hlt, fun hdead => h.continues hi hdead.2.1 hdead.2.2⟩
  · refine auditFinish_eq_ok_iff.mpr ?_
    intro s hs
    obtain ⟨i, hi, hsid, hlt⟩ := hid s hs
    rw [hsid]
    exact ⟨hlt, (mem_finishing_iff h.filed hfinishing).mpr (h.finishes i hlt)⟩

/-- **The audit reports no fault exactly when the automaton is well formed.**  A well-formed
automaton has no dead ends: whatever state is reached from the start, it is final or goes on. -/
theorem audit_eq_ok_iff_wellFormed (a : Automaton ε) :
    (a.audit = .ok () ↔ a.WellFormed) ∧
      (a.WellFormed → ∀ i s, a.Path a.start i → a.state? i = some s → s.role ≠ .final →
        s.transitions ≠ []) :=
  ⟨⟨wellFormed_of_audit, WellFormed.audit_eq_ok⟩, fun h _ _ _ hs hrole => h.continues hs hrole⟩

end Automaton

end ChainAutomata
