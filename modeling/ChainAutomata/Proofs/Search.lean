/-
Exactness of the breadth-first searches.

A path follows any number of transitions, whatever their conditions.  The two searches of an
automaton find the ends of its paths:

* `mem_explore_iff` — a search that starts with every other id unmarked visits the ids that can be
  reached from its queue, and no others;
* `explore_isSome` — a search that can look up every id it meets gives an answer;
* `Automaton.mem_reachable_iff` — the forward search finds the ends of the paths from the start;
* `Automaton.mem_finishing_iff` — the search over reversed edges finds the states that have a path
  to the final state.

Design notes: the search is proved for an arbitrary successor function, so that its two uses differ
in one lemma each, which says what a successor is.
-/
import ChainAutomata.Automaton.Reach
import Mathlib.Logic.Relation

universe u

namespace ChainAutomata

/-! ### Claimed ids -/

theorem mem_claim_fst {unmarked targets : List Nat} {t : Nat} :
    t ∈ (claim unmarked targets).1 ↔ t ∈ unmarked ∧ t ∈ targets := by
  induction targets generalizing unmarked with
  | nil => simp [claim]
  | cons x ts ih =>
    by_cases hx : x ∈ unmarked
    · simp only [claim, if_pos hx, List.mem_cons]
      rw [ih]
      by_cases htx : t = x
      · subst htx
        simp [hx]
      · simp [htx, List.mem_erase_of_ne htx]
    · simp only [claim, if_neg hx, List.mem_cons]
      rw [ih]
      constructor
      · rintro ⟨hu, ht⟩
        exact ⟨hu, Or.inr ht⟩
      · rintro ⟨hu, rfl | ht⟩
        · exact absurd hu hx
        · exact ⟨hu, ht⟩

theorem mem_of_mem_claim_snd {unmarked targets : List Nat} {t : Nat}
    (h : t ∈ (claim unmarked targets).2) : t ∈ unmarked :=
  (perm_claim unmarked targets).mem_iff.mp (List.mem_append_right _ h)

theorem mem_claim_of_mem {unmarked : List Nat} {t : Nat} (h : t ∈ unmarked)
    (targets : List Nat) :
    t ∈ (claim unmarked targets).1 ∨ t ∈ (claim unmarked targets).2 :=
  List.mem_append.mp ((perm_claim unmarked targets).mem_iff.mpr h)

/-! ### The search -/

section Explore

variable {successors? : Nat → Option (List Nat)}

/-- One step of a search, from an id to one of its successors. -/
def Follows (successors? : Nat → Option (List Nat)) (i j : Nat) : Prop :=
  ∃ targets, successors? i = some targets ∧ j ∈ targets

/-- Every visited id is reached from the queue. -/
theorem reached_of_mem_explore {unmarked queue visited : List Nat}
    (h : explore successors? unmarked queue = some visited) :
    ∀ v ∈ visited, ∃ q ∈ queue, Relation.ReflTransGen (Follows successors?) q v := by
  induction unmarked, queue using explore.induct successors? generalizing visited with
  | case1 unmarked =>
    intro v hv
    rw [explore, Option.some_inj] at h
    subst h
    simp at hv
  | case2 unmarked id queue hnone =>
    simp [explore, hnone] at h
  | case3 unmarked id queue targets hsome found =>
    rename_i ih
    intro v hv
    rw [explore, hsome] at h
    obtain ⟨rest, hrest, rfl⟩ := Option.map_eq_some_iff.mp h
    rcases List.mem_cons.mp hv with rfl | hv
    · exact ⟨v, List.mem_cons_self, .refl⟩
    · obtain ⟨q, hq, hpath⟩ := ih hrest v hv
      rcases List.mem_append.mp hq with hq | hq
      · exact ⟨q, List.mem_cons_of_mem _ hq, hpath⟩
      · -- a claimed id is a successor of the visited one
        refine ⟨id, List.mem_cons_self, ?_⟩
        exact .head ⟨targets, hsome, (mem_claim_fst.mp hq).2⟩ hpath

/-- The whole queue is visited, and of each visited id every successor that was unmarked. -/
theorem explore_closed {unmarked queue visited : List Nat}
    (h : explore successors? unmarked queue = some visited) :
    (∀ q ∈ queue, q ∈ visited) ∧
      ∀ i ∈ visited, ∀ j ∈ unmarked, Follows successors? i j → j ∈ visited := by
  induction unmarked, queue using explore.induct successors? generalizing visited with
  | case1 unmarked =>
    rw [explore, Option.some_inj] at h
    subst h
    simp
  | case2 unmarked id queue hnone =>
    simp [explore, hnone] at h
  | case3 unmarked id queue targets hsome found =>
    rename_i ih
    rw [explore, hsome] at h
    obtain ⟨rest, hrest, rfl⟩ := Option.map_eq_some_iff.mp h
    obtain ⟨hqueue, hstep⟩ := ih hrest
    have hclaimed : ∀ j ∈ found.1, j ∈ rest :=
      fun j hj => hqueue j (List.mem_append_right _ hj)
    constructor
    · intro q hq
      rcases List.mem_cons.mp hq with rfl | hq
      · exact List.mem_cons_self
      · exact List.mem_cons_of_mem _ (hqueue q (List.mem_append_left _ hq))
    · intro i hi j hj hij
      apply List.mem_cons_of_mem
      rcases List.mem_cons.mp hi with rfl | hi
      · obtain ⟨ts, hts, hjts⟩ := hij
        rw [hsome, Option.some_inj] at hts
        subst hts
        exact hclaimed j (mem_claim_fst.mpr ⟨hj, hjts⟩)
      · -- an unmarked id is claimed now, or still unmarked in the rest of the search
        rcases mem_claim_of_mem hj targets with hj | hj
        · exact hclaimed j hj
        · exact hstep i hi j hj hij

/-- A search that starts with every other id unmarked visits exactly what its queue leads to. -/
theorem mem_explore_iff {unmarked queue visited : List Nat}
    (h : explore successors? unmarked queue = some visited)
    (hall : ∀ i j, Follows successors? i j → j ∈ queue ∨ j ∈ unmarked) {v : Nat} :
    v ∈ visited ↔ ∃ q ∈ queue, Relation.ReflTransGen (Follows successors?) q v := by
  obtain ⟨hqueue, hstep⟩ := explore_closed h
  constructor
  · exact reached_of_mem_explore h v
  · rintro ⟨q, hq, hpath⟩
    induction hpath with
    | refl => exact hqueue q hq
    | tail _ hij ih =>
      rcases hall _ _ hij with hj | hj
      · exact hqueue _ hj
      · exact hstep _ ih _ hj hij

/-- A search that can look up each id of its queue and each unmarked one gives an answer. -/
theorem explore_isSome {unmarked queue : List Nat}
    (h : ∀ i, i ∈ queue ∨ i ∈ unmarked → (successors? i).isSome) :
    (explore successors? unmarked queue).isSome := by
  induction unmarked, queue using explore.induct successors? with
  | case1 unmarked => simp [explore]
  | case2 unmarked id queue hnone =>
    have := h id (Or.inl List.mem_cons_self)
    simp [hnone] at this
  | case3 unmarked id queue targets hsome found ih =>
    rw [explore, hsome]
    simp only [Option.isSome_map]
    refine ih fun i hi => h i ?_
    -- what the rest of the search may meet, this one might have met
    rcases hi with hi | hi
    · rcases List.mem_append.mp hi with hi | hi
      · exact Or.inl (List.mem_cons_of_mem _ hi)
      · exact Or.inr (mem_claim_fst.mp hi).1
    · exact Or.inr (mem_of_mem_claim_snd hi)

end Explore

/-! ### Paths of an automaton -/

/-- The state can be left without an event. -/
def State.movesOn {ε : Type u} (s : State ε) : Bool :=
  s.transitions.any fun t => t.action == .proceed

theorem State.movesOn_eq_true_iff {ε : Type u} {s : State ε} :
    s.movesOn = true ↔ ∃ t ∈ s.transitions, t.action = .proceed := by
  simp [movesOn]

namespace Automaton

variable {ε : Type u} {a : Automaton ε}

/-- A transition leads from one position to another, whatever its action and condition. -/
def Linked (a : Automaton ε) (i j : StateId) : Prop :=
  ∃ s, a.state? i = some s ∧ ∃ t ∈ s.transitions, t.target = j

/-- Any number of transitions lead from one position to another. -/
def Path (a : Automaton ε) : StateId → StateId → Prop := Relation.ReflTransGen a.Linked

/-- Every state is filed under its own position. -/
def Filed (a : Automaton ε) : Prop := ∀ i s, a.state? i = some s → s.id = i

/-- Every transition leads to a state. -/
def Closed (a : Automaton ε) : Prop :=
  ∀ i s, a.state? i = some s → ∀ t ∈ s.transitions, t.target < a.size

theorem holds_eq_true_iff {id : StateId} : a.holds id = true ↔ id < a.size := by
  simp [holds]

theorem mem_states_iff {s : State ε} : s ∈ a.states ↔ ∃ i, a.state? i = some s := by
  simp only [state?]
  exact List.mem_iff_getElem?

theorem lt_size_of_state? {i : StateId} {s : State ε} (h : a.state? i = some s) : i < a.size := by
  have : (a.state? i).isSome := by rw [h]; rfl
  exact isSome_state?_iff.mp this

theorem exists_state?_of_lt {i : StateId} (h : i < a.size) : ∃ s, a.state? i = some s :=
  Option.isSome_iff_exists.mp (isSome_state?_iff.mpr h)

theorem Linked.lt {i j : StateId} (h : a.Linked i j) : i < a.size := by
  obtain ⟨s, hs, -⟩ := h
  exact lt_size_of_state? hs

theorem Closed.lt_of_linked (hclosed : a.Closed) {i j : StateId} (h : a.Linked i j) :
    j < a.size := by
  obtain ⟨s, hs, t, ht, rfl⟩ := h
  exact hclosed i s hs t ht

theorem Closed.successors?_eq (hclosed : a.Closed) {i : StateId} {s : State ε}
    (hs : a.state? i = some s) :
    a.successors? i = some (s.transitions.map Transition.target) := by
  have hall : (s.transitions.map Transition.target).all a.holds = true := by
    rw [List.all_map, List.all_eq_true]
    intro t ht
    exact holds_eq_true_iff.mpr (hclosed i s hs t ht)
  rw [successors?, hs]
  show (if (s.transitions.map Transition.target).all a.holds then _ else _) = _
  rw [if_pos hall]

/-- In the search from the start, a successor is what a transition leads to. -/
theorem Closed.follows_successors?_iff (hclosed : a.Closed) {i j : StateId} :
    Follows a.successors? i j ↔ a.Linked i j := by
  cases hs : a.state? i with
  | none => simp [Follows, Linked, successors?, hs]
  | some s => simp [Follows, Linked, hclosed.successors?_eq hs, hs]

theorem Closed.successors?_isSome (hclosed : a.Closed) {i : StateId} (hi : i < a.size) :
    (a.successors? i).isSome := by
  obtain ⟨s, hs⟩ := exists_state?_of_lt hi
  rw [hclosed.successors?_eq hs]
  rfl

/-- In the search from the final state, a successor is where a transition comes from. -/
theorem Filed.mem_sources_iff (hfiled : a.Filed) {i j : StateId} :
    i ∈ a.sources j ↔ a.Linked i j := by
  simp only [sources, List.mem_flatMap, List.mem_filterMap, Option.ite_none_right_eq_some,
    Option.some_inj]
  constructor
  · rintro ⟨s, hs, t, ht, htj, rfl⟩
    obtain ⟨k, hk⟩ := mem_states_iff.mp hs
    rw [hfiled k s hk]
    exact ⟨s, hk, t, ht, htj⟩
  · rintro ⟨s, hs, t, ht, htj⟩
    exact ⟨s, mem_states_iff.mpr ⟨i, hs⟩, t, ht, htj, hfiled i s hs⟩

theorem Filed.predecessors?_eq (hfiled : a.Filed) (j : StateId) :
    a.predecessors? j = some (a.sources j) := by
  have hall : (a.sources j).all a.holds = true := by
    rw [List.all_eq_true]
    intro i hi
    exact holds_eq_true_iff.mpr (hfiled.mem_sources_iff.mp hi).lt
  simp [predecessors?, hall]

theorem Filed.follows_predecessors?_iff (hfiled : a.Filed) {i j : StateId} :
    Follows a.predecessors? j i ↔ a.Linked i j := by
  rw [Follows, hfiled.predecessors?_eq j, ← hfiled.mem_sources_iff]
  simp

/-! ### The searches of an automaton -/

/-- Among the ids of an arena, all but one are unmarked when that one starts a search. -/
theorem mem_queue_or_unmarked {start j : StateId} (h : j < a.size) :
    j ∈ [start] ∨ j ∈ (List.range a.size).erase start := by
  by_cases hj : j = start
  · exact Or.inl (by simp [hj])
  · exact Or.inr ((List.mem_erase_of_ne hj).mpr (List.mem_range.mpr h))

theorem lt_of_mem_queue_or_unmarked {start j : StateId} (hstart : start < a.size)
    (h : j ∈ [start] ∨ j ∈ (List.range a.size).erase start) : j < a.size := by
  rcases h with h | h
  · rwa [List.mem_singleton.mp h]
  · exact List.mem_range.mp (List.mem_of_mem_erase h)

theorem mem_reachable_iff (hclosed : a.Closed) {reached : List StateId}
    (h : a.reachable? = some reached) {i : StateId} : i ∈ reached ↔ a.Path a.start i := by
  rw [reachable?, Option.ite_none_right_eq_some] at h
  have hfollows : Follows a.successors? = a.Linked := by
    funext i j
    exact propext hclosed.follows_successors?_iff
  rw [mem_explore_iff h.2, hfollows]
  · simp [Path]
  · rw [hfollows]
    exact fun i j hij => mem_queue_or_unmarked (hclosed.lt_of_linked hij)

theorem exists_reachable (hclosed : a.Closed) (hstart : a.start < a.size) :
    ∃ reached, a.reachable? = some reached := by
  rw [reachable?, if_pos (holds_eq_true_iff.mpr hstart)]
  refine Option.isSome_iff_exists.mp (explore_isSome fun i hi => ?_)
  exact hclosed.successors?_isSome (lt_of_mem_queue_or_unmarked hstart hi)

theorem mem_finishing_iff (hfiled : a.Filed) {finishing : List StateId}
    (h : a.finishing? = some finishing) {i : StateId} : i ∈ finishing ↔ a.Path i a.final := by
  rw [finishing?, Option.ite_none_right_eq_some] at h
  have hfollows : Follows a.predecessors? = Function.swap a.Linked := by
    funext j i
    exact propext hfiled.follows_predecessors?_iff
  rw [mem_explore_iff h.2, hfollows]
  · simp only [List.mem_singleton, exists_eq_left, Path]
    exact Relation.reflTransGen_swap
  · rw [hfollows]
    exact fun i j hij => mem_queue_or_unmarked hij.lt

theorem exists_finishing (hfiled : a.Filed) (hclosed : a.Closed) (hfinal : a.final < a.size) :
    ∃ finishing, a.finishing? = some finishing := by
  have htargets : a.states.all (fun s => s.transitions.all fun t => a.holds t.target) = true := by
    simp only [List.all_eq_true, holds_eq_true_iff]
    intro s hs
    obtain ⟨i, hi⟩ := mem_states_iff.mp hs
    exact hclosed i s hi
  rw [finishing?, htargets, Bool.and_true, if_pos (holds_eq_true_iff.mpr hfinal)]
  refine Option.isSome_iff_exists.mp (explore_isSome fun j _ => ?_)
  rw [hfiled.predecessors?_eq j]
  rfl

end Automaton

end ChainAutomata
