/-
Where the elements of a pattern lie in its automaton.

`layout` writes the blocks of the elements one after the other.  Here each block is kept together
with its element, the position at which it begins and the state that it leads into, so that a state
of the automaton can be traced back to the element it was made for:

* `Pattern.placed` — the elements of a pattern in their places, in arena order;
* `Pattern.owner_of_state?` — a state is the final one or lies in the block of an element;
* `Pattern.owner_unique` — and in no other block;
* `Pattern.target_lt_position` — nothing leads from below a block into it, so that an element is not
  met again once it has been left.

Design notes: everything about one placement follows from its block, which `Step.block_cases`
describes, and from two facts about the list: its blocks do not overlap, and each leads into a
state below itself.
-/
import ChainAutomata.Proofs.Outcome
import Mathlib.Data.List.Nodup
import Mathlib.Data.List.Pairwise

universe u

namespace ChainAutomata

variable {ε : Type u}

/-! ### One block -/

namespace Step

variable {step : Step ε} {role : Role} {k next : Nat} {s : State ε} {t : Transition ε}

theorem name_of_mem_block (h : s ∈ step.block role k next) : s.name = step.name := by
  rcases step.block_cases role k next with ⟨-, hblock⟩ | ⟨-, r, r', hblock⟩
  · rw [hblock, List.mem_singleton] at h
    rw [h]
    rfl
  · rw [hblock, List.mem_pair] at h
    rcases h with rfl | rfl <;> rfl

/-- What moves on without an event leaves the block. -/
theorem target_of_proceed (h : s ∈ step.block role k next) (ht : t ∈ s.transitions)
    (haction : t.action = .proceed) : t.target = next := by
  have hwaiting : ∀ r target, t ∉ (step.waiting r k target).transitions := by
    intro r target hmem
    rcases eq_of_mem_waiting hmem with rfl | rfl <;> exact absurd haction (by simp)
  rcases step.block_cases role k next with ⟨-, hblock⟩ | ⟨-, r, r', hblock⟩
  · -- a waiting state has nothing to move on by
    rw [hblock, List.mem_singleton] at h
    exact absurd (h ▸ ht) (hwaiting _ _)
  · rw [hblock, List.mem_pair] at h
    rcases h with rfl | rfl
    · exact absurd ht (hwaiting _ _)
    · rcases eq_of_mem_resting ht with rfl | rfl | rfl
      · exact absurd haction (by simp)
      · exact absurd haction (by simp)
      · rfl

/-- A state has at most one transition for each action. -/
theorem nodup_actions_of_mem_block (h : s ∈ step.block role k next) :
    (s.transitions.map Transition.action).Nodup := by
  have hskips : ∀ target, (step.skips target).map Transition.action = [] ∨
      (step.skips target).map Transition.action = [.ignore] := by
    intro target
    rw [skips]
    cases step.strictness with
    | strict => exact Or.inl rfl
    | relaxed => exact Or.inr rfl
  have hwaiting : ∀ r target,
      ((step.waiting r k target).transitions.map Transition.action).Nodup := by
    intro r target
    rcases hskips k with hk | hk <;> simp [waiting, hk]
  rcases step.block_cases role k next with ⟨-, hblock⟩ | ⟨-, r, r', hblock⟩
  · rw [hblock, List.mem_singleton] at h
    exact h ▸ hwaiting _ _
  · rw [hblock, List.mem_pair] at h
    rcases h with rfl | rfl
    · exact hwaiting _ _
    · rcases hskips k with hk | hk <;> simp [resting, hk]

end Step

/-! ### Placements -/

/-- An element in its place in an arena. -/
structure Placed (ε : Type u) where
  step : Step ε
  /-- The role of the entry. -/
  role : Role
  /-- Where the block of the element begins. -/
  position : Nat
  /-- The state that the block leads into. -/
  next : Nat

namespace Placed

/-- The block of the element. -/
def states (x : Placed ε) : List (State ε) := x.step.block x.role x.position x.next

/-- The position at which the block is entered. -/
def entry (x : Placed ε) : Nat := x.step.entry x.position

/-- A position lies in the block. -/
def Owns (x : Placed ε) (i : Nat) : Prop := x.position ≤ i ∧ i < x.position + x.step.width

/-- Two positions are the two halves of a repeated element. -/
def Halves (x : Placed ε) (i j : Nat) : Prop :=
  x.step.quantifier.isLooping ∧
    (i = x.position ∧ j = x.position + 1 ∨ j = x.position ∧ i = x.position + 1)

/-- Of two blocks one lies below the other. -/
def Apart (x y : Placed ε) : Prop :=
  x.position + x.step.width ≤ y.position ∨ y.position + y.step.width ≤ x.position

instance : Std.Symm (@Apart ε) := ⟨fun _ _ h => Or.symm h⟩

theorem owns_of_getElem? {x : Placed ε} {j : Nat} {s : State ε} (h : x.states[j]? = some s) :
    x.Owns (x.position + j) := by
  have hj : j < x.states.length := (List.getElem?_eq_some_iff.mp h).choose
  rw [states, Step.length_block] at hj
  exact ⟨Nat.le_add_right _ _, Nat.add_lt_add_left hj _⟩

theorem owns_entry (x : Placed ε) : x.Owns x.entry := ⟨x.step.le_entry _, x.step.entry_lt _⟩

theorem single_or_looping (x : Placed ε) :
    x.step.quantifier = .single ∨ x.step.quantifier.isLooping := by
  cases x.step.quantifier <;> simp [Quantifier.isLooping]

/-- An element that takes one event has one state, which waits for it. -/
theorem states_of_single {x : Placed ε} (h : x.step.quantifier = .single) :
    x.states = [x.step.waiting x.role x.position x.next] := by
  rw [states, Step.block, h]

/-- A repeated element has two states. -/
theorem states_of_looping {x : Placed ε} (h : x.step.quantifier.isLooping) :
    ∃ r r', x.states = [x.step.waiting r x.position (x.position + 1),
      x.step.resting r' x.position x.next] := by
  rw [states, Step.block]
  cases hq : x.step.quantifier with
  | single =>
    rw [hq] at h
    exact absurd h (by simp [Quantifier.isLooping])
  | zeroOrMore => exact ⟨_, _, rfl⟩
  | oneOrMore => exact ⟨_, _, rfl⟩

/-- The states of a repeated element in an arena that its block lies in. -/
theorem exists_state?_of_looping {x : Placed ε} {a : Automaton ε}
    (hspans : a.Spans x.position x.states) (h : x.step.quantifier.isLooping) :
    ∃ r r', a.state? x.position = some (x.step.waiting r x.position (x.position + 1)) ∧
      a.state? (x.position + 1) = some (x.step.resting r' x.position x.next) := by
  obtain ⟨r, r', hstates⟩ := states_of_looping h
  rw [hstates] at hspans
  exact ⟨r, r', hspans.head, hspans 1 _ rfl⟩

theorem width_of_single {x : Placed ε} (h : x.step.quantifier = .single) : x.step.width = 1 := by
  rw [Step.width, h]

theorem width_of_looping {x : Placed ε} (h : x.step.quantifier.isLooping) : x.step.width = 2 := by
  obtain ⟨r, r', hstates⟩ := states_of_looping h
  have hlength := x.step.length_block x.role x.position x.next
  rw [show x.step.block x.role x.position x.next = _ from hstates] at hlength
  exact hlength.symm

theorem owns_resting {x : Placed ε} (h : x.step.quantifier.isLooping) :
    x.Owns (x.position + 1) := by
  refine ⟨Nat.le_add_right _ _, ?_⟩
  rw [width_of_looping h]
  exact Nat.lt_succ_self _

end Placed

/-- The elements of a layout in their places, last element first. -/
def placements : Nat → Nat → List (Step ε) → List (Placed ε)
  | _, _, [] => []
  | k, next, step :: rest =>
    ⟨step, entryRole rest, k, next⟩ :: placements (k + step.width) (step.entry k) rest

theorem layout_eq_flatMap (steps : List (Step ε)) :
    ∀ k next, layout k next steps = (placements k next steps).flatMap Placed.states := by
  induction steps with
  | nil => exact fun _ _ => rfl
  | cons step rest ih =>
    intro k next
    rw [layout, placements, List.flatMap_cons, ih]
    rfl

theorem map_step_placements (steps : List (Step ε)) :
    ∀ k next, (placements k next steps).map Placed.step = steps := by
  induction steps with
  | nil => exact fun _ _ => rfl
  | cons step rest ih =>
    intro k next
    rw [placements, List.map_cons, ih]

theorem le_position_of_mem {steps : List (Step ε)} {x : Placed ε} :
    ∀ {k next : Nat}, x ∈ placements k next steps → k ≤ x.position := by
  induction steps with
  | nil =>
    intro k next h
    simp [placements] at h
  | cons step rest ih =>
    intro k next h
    rcases List.mem_cons.mp h with rfl | h
    · exact Nat.le_refl _
    · exact Nat.le_trans (Nat.le_add_right _ _) (ih h)

/-- A block leads into a state below it: the entry of the block before, or what the whole layout
leads into. -/
theorem next_lt_position_of_mem {steps : List (Step ε)} {x : Placed ε} :
    ∀ {k next : Nat}, next < k → x ∈ placements k next steps → x.next < x.position := by
  induction steps with
  | nil =>
    intro k next _ h
    simp [placements] at h
  | cons step rest ih =>
    intro k next hnext h
    rcases List.mem_cons.mp h with rfl | h
    · exact hnext
    · exact ih (step.entry_lt k) h

/-- Blocks do not overlap. -/
theorem pairwise_placements (steps : List (Step ε)) :
    ∀ k next, (placements k next steps).Pairwise
      fun x y => x.position + x.step.width ≤ y.position := by
  induction steps with
  | nil => exact fun _ _ => .nil
  | cons step rest ih =>
    intro k next
    exact .cons (fun y hy => le_position_of_mem hy) (ih _ _)

theorem spans_of_mem_placements {a : Automaton ε} {steps : List (Step ε)} {x : Placed ε} :
    ∀ {k next : Nat}, a.Spans k (layout k next steps) → x ∈ placements k next steps →
      a.Spans x.position x.states := by
  induction steps with
  | nil =>
    intro k next _ h
    simp [placements] at h
  | cons step rest ih =>
    intro k next h hx
    obtain ⟨hblock, hrest⟩ := h.layout_cons
    rcases List.mem_cons.mp hx with rfl | hx
    · exact hblock
    · exact ih hrest hx

theorem exists_placed_of_getElem?_layout {steps : List (Step ε)} {s : State ε} :
    ∀ {k next j : Nat}, (layout k next steps)[j]? = some s →
      ∃ x ∈ placements k next steps, ∃ i, k + j = x.position + i ∧ x.states[i]? = some s := by
  induction steps with
  | nil =>
    intro k next j h
    simp [layout] at h
  | cons step rest ih =>
    intro k next j h
    rcases getElem?_layout_cons h with ⟨-, hblock⟩ | ⟨i, rfl, hrest⟩
    · exact ⟨_, List.mem_cons_self, j, rfl, hblock⟩
    · obtain ⟨x, hx, i', hi', hs⟩ := ih hrest
      refine ⟨x, List.mem_cons_of_mem _ hx, i', ?_, hs⟩
      rw [← hi', Nat.add_assoc]

/-! ### The elements of a pattern -/

namespace Pattern

/-- The elements of a pattern in their places in its automaton, last element first. -/
def placed (p : Pattern ε) : List (Placed ε) := placements 1 0 p.steps

variable {p : Pattern ε} {finalName : String} {x y : Placed ε} {i : Nat} {s : State ε}

theorem map_step_placed (p : Pattern ε) : p.placed.map Placed.step = p.steps :=
  map_step_placements p.steps 1 0

theorem mem_names_iff {n : String} : n ∈ p.names ↔ ∃ x ∈ p.placed, x.step.name = n := by
  rw [p.names_eq_reverse_steps, List.mem_reverse, ← p.map_step_placed, List.map_map, List.mem_map]
  rfl

theorem position_pos (hx : x ∈ p.placed) : 0 < x.position := le_position_of_mem hx

theorem next_lt_position (hx : x ∈ p.placed) : x.next < x.position :=
  next_lt_position_of_mem Nat.zero_lt_one hx

/-- The block of each element lies in the automaton. -/
theorem spans_placed (finalName : String) (hx : x ∈ p.placed) :
    (p.automaton finalName).Spans x.position x.states :=
  spans_of_mem_placements (p.automaton_spans finalName) hx

/-- A state is the final one or lies in the block of an element. -/
theorem owner_of_state? (h : (p.automaton finalName).state? i = some s) :
    (i = 0 ∧ s = ⟨0, finalName, .final, []⟩) ∨
      ∃ x ∈ p.placed, ∃ j, i = x.position + j ∧ x.states[j]? = some s := by
  rcases p.state?_automaton_cases finalName h with hfinal | ⟨j, rfl, hj⟩
  · exact Or.inl hfinal
  · exact Or.inr (exists_placed_of_getElem?_layout hj)

theorem apart_of_ne (hx : x ∈ p.placed) (hy : y ∈ p.placed) (hne : x ≠ y) : x.Apart y := by
  have hpairwise : p.placed.Pairwise Placed.Apart :=
    (pairwise_placements p.steps 1 0).imp fun h => Or.inl h
  exact hpairwise.forall hx hy hne

/-- No position lies in two blocks. -/
theorem owner_unique (hx : x ∈ p.placed) (hy : y ∈ p.placed) (hxi : x.Owns i) (hyi : y.Owns i) :
    x = y := by
  by_contra hne
  -- two different blocks would overlap
  obtain ⟨hxle, hxlt⟩ := hxi
  obtain ⟨hyle, hylt⟩ := hyi
  rcases apart_of_ne hx hy hne with hbelow | hbelow <;> omega

theorem nodup_name_placed (hdistinct : ¬ p.RepeatsName) :
    (p.placed.map fun x => x.step.name).Nodup := by
  have hnodup := not_repeatsName_iff.mp hdistinct
  rw [p.names_eq_reverse_steps, List.nodup_reverse, ← p.map_step_placed, List.map_map] at hnodup
  exact hnodup

/-- With distinct names an element is known by its name. -/
theorem eq_of_name_eq (hdistinct : ¬ p.RepeatsName) (hx : x ∈ p.placed) (hy : y ∈ p.placed)
    (h : x.step.name = y.step.name) : x = y :=
  List.inj_on_of_nodup_map (nodup_name_placed hdistinct) hx hy h

theorem exists_state?_of_owns (finalName : String) (hx : x ∈ p.placed) (hi : x.Owns i) :
    ∃ s, (p.automaton finalName).state? i = some s := by
  obtain ⟨j, rfl⟩ := Nat.exists_eq_add_of_le hi.1
  have hj : j < x.states.length := by
    rw [Placed.states, Step.length_block]
    exact Nat.lt_of_add_lt_add_left hi.2
  exact ⟨_, spans_placed finalName hx j _ (List.getElem?_eq_getElem hj)⟩

/-- A state has the name of the element in whose block it lies. -/
theorem owner_cases (h : (p.automaton finalName).state? i = some s) :
    (i = 0 ∧ s.name = finalName) ∨ ∃ x ∈ p.placed, x.Owns i ∧ s.name = x.step.name := by
  rcases owner_of_state? h with ⟨rfl, rfl⟩ | ⟨x, hx, j, rfl, hj⟩
  · exact Or.inl ⟨rfl, rfl⟩
  · have hmem := List.mem_of_getElem? hj
    exact Or.inr ⟨x, hx, Placed.owns_of_getElem? hj, Step.name_of_mem_block hmem⟩

theorem mem_states_of_owns (hx : x ∈ p.placed) (hi : x.Owns i)
    (h : (p.automaton finalName).state? i = some s) : s ∈ x.states := by
  rcases owner_of_state? h with ⟨rfl, -⟩ | ⟨y, hy, j, rfl, hj⟩
  · -- the final state lies below every block
    exact absurd (position_pos hx) (Nat.not_lt.mpr hi.1)
  · obtain rfl := owner_unique hx hy hi (Placed.owns_of_getElem? hj)
    exact List.mem_of_getElem? hj

/-- Nothing leads from below a block into it. -/
theorem target_lt_position (hx : x ∈ p.placed) (hi : i < x.position)
    (h : (p.automaton finalName).state? i = some s) : ∀ t ∈ s.transitions, t.target < x.position := by
  intro t ht
  rcases owner_of_state? h with ⟨-, rfl⟩ | ⟨y, hy, j, rfl, hj⟩
  · simp at ht
  · -- the block that the state lies in ends below the other, and leads into itself or further down
    have hlt : y.position + y.step.width ≤ x.position := by
      obtain ⟨-, hown⟩ := Placed.owns_of_getElem? hj
      have hne : y ≠ x := by
        rintro rfl
        omega
      rcases apart_of_ne hy hx hne with hbelow | hbelow <;> omega
    rcases Step.target_of_mem_block (List.mem_of_getElem? hj) t ht with htarget | htarget
    · rw [htarget]
      exact Nat.lt_of_lt_of_le (next_lt_position hy) (Nat.le_trans (Nat.le_add_right _ _) hlt)
    · exact Nat.lt_of_lt_of_le htarget hlt

end Pattern

end ChainAutomata
