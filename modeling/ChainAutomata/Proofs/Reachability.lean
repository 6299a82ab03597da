/-
Which states of a compiled pattern can be reached.

The audit asks of every state that it leads to the final one, but not that anything leads to it.  The
entry of each block is reached through the blocks of the elements before it, and the other state of a
repeated element from its entry, with one exception: an element that may be left out is entered
behind its waiting state, and if it skips nothing, no transition leads back to it.

* `path_entry_of_mem_placements` — the entry of each block is reached;
* `Placed.path_from_entry` — and from there the whole block, but for a bypassed state;
* `Pattern.continuation_ne_of_bypassed`, `Pattern.not_linked_of_bypassed` — nothing continues in a
  bypassed state, and no transition leads to it;
* `not_path_iff_bypassed` — the states of a compiled pattern that cannot be reached.

Design notes: that a state is out of reach is shown without following any path.  It is not the start
and not the target of any transition, so no path ends in it.
-/
import ChainAutomata.Proofs.Arena

universe u

namespace ChainAutomata

open Automaton

variable {ε : Type u}

/-! ### Inside a block -/

namespace Placed

variable {x : Placed ε} {s : State ε} {t : Transition ε} {a : Automaton ε} {i : Nat}

/-- The state of an element that is neither entered nor led back to. -/
def Bypassed (x : Placed ε) (i : Nat) : Prop :=
  x.step.quantifier = .zeroOrMore ∧ x.step.strictness = .strict ∧ i = x.position

theorem owns_position (x : Placed ε) : x.Owns x.position :=
  ⟨Nat.le_refl _, Nat.lt_of_le_of_lt x.owns_entry.1 x.owns_entry.2⟩

/-- A transition of a block leads on, to the resting state, or by skipping to the waiting one. -/
theorem target_cases (hs : s ∈ x.states) (ht : t ∈ s.transitions) :
    t.target = x.next ∨ (x.step.quantifier.isLooping ∧ t.target = x.position + 1) ∨
      (x.step.strictness = .relaxed ∧ t.target = x.position) := by
  have hskips : t ∈ x.step.skips x.position →
      x.step.strictness = .relaxed ∧ t.target = x.position := by
    intro hmem
    obtain ⟨hrelaxed, rfl⟩ := Step.mem_skips_iff.mp hmem
    exact ⟨hrelaxed, rfl⟩
  rcases x.single_or_looping with hq | hq
  · rw [states_of_single hq, List.mem_singleton] at hs
    subst hs
    rcases List.mem_cons.mp ht with rfl | ht
    · exact Or.inl rfl
    · exact Or.inr (Or.inr (hskips ht))
  · obtain ⟨r, r', hstates⟩ := states_of_looping hq
    rw [hstates, List.mem_pair] at hs
    rcases hs with rfl | rfl
    · rcases List.mem_cons.mp ht with rfl | ht
      · exact Or.inr (Or.inl ⟨hq, rfl⟩)
      · exact Or.inr (Or.inr (hskips ht))
    · rcases List.mem_cons.mp ht with rfl | ht
      · exact Or.inr (Or.inl ⟨hq, rfl⟩)
      · rcases List.mem_append.mp ht with ht | ht
        · exact Or.inr (Or.inr (hskips ht))
        · rw [List.mem_singleton.mp ht]
          exact Or.inl rfl

/-- From the entry of a block all of its states are reached, but for a bypassed one. -/
theorem path_from_entry (hspans : a.Spans x.position x.states) (hi : x.Owns i)
    (hbypassed : ¬ x.Bypassed i) : a.Path x.entry i := by
  obtain ⟨hle, hlt⟩ := hi
  cases hq : x.step.quantifier with
  | single =>
    rw [width_of_single hq] at hlt
    have hentry : x.entry = x.position := by rw [entry, Step.entry, hq]
    obtain rfl : i = x.entry := by omega
    exact .refl
  | zeroOrMore =>
    have hlooping : x.step.quantifier.isLooping := by rw [hq]; rfl
    have hentry : x.entry = x.position + 1 := by rw [entry, Step.entry, hq]
    rw [width_of_looping hlooping] at hlt
    obtain rfl | rfl : i = x.position ∨ i = x.entry := by omega
    · -- the waiting state is led back to if the element skips
      have hrelaxed : x.step.strictness = .relaxed := by
        cases hs : x.step.strictness with
        | strict => exact absurd ⟨hq, hs, rfl⟩ hbypassed
        | relaxed => rfl
      obtain ⟨r, r', -, hresting⟩ := exists_state?_of_looping hspans hlooping
      have hskips : ⟨.ignore, x.position, some x.step.refusal⟩ ∈ x.step.skips x.position :=
        Step.mem_skips_iff.mpr ⟨hrelaxed, rfl⟩
      rw [hentry]
      exact .single ⟨_, hresting, _, List.mem_cons_of_mem _ (List.mem_append_left _ hskips), rfl⟩
    · exact .refl
  | oneOrMore =>
    have hlooping : x.step.quantifier.isLooping := by rw [hq]; rfl
    have hentry : x.entry = x.position := by rw [entry, Step.entry, hq]
    rw [width_of_looping hlooping] at hlt
    obtain rfl | rfl : i = x.entry ∨ i = x.position + 1 := by omega
    · exact .refl
    · obtain ⟨r, r', hwaiting, -⟩ := exists_state?_of_looping hspans hlooping
      rw [hentry]
      exact .single ⟨_, hwaiting, _, List.mem_cons_self, rfl⟩

end Placed

/-! ### Entries -/

theorem path_entryOf {a : Automaton ε} {k next : Nat} {steps : List (Step ε)}
    (h : a.Spans k (layout k next steps)) : a.Path (entryOf k next steps) next := by
  by_cases hsteps : steps = []
  · rw [hsteps]
    exact .refl
  · have hle : k ≤ entryOf k next steps := le_entryOf hsteps
    have hlt : entryOf k next steps < k + (layout k next steps).length := entryOf_lt hsteps
    have hpath := path_of_spans_layout h (entryOf k next steps - k) (by omega)
    rwa [Nat.add_sub_cancel' hle] at hpath

/-- From where a layout is entered the entry of each of its blocks is reached. -/
theorem path_entry_of_mem_placements {a : Automaton ε} {steps : List (Step ε)} {x : Placed ε} :
    ∀ {k next : Nat}, a.Spans k (layout k next steps) → x ∈ placements k next steps →
      a.Path (entryOf k next steps) x.entry := by
  induction steps with
  | nil =>
    intro k next _ hx
    simp [placements] at hx
  | cons step rest ih =>
    intro k next h hx
    obtain ⟨-, hrest⟩ := h.layout_cons
    rw [entryOf]
    rcases List.mem_cons.mp hx with rfl | hx
    · -- the blocks behind this one lead into its entry
      exact path_entryOf hrest
    · exact ih hrest hx

/-! ### The automaton of a pattern -/

namespace Pattern

variable {p : Pattern ε} {finalName : String} {x : Placed ε} {i : Nat}

/-- A bypassed state is the entry of no block. -/
theorem entry_ne_of_bypassed (hx : x ∈ p.placed) (hi : x.Bypassed i) {y : Placed ε}
    (hy : y ∈ p.placed) : y.entry ≠ i := by
  obtain ⟨hq, -, rfl⟩ := hi
  intro heq
  have howns : x.Owns y.entry := by
    rw [heq]
    exact x.owns_position
  obtain rfl := owner_unique hy hx y.owns_entry howns
  rw [Placed.entry, Step.entry, hq] at heq
  exact absurd heq (Nat.succ_ne_self _)

/-- No element leads into a bypassed state, and neither does the start. -/
theorem continuation_ne_of_bypassed (hx : x ∈ p.placed) (hi : x.Bypassed i)
    {later earlier : List (Step ε)} (h : p.steps = later ++ earlier) : continuation later ≠ i := by
  rcases continuation_cases h with hzero | ⟨y, hy, hentry⟩
  · -- the final state lies below every block
    rw [hzero, hi.2.2]
    exact Nat.ne_of_lt (position_pos hx)
  · rw [hentry]
    exact entry_ne_of_bypassed hx hi hy

theorem not_linked_of_bypassed (hx : x ∈ p.placed) (hi : x.Bypassed i) (j : Nat) :
    ¬ (p.automaton finalName).Linked j i := by
  rintro ⟨s, hs, t, ht, rfl⟩
  have howns : x.Owns t.target := by
    rw [hi.2.2]
    exact x.owns_position
  rcases owner_of_state? hs with ⟨-, rfl⟩ | ⟨y, hy, k, -, hk⟩
  · simp at ht
  · rcases Placed.target_cases (List.mem_of_getElem? hk) ht with
      htarget | ⟨hlooping, htarget⟩ | ⟨hrelaxed, htarget⟩
    · obtain ⟨later, step, earlier, hsplit, rfl⟩ := mem_placed_iff.mp hy
      exact continuation_ne_of_bypassed hx hi hsplit htarget.symm
    · -- a resting state is not the waiting one of its own block
      obtain rfl := owner_unique hy hx (htarget ▸ Placed.owns_resting hlooping) howns
      exact absurd (htarget.symm.trans hi.2.2) (Nat.succ_ne_self _)
    · -- what skips is not strict
      have hown : y.Owns t.target := by
        rw [htarget]
        exact y.owns_position
      obtain rfl := owner_unique hy hx hown howns
      exact absurd (hi.2.1.symm.trans hrelaxed) (by simp)

theorem not_path_of_bypassed (hx : x ∈ p.placed) (hi : x.Bypassed i) :
    ¬ (p.automaton finalName).Path (p.automaton finalName).start i := by
  intro hpath
  rcases Relation.ReflTransGen.cases_tail hpath with heq | ⟨j, -, hlinked⟩
  · have hstart : i = continuation p.steps := heq.trans (entryOf_eq_continuation p.steps)
    exact continuation_ne_of_bypassed hx hi (List.append_nil _).symm hstart.symm
  · exact not_linked_of_bypassed hx hi j hlinked

theorem path_of_not_bypassed (hi : i < (p.automaton finalName).size)
    (hbypassed : ¬ ∃ x ∈ p.placed, x.Bypassed i) :
    (p.automaton finalName).Path (p.automaton finalName).start i := by
  have hspans := p.automaton_spans finalName
  obtain ⟨s, hs⟩ := exists_state?_of_lt hi
  rcases owner_of_state? hs with ⟨rfl, -⟩ | ⟨x, hx, j, rfl, hj⟩
  · exact path_entryOf hspans
  · have hentry := path_entry_of_mem_placements hspans hx
    have hblock := Placed.path_from_entry (spans_placed finalName hx) (Placed.owns_of_getElem? hj)
      fun h => hbypassed ⟨x, hx, h⟩
    exact hentry.trans hblock

end Pattern

/-- **What cannot be reached.**  A state of a compiled pattern is out of reach from the start exactly
when it is the first of the two states of an element that may be left out and must follow directly.
The final state is always reached. -/
theorem not_path_iff_bypassed {settings : Settings} {p : Pattern ε} {a : Automaton ε}
    (h : (compile settings p).1 = .ok a) :
    a.Path a.start a.final ∧
    ∀ i < a.size, ¬ a.Path a.start i ↔
      ∃ x ∈ p.placed, x.step.quantifier = .zeroOrMore ∧ x.step.strictness = .strict ∧
        i = x.position := by
  obtain ⟨-, -, rfl⟩ := compile_eq_ok_iff.mp h
  refine ⟨path_entryOf (p.automaton_spans settings.finalName), ?_⟩
  intro i hi
  constructor
  · intro hpath
    by_contra hbypassed
    exact hpath (Pattern.path_of_not_bypassed hi hbypassed)
  · rintro ⟨x, hx, hbypassed⟩
    exact Pattern.not_path_of_bypassed hx hbypassed

/-- Three elements that may all be left out; only the second one skips. -/
def allOptional : Pattern Nat :=
  .link (.link (.head { name := "first", quantifier := .zeroOrMore }) .relaxed
      { name := "second", quantifier := .zeroOrMore })
    .strict { name := "third", quantifier := .zeroOrMore }

/-- Of its seven states, the first state of the last element is out of reach, and so is that of the
first one, which counts as strict. -/
theorem not_path_allOptional :
    ∃ a, (compile {} allOptional).1 = .ok a ∧ a.size = 7 ∧
      ∀ i < 7, ¬ a.Path a.start i ↔ i = 1 ∨ i = 5 := by
  have hcompiles : (compile {} allOptional).1 = .ok (allOptional.automaton "$endState$") :=
    compile_of_nodup (by decide)
  refine ⟨_, hcompiles, rfl, ?_⟩
  intro i hi
  rw [(not_path_iff_bypassed hcompiles).2 i hi]
  simp [allOptional, Pattern.placed, placements, Step.width, Step.quantifier, Step.entry, entryRole]

end ChainAutomata
