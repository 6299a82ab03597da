/-
Outlines do not depend on the numbering.

The states of an automaton can be put into any order, if all that speaks of their positions is renamed
with them, and each state can list its transitions in any order.  The outline shows none of this.

* `Automaton.permute` — an automaton with its states in another order;
* `Automaton.Reordered` — automata that differ in the order of transitions alone;
* `Automaton.isomorphic_of_reordered` — both together keep an automaton up to isomorphism;
* `outline_eq_of_reordered_permute` — and keep its outline.

Design notes: the renaming is a function on all numbers, which keeps those that are no positions, so
that ids and targets that lie outside the arena can be renamed like any other.
-/
import ChainAutomata.Proofs.Isomorphism
import Mathlib.Data.Fintype.Perm

universe u v

namespace ChainAutomata

variable {ε : Type u} {δ : Type v}

/-! ### Permuted automata -/

/-- Where a position comes to lie when those below `n` are permuted. -/
def renumber {n : Nat} (σ : Equiv.Perm (Fin n)) (i : Nat) : Nat :=
  if h : i < n then σ ⟨i, h⟩ else i

theorem renumber_of_lt {n : Nat} (σ : Equiv.Perm (Fin n)) {i : Nat} (h : i < n) :
    renumber σ i = σ ⟨i, h⟩ := dif_pos h

theorem bijOn_renumber {n : Nat} (σ : Equiv.Perm (Fin n)) :
    Set.BijOn (renumber σ) {i | i < n} {i | i < n} := by
  refine ⟨?_, ?_, ?_⟩
  · intro i hi
    show renumber σ i < n
    rw [renumber_of_lt σ hi]
    exact (σ ⟨i, hi⟩).isLt
  · intro i hi j hj hij
    rw [renumber_of_lt σ hi, renumber_of_lt σ hj] at hij
    exact congrArg Fin.val (σ.injective (Fin.ext hij))
  · intro j hj
    refine ⟨σ.symm ⟨j, hj⟩, (σ.symm ⟨j, hj⟩).isLt, ?_⟩
    rw [renumber_of_lt σ (σ.symm ⟨j, hj⟩).isLt]
    simp

/-- The transition with its target renamed. -/
def Transition.rename (f : Nat → Nat) (t : Transition ε) : Transition ε :=
  { t with target := f t.target }

/-- The state with its id and the targets of its transitions renamed. -/
def State.rename (f : Nat → Nat) (s : State ε) : State ε :=
  { s with id := f s.id, transitions := s.transitions.map (Transition.rename f) }

namespace Automaton

/-- The automaton with the state at each position moved to where the permutation says. -/
def permute (a : Automaton ε) (σ : Equiv.Perm (Fin a.size)) : Automaton ε where
  states := List.ofFn fun j => (a.states.get (σ.symm j)).rename (renumber σ)
  start := renumber σ a.start
  final := renumber σ a.final

/-- The automata are the same but for the order in which states list their transitions. -/
structure Reordered (a b : Automaton ε) : Prop where
  size : a.size = b.size
  start : a.start = b.start
  final : a.final = b.final
  state : ∀ i s s', a.state? i = some s → b.state? i = some s' →
    s.id = s'.id ∧ s.name = s'.name ∧ s.role = s'.role ∧ s.transitions.Perm s'.transitions

variable {a b : Automaton ε}

theorem size_permute (a : Automaton ε) (σ : Equiv.Perm (Fin a.size)) : (a.permute σ).size = a.size := by
  rw [size, permute, List.length_ofFn]

theorem state?_permute (σ : Equiv.Perm (Fin a.size)) {i : Nat} {s : State ε}
    (hs : a.state? i = some s) :
    (a.permute σ).state? (renumber σ i) = some (s.rename (renumber σ)) := by
  have hi := lt_size_of_state? hs
  rw [state?, permute, renumber_of_lt σ hi, List.getElem?_ofFn, dif_pos (σ ⟨i, hi⟩).isLt]
  have hget : a.states.get ⟨i, hi⟩ = s := by
    rw [state?, List.getElem?_eq_getElem hi, Option.some_inj] at hs
    exact hs
  rw [Fin.eta, Equiv.symm_apply_apply]
  exact congrArg (fun s => some (s.rename (renumber σ))) hget

/-- Neither a permutation nor another order of transitions gives an automaton with another graph. -/
theorem isomorphic_of_reordered (σ : Equiv.Perm (Fin a.size)) (h : (a.permute σ).Reordered b) :
    a.Isomorphic b := by
  have hsize : b.size = a.size := by rw [← h.size, size_permute]
  refine ⟨renumber σ, ?_⟩
  constructor
  case bijective =>
    rw [hsize]
    exact bijOn_renumber σ
  case start => exact h.start
  case final => exact h.final
  case role =>
    intro i s s' hs hs'
    exact (h.state _ _ _ (state?_permute σ hs) hs').2.2.1
  case name =>
    intro i s s' hs hs'
    exact (h.state _ _ _ (state?_permute σ hs) hs').2.1
  case transitions =>
    intro i s s' hs hs'
    have hperm := (h.state _ _ _ (state?_permute σ hs) hs').2.2.2
    have hedges := hperm.map fun t => (t.action, t.target)
    rwa [State.rename, List.map_map] at hedges

theorem Isomorphic.outline_eq {a : Automaton ε} {b : Automaton δ} (h : a.Isomorphic b)
    (hclosed : a.Closed) : a.outline = b.outline :=
  outline_eq_iff_portraits_perm.mpr (h.portraits_perm hclosed)

end Automaton

/-- **An outline is the same for every numbering.**  It depends neither on how the states of an
automaton are ordered nor on the order of the transitions in each of them. -/
theorem outline_eq_of_reordered_permute {a b : Automaton ε} (hclosed : a.Closed)
    (σ : Equiv.Perm (Fin a.size)) (h : (a.permute σ).Reordered b) : b.outline = a.outline :=
  ((Automaton.isomorphic_of_reordered σ h).outline_eq hclosed).symm

/-- Two states with one name, of which each leads to the other. -/
def twins : Automaton Nat where
  states := [
    ⟨0, "end", .final, []⟩,
    ⟨1, "twin", .normal, [⟨.take, 0, some .always⟩, ⟨.proceed, 2, none⟩]⟩,
    ⟨2, "twin", .start, [⟨.take, 1, some .always⟩, ⟨.ignore, 2, some .always⟩]⟩]
  start := 2
  final := 0

/-- The same automaton, numbered from the other end and with some transitions exchanged. -/
def twinsReversed : Automaton Nat where
  states := [
    ⟨0, "twin", .start, [⟨.ignore, 0, some .always⟩, ⟨.take, 1, some .always⟩]⟩,
    ⟨1, "twin", .normal, [⟨.proceed, 0, none⟩, ⟨.take, 2, some .always⟩]⟩,
    ⟨2, "end", .final, []⟩]
  start := 0
  final := 2

/-- The twins keep their outline when they are numbered from the other end. -/
theorem outline_twinsReversed :
    twins.Closed ∧ (twins.permute Fin.revPerm).Reordered twinsReversed ∧
      twinsReversed.outline = twins.outline := by
  have hclosed : twins.Closed := by
    have htargets : ∀ s ∈ twins.states, ∀ t ∈ s.transitions, t.target < twins.size := by
      simp [twins, Automaton.size]
    exact fun i s hs => htargets s (List.mem_of_getElem? hs)
  have hreordered : (twins.permute Fin.revPerm).Reordered twinsReversed := by
    constructor
    case size => rfl
    case start => rfl
    case final => rfl
    case state =>
      intro i s s' hs hs'
      rcases i with _ | _ | _ | i
      · obtain rfl := Option.some_inj.mp hs
        obtain rfl := Option.some_inj.mp hs'
        exact ⟨rfl, rfl, rfl, .swap _ _ _⟩
      · obtain rfl := Option.some_inj.mp hs
        obtain rfl := Option.some_inj.mp hs'
        exact ⟨rfl, rfl, rfl, .swap _ _ _⟩
      · obtain rfl := Option.some_inj.mp hs
        obtain rfl := Option.some_inj.mp hs'
        exact ⟨rfl, rfl, rfl, .nil⟩
      · exact absurd hs' (by simp [Automaton.state?, twinsReversed])
  exact ⟨hclosed, hreordered, outline_eq_of_reordered_permute hclosed Fin.revPerm hreordered⟩

end ChainAutomata
