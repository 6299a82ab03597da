/-
Isomorphism of automata, and what it keeps.

Two automata are isomorphic when some bijection of their states keeps the roles and names, the
start and the final state, and where each transition leads and what it does; the conditions do not
count.

* `Automaton.Isomorphic` — isomorphism, for automata over any two types of events;
* `Automaton.isomorphic_of_map_bare_eq` — automata that differ in conditions alone are isomorphic;
* `Automaton.Isomorphic.portraits_perm` — isomorphic automata have the same portraits of states;
* `Automaton.outline_eq_iff_portraits_perm` — equal outlines are equal portraits in which of a
  target only the name is seen.

Design notes: a portrait shows a state without numbers, and shows of the targets of its transitions
what `look` makes of their name and of whether they can move on without an event.  Outlines look at
the name alone; an isomorphism also keeps the other, which is where the two part.
-/
import ChainAutomata.Proofs.OutlineOrder
import ChainAutomata.Proofs.Search
import Mathlib.Data.List.Nodup
import Mathlib.Data.Multiset.Basic
import Mathlib.Data.Set.Function

universe u v w

namespace ChainAutomata

variable {ε : Type u} {δ : Type v} {φ : Type w}

/-! ### Isomorphisms -/

namespace Automaton

/-- A map of positions that makes one automaton into the other. -/
structure Isomorphism (a : Automaton ε) (b : Automaton δ) (f : Nat → Nat) : Prop where
  bijective : Set.BijOn f {i | i < a.size} {i | i < b.size}
  start : f a.start = b.start
  final : f a.final = b.final
  role : ∀ i s s', a.state? i = some s → b.state? (f i) = some s' → s.role = s'.role
  name : ∀ i s s', a.state? i = some s → b.state? (f i) = some s' → s.name = s'.name
  /-- What the transitions of a state do and where they lead, each as often. -/
  transitions : ∀ i s s', a.state? i = some s → b.state? (f i) = some s' →
    (s.transitions.map fun t => (t.action, f t.target)).Perm
      (s'.transitions.map fun t => (t.action, t.target))

/-- The automata are the same but for the numbering of states, the order of transitions and the
conditions. -/
def Isomorphic (a : Automaton ε) (b : Automaton δ) : Prop := ∃ f, a.Isomorphism b f

end Automaton

/-- A state without its own number and without its conditions. -/
def State.bare (s : State ε) : Role × String × List (Action × Nat) :=
  (s.role, s.name, s.transitions.map fun t => (t.action, t.target))

namespace Automaton

variable {a : Automaton ε} {b : Automaton δ}

/-- Automata that differ in conditions alone are isomorphic by the identity. -/
theorem isomorphic_of_map_bare_eq (hstates : a.states.map State.bare = b.states.map State.bare)
    (hstart : a.start = b.start) (hfinal : a.final = b.final) : a.Isomorphic b := by
  have hsize : a.size = b.size := by
    simpa only [size, List.length_map] using congrArg List.length hstates
  have hbare : ∀ i s s', a.state? i = some s → b.state? i = some s' → s.bare = s'.bare := by
    intro i s s' hs hs'
    have hi : (a.states.map State.bare)[i]? = (b.states.map State.bare)[i]? := by rw [hstates]
    rw [List.getElem?_map, List.getElem?_map] at hi
    rw [show a.states[i]? = some s from hs, show b.states[i]? = some s' from hs'] at hi
    exact Option.some_inj.mp hi
  refine ⟨id, ?_⟩
  constructor
  case bijective =>
    rw [hsize]
    exact Set.bijOn_id _
  case start => exact hstart
  case final => exact hfinal
  case role =>
    intro i s s' hs hs'
    exact congrArg (fun x => x.1) (hbare i s s' hs hs')
  case name =>
    intro i s s' hs hs'
    exact congrArg (fun x => x.2.1) (hbare i s s' hs hs')
  case transitions =>
    intro i s s' hs hs'
    exact .of_eq (congrArg (fun x => x.2.2) (hbare i s s' hs hs'))

end Automaton

/-! ### Portraits -/

/-- A state without its number. -/
structure Portrait (φ : Type w) where
  role : Role
  name : String
  /-- The transitions in no order, by action and what is seen of the target. -/
  edges : Multiset (Action × φ)

/-- What is seen of a state that a transition leads to. -/
def State.face (look : String → Bool → φ) (s : State ε) : φ := look s.name s.movesOn

/-- The look that outlines take: the name alone. -/
def nameOnly (name : String) (_ : Bool) : String := name

namespace Automaton

variable (look : String → Bool → φ)

/-- The edges of a state, as far as they are seen. -/
def sights (a : Automaton ε) (s : State ε) : List (Action × φ) :=
  s.transitions.filterMap fun t => (a.target? t).map fun target => (t.action, target.face look)

/-- An edge as it is seen, given the number of the state that it leads to. -/
def sightOf? (a : Automaton ε) (e : Action × Nat) : Option (Action × φ) :=
  ((a.state? e.2).map (State.face look)).map fun x => (e.1, x)

def portrait (a : Automaton ε) (s : State ε) : Portrait φ := ⟨s.role, s.name, a.sights look s⟩

def portraits (a : Automaton ε) : List (Portrait φ) := a.states.map (a.portrait look)

variable {look} {a : Automaton ε} {b : Automaton δ}

theorem sights_eq_filterMap (a : Automaton ε) (s : State ε) :
    a.sights look s =
      (s.transitions.map fun t => (t.action, t.target)).filterMap (a.sightOf? look) := by
  rw [sights, List.filterMap_map]
  refine List.filterMap_congr fun t _ => ?_
  rw [Function.comp_apply, sightOf?, Option.map_map]
  rfl

namespace Isomorphism

variable {f : Nat → Nat}

theorem state?_isSome (h : a.Isomorphism b f) {i : Nat} {s : State ε} (hs : a.state? i = some s) :
    ∃ s', b.state? (f i) = some s' :=
  exists_state?_of_lt (h.bijective.mapsTo (lt_size_of_state? hs))

theorem movesOn_eq (h : a.Isomorphism b f) {i : Nat} {s : State ε} {s' : State δ}
    (hs : a.state? i = some s) (hs' : b.state? (f i) = some s') : s.movesOn = s'.movesOn := by
  have hactions := ((h.transitions i s s' hs hs').map Prod.fst).mem_iff (a := Action.proceed)
  rw [List.map_map, List.map_map] at hactions
  rw [Bool.eq_iff_iff, State.movesOn_eq_true_iff, State.movesOn_eq_true_iff]
  simpa [List.mem_map] using hactions

/-- A state and its image look the same from a transition that leads to them. -/
theorem face_eq (h : a.Isomorphism b f) {i : Nat} (hi : i < a.size) :
    (a.state? i).map (State.face look) = (b.state? (f i)).map (State.face look) := by
  obtain ⟨s, hs⟩ := exists_state?_of_lt hi
  obtain ⟨s', hs'⟩ := h.state?_isSome hs
  rw [hs, hs', Option.map_some, Option.map_some, State.face, State.face,
    h.name i s s' hs hs', h.movesOn_eq hs hs']

/-- A state and its image have the same portrait. -/
theorem portrait_eq (h : a.Isomorphism b f) (hclosed : a.Closed) {i : Nat} {s : State ε}
    {s' : State δ} (hs : a.state? i = some s) (hs' : b.state? (f i) = some s') :
    a.portrait look s = b.portrait look s' := by
  -- what is seen of the edges of the first state can be looked up in the second automaton
  have hleft : a.sights look s =
      (s.transitions.map fun t => (t.action, f t.target)).filterMap (b.sightOf? look) := by
    rw [sights_eq_filterMap, List.filterMap_map, List.filterMap_map]
    refine List.filterMap_congr fun t ht => ?_
    rw [Function.comp_apply, Function.comp_apply, sightOf?, sightOf?,
      h.face_eq (hclosed i s hs t ht)]
  rw [portrait, portrait, h.role i s s' hs hs', h.name i s s' hs hs', hleft, sights_eq_filterMap]
  exact congrArg _ (Multiset.coe_eq_coe.mpr ((h.transitions i s s' hs hs').filterMap _))

/-- The positions of the second automaton are the images of those of the first. -/
theorem map_range_perm (h : a.Isomorphism b f) :
    ((List.range a.size).map f).Perm (List.range b.size) := by
  have hnodup : ((List.range a.size).map f).Nodup := by
    refine List.Nodup.map_on ?_ List.nodup_range
    intro i hi j hj hij
    exact h.bijective.injOn (List.mem_range.mp hi) (List.mem_range.mp hj) hij
  rw [List.perm_ext_iff_of_nodup hnodup List.nodup_range]
  intro j
  rw [List.mem_map, List.mem_range]
  constructor
  · rintro ⟨i, hi, rfl⟩
    exact h.bijective.mapsTo (List.mem_range.mp hi)
  · intro hj
    obtain ⟨i, hi, hij⟩ := h.bijective.surjOn hj
    exact ⟨i, List.mem_range.mpr hi, hij⟩

end Isomorphism

theorem map_some_portraits (a : Automaton ε) :
    (a.portraits look).map some =
      (List.range a.size).map fun i => (a.state? i).map (a.portrait look) := by
  -- every position of the range is one of a state, so nothing is lost in the lookups
  refine List.ext_getElem (by simp [portraits, size]) fun i hi _ => ?_
  have hi : i < a.states.length := by simpa [portraits] using hi
  simp [portraits, state?, hi]

/-- **Isomorphic automata have the same portraits**, however closely one looks. -/
theorem Isomorphic.portraits_perm (h : a.Isomorphic b) (hclosed : a.Closed) :
    (a.portraits look).Perm (b.portraits look) := by
  obtain ⟨f, hf⟩ := h
  rw [← List.map_perm_map_iff (Option.some_injective (Portrait φ)), map_some_portraits,
    map_some_portraits]
  have himage : ((List.range a.size).map fun i => (a.state? i).map (a.portrait look)) =
      ((List.range a.size).map f).map fun j => (b.state? j).map (b.portrait look) := by
    rw [List.map_map]
    refine List.map_congr_left fun i hi => ?_
    obtain ⟨s, hs⟩ := exists_state?_of_lt (List.mem_range.mp hi)
    obtain ⟨s', hs'⟩ := hf.state?_isSome hs
    rw [Function.comp_apply, hs, hs', Option.map_some, Option.map_some,
      hf.portrait_eq hclosed hs hs']
  rw [himage]
  exact hf.map_range_perm.map _

end Automaton

/-! ### Outlines as portraits -/

/-- The portrait that an outline of a state gives. -/
def StateOutline.portrait (o : StateOutline) : Portrait String := ⟨o.role, o.name, o.edges⟩

/-- The outline of a state from its portrait. -/
def Portrait.outline (p : Portrait String) : StateOutline :=
  ⟨p.role, p.name, Quotient.liftOn p.edges Edge.sort fun _ _ h => Edge.sort_eq_sort_iff.mpr h⟩

namespace Automaton

variable {a : Automaton ε} {b : Automaton δ}

theorem sights_nameOnly (a : Automaton ε) (s : State ε) :
    a.sights nameOnly s = (a.unfold s).map fun p => (p.2, p.1) := by
  rw [sights, unfold, List.map_filterMap]
  refine List.filterMap_congr fun t _ => ?_
  rw [Option.map_map]
  rfl

theorem portrait_outlineState (a : Automaton ε) (s : State ε) :
    (a.outlineState s).portrait = a.portrait nameOnly s := by
  rw [outlineState, StateOutline.portrait, portrait, sights_nameOnly]
  exact congrArg _ (Multiset.coe_eq_coe.mpr (Edge.sort_perm _))

theorem outline_portrait (a : Automaton ε) (s : State ε) :
    (a.portrait nameOnly s).outline = a.outlineState s := by
  rw [portrait, sights_nameOnly]
  rfl

/-- An outline shows the portraits in which of a target only the name is seen. -/
theorem outline_eq_iff_portraits_perm :
    a.outline = b.outline ↔ (a.portraits nameOnly).Perm (b.portraits nameOnly) := by
  rw [outline_eq_iff_perm]
  constructor
  · intro h
    have := h.map StateOutline.portrait
    simpa only [portraits, List.map_map, Function.comp_def, portrait_outlineState] using this
  · intro h
    have := h.map Portrait.outline
    simpa only [portraits, List.map_map, Function.comp_def, outline_portrait] using this

end Automaton

end ChainAutomata
