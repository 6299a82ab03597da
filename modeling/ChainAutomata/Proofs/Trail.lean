/-
Trails through an automaton.

A trail is a way through the graph with all that was followed on it: of each transition the state
that it leaves and its place among the transitions of that state.  A trail is read along a list of
events when every transition on it that looks at an event can be followed on the next one.  So two
readings of the same events can be compared transition by transition.

* `Automaton.Trail`, `Automaton.Reads` — trails, and what is consumed along them;
* `Automaton.run_iff_exists_trail` — a run is a trail that is read;
* `Automaton.Legible.eq_of_labels` — when the labels of an accepting run give the run away.

Design notes: both relations are defined by recursion on the list of hops, so that the first hop is
taken off by definition wherever the trail starts.
-/
import ChainAutomata.Proofs.Run

universe u

namespace ChainAutomata

variable {ε : Type u}

/-- A transition that is followed. -/
structure Hop (ε : Type u) where
  /-- The state that it leaves. -/
  source : StateId
  /-- Its place among the transitions of that state. -/
  place : Nat
  transition : Transition ε

namespace Hop

def action (h : Hop ε) : Action := h.transition.action

def target (h : Hop ε) : StateId := h.transition.target

end Hop

namespace Automaton

/-- The state that a hop leaves has its transition at its place. -/
def Offers (a : Automaton ε) (h : Hop ε) : Prop :=
  ∃ s, a.state? h.source = some s ∧ s.transitions[h.place]? = some h.transition

/-- The hops lead from one position to another, each starting where the one before it ended;
conditions do not count. -/
def Trail (a : Automaton ε) : StateId → List (Hop ε) → StateId → Prop
  | i, [], j => i = j
  | i, h :: hs, j => h.source = i ∧ a.Offers h ∧ a.Trail h.target hs j

/-- Along the hops the events are consumed under their labels: by each hop that takes or ignores the
next one, for which its condition has to hold, and by no other. -/
def Reads (a : Automaton ε) : List (Hop ε) → List (ε × Label) → Prop
  | [], u => u = []
  | h :: hs, u =>
    (h.action = .proceed ∧ a.Reads hs u) ∨
      (h.action ≠ .proceed ∧ ∃ s c e v, a.state? h.source = some s ∧
        h.transition.condition = some c ∧ c.holds e = true ∧
        u = (e, s.name, h.action) :: v ∧ a.Reads hs v)

variable {a : Automaton ε} {i j k : StateId} {h h' : Hop ε} {hops hops' : List (Hop ε)}
variable {u u' : List (ε × Label)}

/-! ### Trails and runs -/

theorem Trail.append (h : a.Trail i hops j) (h' : a.Trail j hops' k) :
    a.Trail i (hops ++ hops') k := by
  induction hops generalizing i with
  | nil =>
    obtain rfl : i = j := h
    exact h'
  | cons hop hops ih =>
    obtain ⟨hsource, hoffers, hrest⟩ := h
    exact ⟨hsource, hoffers, ih hrest⟩

theorem exists_hop_of_mem {s : State ε} {t : Transition ε} (hs : a.state? i = some s)
    (ht : t ∈ s.transitions) : ∃ h : Hop ε, h.source = i ∧ h.transition = t ∧ a.Offers h := by
  obtain ⟨n, hn⟩ := List.mem_iff_getElem?.mp ht
  exact ⟨⟨i, n, t⟩, rfl, rfl, s, hs, hn⟩

theorem Offers.mem_transitions {s : State ε} (hoffers : a.Offers h) (hs : a.state? h.source = some s) :
    h.transition ∈ s.transitions := by
  obtain ⟨s', hs', hplace⟩ := hoffers
  obtain rfl : s' = s := Option.some_inj.mp (hs'.symm.trans hs)
  exact List.mem_of_getElem? hplace

/-- A run is a trail that is read. -/
theorem run_iff_exists_trail : a.Run i u j ↔ ∃ hops, a.Trail i hops j ∧ a.Reads hops u := by
  constructor
  · intro h
    induction h with
    | stop i => exact ⟨[], rfl, rfl⟩
    | consume state edge action condition holds _ ih =>
      obtain ⟨hops, htrail, hreads⟩ := ih
      obtain ⟨hop, rfl, rfl, hoffers⟩ := exists_hop_of_mem state edge
      exact ⟨hop :: hops, ⟨rfl, hoffers, htrail⟩,
        Or.inr ⟨action, _, _, _, _, state, condition, holds, rfl, hreads⟩⟩
    | proceed state edge action _ ih =>
      obtain ⟨hops, htrail, hreads⟩ := ih
      obtain ⟨hop, rfl, rfl, hoffers⟩ := exists_hop_of_mem state edge
      exact ⟨hop :: hops, ⟨rfl, hoffers, htrail⟩, Or.inl ⟨action, hreads⟩⟩
  · rintro ⟨hops, htrail, hreads⟩
    induction hops generalizing i u with
    | nil =>
      obtain rfl : i = j := htrail
      obtain rfl : u = [] := hreads
      exact .stop i
    | cons hop hops ih =>
      obtain ⟨rfl, ⟨s, hs, hplace⟩, hrest⟩ := htrail
      have hmem := List.mem_of_getElem? hplace
      rcases hreads with ⟨haction, hreads⟩ | ⟨haction, s', c, e, v, hs', hc, he, rfl, hreads⟩
      · exact .proceed hs hmem haction (ih hrest hreads)
      · obtain rfl : s' = s := Option.some_inj.mp (hs'.symm.trans hs)
        exact .consume hs hmem haction hc he (ih hrest hreads)

/-! ### Reading a run back from its labels -/

/-- What lets a run be read back from its labels. -/
structure Legible (a : Automaton ε) : Prop where
  /-- A state has at most one transition for each action. -/
  actions : ∀ i s, a.state? i = some s → (s.transitions.map Transition.action).Nodup
  /-- Nothing leaves the final state. -/
  stops : ∀ s, a.state? a.final = some s → s.transitions = []
  /-- Once a state has been left without an event, none is consumed under its name. -/
  onward : ∀ h s, a.Offers h → h.action = .proceed → a.state? h.source = some s →
    ∀ hops u, a.Trail h.target hops a.final → a.Reads hops u → ∀ x ∈ u, x.2.1 ≠ s.name

namespace Legible

theorem not_offers_final (ha : a.Legible) (hsource : h.source = a.final) : ¬ a.Offers h := by
  rintro ⟨s, hs, hplace⟩
  rw [hsource] at hs
  rw [ha.stops s hs] at hplace
  simp at hplace

/-- From one state there is one hop for each action. -/
theorem hop_eq (ha : a.Legible) (hh : a.Offers h) (hh' : a.Offers h')
    (hsource : h.source = h'.source) (haction : h.action = h'.action) : h = h' := by
  obtain ⟨s, hs, hplace⟩ := hh
  obtain ⟨s', hs', hplace'⟩ := hh'
  obtain rfl : s' = s := by
    rw [← hsource, hs] at hs'
    exact (Option.some_inj.mp hs').symm
  have hlookup : (s'.transitions.map Transition.action)[h.place]? =
      (s'.transitions.map Transition.action)[h'.place]? := by
    rw [List.getElem?_map, List.getElem?_map, hplace, hplace']
    exact congrArg some haction
  have hlt : h.place < (s'.transitions.map Transition.action).length := by
    rw [List.length_map]
    exact (List.getElem?_eq_some_iff.mp hplace).choose
  have hsame : h.place = h'.place := (List.getElem?_inj hlt (ha.actions _ _ hs)).mp hlookup
  have htransition : h.transition = h'.transition := by
    rw [hsame, hplace'] at hplace
    exact (Option.some_inj.mp hplace).symm
  cases h
  cases h'
  simp_all

/-- A run that moves on from a state does not show next what a run that stays would show. -/
theorem not_label_of_proceed (ha : a.Legible) {s : State ε} (hh : a.Offers h)
    (haction : h.action = .proceed) (hs : a.state? h.source = some s)
    (htrail : a.Trail h.target hops a.final) (hreads : a.Reads hops u) {act : Action}
    {w : List Label} : u.map Prod.snd ≠ (s.name, act) :: w := by
  intro hlabels
  cases u with
  | nil => simp at hlabels
  | cons x u =>
    obtain ⟨hx, -⟩ := List.cons_eq_cons.mp hlabels
    have hname := ha.onward h s hh haction hs hops _ htrail hreads x List.mem_cons_self
    exact hname (congrArg Prod.fst hx)

/-- **The labels of an accepting run give away every transition of it.** -/
theorem eq_of_labels (ha : a.Legible) (htrail : a.Trail i hops a.final)
    (htrail' : a.Trail i hops' a.final) (hreads : a.Reads hops u) (hreads' : a.Reads hops' u')
    (hlabels : u.map Prod.snd = u'.map Prod.snd) : hops = hops' := by
  induction hops generalizing i hops' u u' with
  | nil =>
    cases hops' with
    | nil => rfl
    | cons h' hops' =>
      obtain ⟨hsource, hoffers, -⟩ := htrail'
      exact absurd hoffers (ha.not_offers_final (hsource.trans htrail))
  | cons h hops ih =>
    cases hops' with
    | nil =>
      obtain ⟨hsource, hoffers, -⟩ := htrail
      exact absurd hoffers (ha.not_offers_final (hsource.trans htrail'))
    | cons h' hops' =>
      obtain ⟨hsource, hoffers, hrest⟩ := htrail
      obtain ⟨hsource', hoffers', hrest'⟩ := htrail'
      have hsame : h.source = h'.source := hsource.trans hsource'.symm
      -- either both runs do the same here, or one consumes an event under a name that the other
      -- has left behind
      rcases hreads with ⟨haction, hreads⟩ | ⟨haction, s, c, e, v, hs, hc, he, rfl, hreads⟩ <;>
        rcases hreads' with
          ⟨haction', hreads'⟩ | ⟨haction', s', c', e', v', hs', hc', he', rfl, hreads'⟩
      case inl.inl =>
        obtain rfl := ha.hop_eq hoffers hoffers' hsame (haction.trans haction'.symm)
        rw [ih hrest hrest' hreads hreads' hlabels]
      case inl.inr =>
        exact absurd hlabels
          (ha.not_label_of_proceed hoffers haction (hsame ▸ hs') hrest hreads)
      case inr.inl =>
        exact absurd hlabels.symm
          (ha.not_label_of_proceed hoffers' haction' (hsame ▸ hs) hrest' hreads')
      case inr.inr =>
        obtain ⟨hlabel, hbehind⟩ := List.cons_eq_cons.mp hlabels
        obtain rfl := ha.hop_eq hoffers hoffers' hsame (congrArg Prod.snd hlabel)
        rw [ih hrest hrest' hreads hreads' hbehind]

end Legible

end Automaton

end ChainAutomata
