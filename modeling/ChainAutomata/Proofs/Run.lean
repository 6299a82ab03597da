/-
Runs of an automaton over events.

A run follows transitions from state to state.  A transition that takes or ignores consumes the
next event and needs its condition to hold of it; one that proceeds consumes nothing.  What a run
shows of an event is a label: the name of the state in which it was consumed, and the action.

* `Automaton.Run` — from one position to another over events with their labels;
* `Automaton.languageFrom`, `Automaton.language` — what the runs that end in the final state
  consume, from a position and from the start;
* `Automaton.mem_languageFrom_iff` — a run that ends in the final state is over, or its first
  transition is one of the state it is in.

Design notes: a run is recorded as one word whose letters are pairs of an event and its label, so
that the runs of an automaton are a language in the sense of Mathlib and its algebra applies.
-/
import ChainAutomata.Automaton
import Mathlib.Computability.Language

universe u

namespace ChainAutomata

/-- What a run shows of an event: the name of the state that consumed it, and the action. -/
abbrev Label := String × Action

/-- The words of labels that a language has for a list of events. -/
def wordsOf {ε : Type u} (l : Language (ε × Label)) (events : List ε) : Set (List Label) :=
  {w | ∃ u ∈ l, u.map Prod.fst = events ∧ u.map Prod.snd = w}

namespace Automaton

variable {ε : Type u} {a : Automaton ε}

/-- The automaton gets from one position to another while it consumes events with these labels. -/
inductive Run (a : Automaton ε) : StateId → List (ε × Label) → StateId → Prop where
  | stop (i : StateId) : Run a i [] i
  /-- The next event is taken or ignored, and the condition for it holds. -/
  | consume {i j : StateId} {s : State ε} {t : Transition ε} {c : Condition ε} {e : ε}
      {u : List (ε × Label)} (state : a.state? i = some s) (edge : t ∈ s.transitions)
      (action : t.action ≠ .proceed) (condition : t.condition = some c) (holds : c.holds e = true)
      (rest : Run a t.target u j) : Run a i ((e, s.name, t.action) :: u) j
  /-- No event is consumed. -/
  | proceed {i j : StateId} {s : State ε} {t : Transition ε} {u : List (ε × Label)}
      (state : a.state? i = some s) (edge : t ∈ s.transitions) (action : t.action = .proceed)
      (rest : Run a t.target u j) : Run a i u j

/-- What is consumed on the way from a position to the final state. -/
def languageFrom (a : Automaton ε) (i : StateId) : Language (ε × Label) := {u | a.Run i u a.final}

/-- What the accepting runs consume. -/
def language (a : Automaton ε) : Language (ε × Label) := a.languageFrom a.start

/-- Some accepting run consumes exactly these events. -/
def Accepts (a : Automaton ε) (events : List ε) : Prop :=
  ∃ u ∈ a.language, u.map Prod.fst = events

/-- What a transition out of a state with this name contributes to the language of the state. -/
def languageVia (a : Automaton ε) (name : String) (t : Transition ε) : Language (ε × Label) :=
  {u | (t.action ≠ .proceed ∧ ∃ c e v, t.condition = some c ∧ c.holds e = true ∧
      v ∈ a.languageFrom t.target ∧ u = (e, name, t.action) :: v) ∨
    (t.action = .proceed ∧ u ∈ a.languageFrom t.target)}

/-- The events of which a condition holds, each consumed alone under one label. -/
def letters (label : Label) (c : Condition ε) : Language (ε × Label) :=
  {u | ∃ e, c.holds e = true ∧ u = [(e, label)]}

theorem languageVia_consume {name : String} {action : Action} (haction : action ≠ .proceed)
    (target : StateId) (c : Condition ε) :
    a.languageVia name ⟨action, target, some c⟩ =
      letters (name, action) c * a.languageFrom target := by
  ext u
  rw [Language.mem_mul]
  constructor
  · rintro (⟨-, c', e, v, hc, he, hv, rfl⟩ | ⟨hproceed, -⟩)
    · obtain rfl : c = c' := Option.some_inj.mp hc
      exact ⟨[(e, name, action)], ⟨e, he, rfl⟩, v, hv, rfl⟩
    · exact absurd hproceed haction
  · rintro ⟨_, ⟨e, he, rfl⟩, v, hv, rfl⟩
    exact Or.inl ⟨haction, c, e, v, rfl, he, hv, rfl⟩

theorem languageVia_proceed (name : String) (target : StateId) :
    a.languageVia name ⟨.proceed, target, none⟩ = a.languageFrom target := by
  ext u
  constructor
  · rintro (⟨haction, -⟩ | ⟨-, hu⟩)
    · exact absurd rfl haction
    · exact hu
  · exact fun hu => Or.inr ⟨rfl, hu⟩

theorem mem_languageFrom_iff {i : StateId} {s : State ε} (hs : a.state? i = some s)
    {u : List (ε × Label)} :
    u ∈ a.languageFrom i ↔
      (i = a.final ∧ u = []) ∨ ∃ t ∈ s.transitions, u ∈ a.languageVia s.name t := by
  constructor
  · intro h
    cases h with
    | stop => exact Or.inl ⟨rfl, rfl⟩
    | consume state edge action condition holds rest =>
      rw [hs, Option.some_inj] at state
      subst state
      exact Or.inr ⟨_, edge, Or.inl ⟨action, _, _, _, condition, holds, rest, rfl⟩⟩
    | proceed state edge action rest =>
      rw [hs, Option.some_inj] at state
      subst state
      exact Or.inr ⟨_, edge, Or.inr ⟨action, rest⟩⟩
  · rintro (⟨rfl, rfl⟩ | ⟨t, ht, ⟨haction, c, e, v, hc, he, hv, rfl⟩ | ⟨haction, hu⟩⟩)
    · exact .stop _
    · exact .consume hs ht haction hc he hv
    · exact .proceed hs ht haction hu

/-- The language of a state that is not the final one is that of its transitions together. -/
theorem languageFrom_eq_of_ne {i : StateId} {s : State ε} (hs : a.state? i = some s)
    (hi : i ≠ a.final) : a.languageFrom i = (s.transitions.map (a.languageVia s.name)).sum := by
  have hsum : ∀ (ts : List (Transition ε)) (u : List (ε × Label)),
      u ∈ (ts.map (a.languageVia s.name)).sum ↔ ∃ t ∈ ts, u ∈ a.languageVia s.name t := by
    intro ts u
    induction ts with
    | nil => simp
    | cons t ts ih =>
      rw [List.map_cons, List.sum_cons, Language.mem_add, ih]
      simp
  ext u
  rw [mem_languageFrom_iff hs, hsum]
  simp [hi]

/-- A final state that nothing leaves accepts when nothing is left to consume. -/
theorem languageFrom_final {s : State ε} (hs : a.state? a.final = some s)
    (hstops : s.transitions = []) : a.languageFrom a.final = 1 := by
  ext u
  rw [mem_languageFrom_iff hs, hstops, Language.mem_one]
  simp

end Automaton

end ChainAutomata
