/-
Events are consumed deterministically.

An element that skips skips what it would not take.  So in no state of a compiled pattern can an event
both be taken and be skipped; in the states of a relaxed element it is one of the two, and in those of
a strict one it is taken or leads nowhere:

* `Step.answers_of_mem_block` — the transitions of one state on which an event can be consumed;
* `Automaton.Resolute` — there is never more than one of them;
* `Automaton.Legible.eq_of_moves` — then two runs over the same events differ only in when they move
  on without one;
* `one_answer_per_event` — all of this for the automaton of a pattern.

Design notes: the two states of a repeated element differ in where they lead, not in what they do
with an event, so that one lemma about a block covers every state of it.
-/
import ChainAutomata.Proofs.Unambiguity

universe u

namespace ChainAutomata

open Automaton

variable {ε : Type u}

/-- The transition looks at the event, and its condition holds of it. -/
def Transition.admits (t : Transition ε) (e : ε) : Bool := t.condition.any fun c => c.holds e

/-- The transitions of a state on which an event can be consumed. -/
def State.answers (s : State ε) (e : ε) : List (Transition ε) :=
  s.transitions.filter fun t => t.admits e

theorem State.mem_answers_of_holds {s : State ε} {t : Transition ε} {c : Condition ε} {e : ε}
    (ht : t ∈ s.transitions) (hc : t.condition = some c) (he : c.holds e = true) :
    t ∈ s.answers e := by
  rw [answers, List.mem_filter, Transition.admits, hc]
  exact ⟨ht, he⟩

/-! ### One block -/

namespace Step

variable {step : Step ε} {role : Role} {k next : Nat} {s : State ε}

/-- An event is skipped, if at all, exactly when it would not be taken. -/
theorem filter_admits_skips (step : Step ε) (target : Nat) (e : ε) :
    (step.skips target).filter (fun t => t.admits e) =
      if step.demand.holds e then [] else step.skips target := by
  rw [skips]
  cases step.strictness with
  | strict => simp
  | relaxed => cases hd : step.demand.holds e <;> simp [Transition.admits, refusal, hd]

/-- A state of an element takes an event that meets the demand, and skips any other if the element
skips at all. -/
theorem answers_of_mem_block (h : s ∈ step.block role k next) (e : ε) :
    ∃ target, s.answers e =
      if step.demand.holds e then [⟨.take, target, some step.demand⟩] else step.skips k := by
  have hwaiting : ∀ r target, (step.waiting r k target).answers e =
      if step.demand.holds e then [⟨.take, target, some step.demand⟩] else step.skips k := by
    intro r target
    rw [State.answers, waiting, List.filter_cons, filter_admits_skips]
    cases hd : step.demand.holds e <;> simp [Transition.admits, hd]
  rcases step.block_cases role k next with ⟨-, hblock⟩ | ⟨-, r, r', hblock⟩
  · rw [hblock, List.mem_singleton] at h
    exact h ▸ ⟨next, hwaiting role next⟩
  · rw [hblock, List.mem_pair] at h
    rcases h with rfl | rfl
    · exact ⟨k + 1, hwaiting r (k + 1)⟩
    · -- what moves on carries no condition
      refine ⟨k + 1, ?_⟩
      rw [State.answers, resting, List.filter_cons, List.filter_append, filter_admits_skips]
      cases hd : step.demand.holds e <;> simp [Transition.admits, hd]

/-- What is done with an event depends on the demand alone. -/
theorem action_of_mem_answers (h : s ∈ step.block role k next) {e : ε} {t : Transition ε}
    (ht : t ∈ s.answers e) : t.action = if step.demand.holds e then .take else .ignore := by
  obtain ⟨target, hanswers⟩ := answers_of_mem_block h e
  rw [hanswers] at ht
  split at ht
  · rw [List.mem_singleton.mp ht]
    simp [*]
  · rw [eq_of_mem_skips ht]
    simp [*]

theorem length_skips (step : Step ε) (target : Nat) :
    (step.skips target).length = if step.strictness = .relaxed then 1 else 0 := by
  rw [skips]
  cases step.strictness <;> rfl

theorem length_answers_of_mem_block (h : s ∈ step.block role k next) (e : ε) :
    (s.answers e).length = if step.demand.holds e ∨ step.strictness = .relaxed then 1 else 0 := by
  obtain ⟨target, hanswers⟩ := answers_of_mem_block h e
  rw [hanswers]
  cases step.demand.holds e <;> simp [length_skips]

end Step

/-! ### Runs over the same events -/

namespace Automaton

variable {a : Automaton ε} {i j j' : StateId} {hops hops' : List (Hop ε)}
variable {u u' : List (ε × Label)}

/-- In no state can an event be consumed in two ways. -/
def Resolute (a : Automaton ε) : Prop :=
  ∀ i s, a.state? i = some s → ∀ e, (s.answers e).length ≤ 1

theorem Resolute.eq_of_mem_answers (ha : a.Resolute) {s : State ε} (hs : a.state? i = some s)
    {t t' : Transition ε} {e : ε} (ht : t ∈ s.answers e) (ht' : t' ∈ s.answers e) : t = t' := by
  have hone : (s.answers e).length = 1 :=
    Nat.le_antisymm (ha i s hs e) (List.length_pos_of_mem ht)
  obtain ⟨x, hx⟩ := List.length_eq_one_iff.mp hone
  rw [hx, List.mem_singleton] at ht ht'
  rw [ht, ht']

/-- **The choice of when to move on without an event decides a run.** -/
theorem Legible.eq_of_moves (ha : a.Legible) (hresolute : a.Resolute) (htrail : a.Trail i hops j)
    (htrail' : a.Trail i hops' j') (hreads : a.Reads hops u) (hreads' : a.Reads hops' u')
    (hevents : u.map Prod.fst = u'.map Prod.fst)
    (hmoves : hops.map (fun h => h.action == .proceed) =
      hops'.map (fun h => h.action == .proceed)) : hops = hops' := by
  -- hop by hop: the two runs are in one state, and either both move on or both consume the next event
  induction hops generalizing i hops' u u' with
  | nil => exact (List.map_eq_nil_iff.mp hmoves.symm).symm
  | cons h hops ih =>
    cases hops' with
    | nil => simp at hmoves
    | cons h' hops' =>
      obtain ⟨hsource, hoffers, hrest⟩ := htrail
      obtain ⟨hsource', hoffers', hrest'⟩ := htrail'
      have hsame : h.source = h'.source := hsource.trans hsource'.symm
      obtain ⟨hmove, hbehind⟩ := List.cons_eq_cons.mp hmoves
      rcases hreads with ⟨haction, hreads⟩ | ⟨haction, s, c, e, v, hs, hc, he, rfl, hreads⟩ <;>
        rcases hreads' with
          ⟨haction', hreads'⟩ | ⟨haction', s', c', e', v', hs', hc', he', rfl, hreads'⟩
      case inl.inl =>
        obtain rfl := ha.hop_eq hoffers hoffers' hsame (haction.trans haction'.symm)
        rw [ih hrest hrest' hreads hreads' hevents hbehind]
      case inl.inr =>
        exact absurd hmove (by simp [haction, haction'])
      case inr.inl =>
        exact absurd hmove (by simp [haction, haction'])
      case inr.inr =>
        obtain ⟨rfl, hlater⟩ := List.cons_eq_cons.mp hevents
        obtain rfl : s = s' := by
          rw [hsame, hs'] at hs
          exact (Option.some_inj.mp hs).symm
        have hmem : h.transition ∈ s.answers e :=
          State.mem_answers_of_holds (hoffers.mem_transitions hs) hc he
        have hmem' : h'.transition ∈ s.answers e :=
          State.mem_answers_of_holds (hoffers'.mem_transitions hs') hc' he'
        have htransition := hresolute.eq_of_mem_answers hs hmem hmem'
        obtain rfl := ha.hop_eq hoffers hoffers' hsame (congrArg Transition.action htransition)
        rw [ih hrest hrest' hreads hreads' hlater hbehind]

end Automaton

/-! ### Compiled patterns -/

namespace Pattern

variable {p : Pattern ε} {finalName : String}

theorem resolute_automaton (p : Pattern ε) (finalName : String) :
    (p.automaton finalName).Resolute := by
  intro i s hs e
  rcases owner_of_state? hs with ⟨-, rfl⟩ | ⟨x, -, j, -, hj⟩
  · simp [State.answers]
  · rw [Step.length_answers_of_mem_block (List.mem_of_getElem? hj)]
    split <;> simp

end Pattern

/-- **Events are consumed deterministically.**  In each state of a compiled pattern an event can be
consumed on at most one transition: on exactly one in the states of a relaxed element, and in those of
a strict one just if the element takes the event.  So two runs that consume the same events from the
same state, and move on at the same times without one, are the same run. -/
theorem one_answer_per_event {settings : Settings} {p : Pattern ε} {a : Automaton ε}
    (h : (compile settings p).1 = .ok a) :
    (∀ i s, a.state? i = some s → ∀ e, (s.answers e).length ≤ 1) ∧
    (∀ i s, a.state? i = some s → i ≠ a.final →
      (∃ x ∈ p.placed, x.Owns i) ∧ ∀ x ∈ p.placed, x.Owns i → ∀ e,
        (x.step.strictness = .relaxed → (s.answers e).length = 1) ∧
        (x.step.strictness = .strict →
          ((s.answers e).length = 1 ↔ x.step.demand.holds e = true)) ∧
        ∀ t ∈ s.answers e, t.action = if x.step.demand.holds e then .take else .ignore) ∧
    ∀ i j j' hops hops' u u', a.Trail i hops j → a.Reads hops u →
      a.Trail i hops' j' → a.Reads hops' u' → u.map Prod.fst = u'.map Prod.fst →
      hops.map (fun h => h.action == .proceed) = hops'.map (fun h => h.action == .proceed) →
      hops = hops' := by
  obtain ⟨-, hdistinct, rfl⟩ := compile_eq_ok_iff.mp h
  have hresolute := p.resolute_automaton settings.finalName
  refine ⟨hresolute, ?_, ?_⟩
  · intro i s hs hfinal
    constructor
    · rcases Pattern.owner_of_state? hs with ⟨hzero, -⟩ | ⟨x, hx, j, rfl, hj⟩
      · exact absurd hzero hfinal
      · exact ⟨x, hx, Placed.owns_of_getElem? hj⟩
    · intro x hx howns e
      have hmem := Pattern.mem_states_of_owns hx howns hs
      have hlength := Step.length_answers_of_mem_block hmem e
      refine ⟨fun hrelaxed => ?_, fun hstrict => ?_, fun t ht => Step.action_of_mem_answers hmem ht⟩
      · simp [hlength, hrelaxed]
      · simp [hlength, hstrict]
  · intro i j j' hops hops' u u' htrail hreads htrail' hreads' hevents hmoves
    exact (Pattern.legible_automaton hdistinct settings.finalName).eq_of_moves hresolute htrail htrail'
      hreads hreads' hevents hmoves

/-- An event, any number of small even numbers with others in between, and directly after them a five. -/
def evensThenFive : Pattern Nat :=
  .link (.link (.head { name := "any" }) .relaxed
      { name := "evens", type := some ⟨"Small", fun e => e < 10⟩,
        condition := some (.function fun e => (e % 2 == 0, [])), quantifier := .zeroOrMore })
    .strict { name := "five", condition := some (.function fun e => (e == 5, [])) }

/-- Both states of the element in the middle know what to do with every number; the last element
knows it of a five only. -/
theorem length_answers_evensThenFive :
    ∃ a loop rest five, (compile {} evensThenFive).1 = .ok a ∧
      a.state? 2 = some loop ∧ a.state? 3 = some rest ∧ a.state? 1 = some five ∧
      (∀ e, (loop.answers e).length = 1 ∧ (rest.answers e).length = 1) ∧
      ∀ e, (five.answers e).length = 1 ↔ e = 5 := by
  have hcompiles : (compile {} evensThenFive).1 = .ok (evensThenFive.automaton "$endState$") :=
    compile_of_nodup (by decide)
  obtain ⟨-, hanswers, -⟩ := one_answer_per_event hcompiles
  have hevens : (⟨_, .normal, 2, 1⟩ : Placed Nat) ∈ evensThenFive.placed :=
    List.mem_cons_of_mem _ List.mem_cons_self
  refine ⟨_, _, _, _, hcompiles, rfl, rfl, rfl, fun e => ⟨?_, ?_⟩, fun e => ?_⟩
  · exact (((hanswers 2 _ rfl (by decide)).2 _ hevens ⟨by decide, by decide⟩ e).1 rfl)
  · exact (((hanswers 3 _ rfl (by decide)).2 _ hevens ⟨by decide, by decide⟩ e).1 rfl)
  · rw [((hanswers 1 _ rfl (by decide)).2 _ List.mem_cons_self ⟨by decide, by decide⟩ e).2.1 rfl]
    exact beq_iff_eq

end ChainAutomata
