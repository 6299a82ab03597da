/-
Moving on without events.

A glide is a trail on which no event is consumed.  In a compiled pattern each of its hops leads into
the block of an element declared later, further down in the arena, so that a glide ends and comes to
no state twice.  It goes on as long as the entry of such a block can be left without an event, which is
the case for elements that may be left out:

* `Automaton.Glide`, `Automaton.FullGlide` — glides, and those that cannot be continued;
* `Pattern.target_lt_of_proceed` — a glide goes down;
* `Pattern.glidesFor_continuation` — how far it goes from where an element leads;
* `glides_end` — the glides of a compiled pattern.

Design notes: how far a glide goes from what comes after some elements is an induction on these
elements from the first declared one on, since that is the one whose entry is met first.
-/
import ChainAutomata.Proofs.Arena
import ChainAutomata.Proofs.Unambiguity

universe u

namespace ChainAutomata

open Automaton

variable {ε : Type u}

/-! ### Glides -/

namespace Automaton

/-- A trail on which no event is consumed. -/
def Glide (a : Automaton ε) (i : StateId) (hops : List (Hop ε)) (j : StateId) : Prop :=
  a.Trail i hops j ∧ ∀ h ∈ hops, h.action = .proceed

/-- A glide that cannot be continued. -/
def FullGlide (a : Automaton ε) (i : StateId) (hops : List (Hop ε)) : Prop :=
  ∃ j, a.Glide i hops j ∧ ∀ s, a.state? j = some s → s.movesOn = false

/-- There is a full glide from a position, and each one has this many hops. -/
def GlidesFor (a : Automaton ε) (i : StateId) (n : Nat) : Prop :=
  (∃ hops, a.FullGlide i hops) ∧ ∀ hops, a.FullGlide i hops → hops.length = n

variable {a : Automaton ε} {i j next : StateId} {s : State ε} {h : Hop ε}
variable {hops hops' : List (Hop ε)}

theorem glide_cons_iff : a.Glide i (h :: hops) j ↔
    (h.source = i ∧ a.Offers h ∧ h.action = .proceed) ∧ a.Glide h.target hops j := by
  simp only [Glide, Trail, List.forall_mem_cons]
  tauto

theorem fullGlide_cons_iff : a.FullGlide i (h :: hops) ↔
    (h.source = i ∧ a.Offers h ∧ h.action = .proceed) ∧ a.FullGlide h.target hops := by
  simp only [FullGlide, glide_cons_iff, and_assoc, exists_and_left]

/-- Where a state can be left without an event, a full glide does so. -/
theorem FullGlide.movesOn_eq_false (hfull : a.FullGlide i []) (hs : a.state? i = some s) :
    s.movesOn = false := by
  obtain ⟨j, ⟨htrail, -⟩, hstops⟩ := hfull
  obtain rfl : i = j := htrail
  exact hstops s hs

theorem Offers.movesOn (hoffers : a.Offers h) (haction : h.action = .proceed)
    (hs : a.state? h.source = some s) : s.movesOn = true :=
  State.movesOn_eq_true_iff.mpr ⟨_, hoffers.mem_transitions hs, haction⟩

theorem not_fullGlide_nil (hoffers : a.Offers h) (haction : h.action = .proceed) :
    ¬ a.FullGlide h.source [] := by
  intro hfull
  have ⟨s, hs, _⟩ := hoffers
  exact absurd (hfull.movesOn_eq_false hs) (by simp [hoffers.movesOn haction hs])

theorem glidesFor_zero (hs : a.state? i = some s) (hstays : s.movesOn = false) :
    a.GlidesFor i 0 := by
  constructor
  · refine ⟨[], i, ⟨rfl, by simp⟩, fun s' hs' => ?_⟩
    rw [hs, Option.some_inj] at hs'
    exact hs' ▸ hstays
  · intro hops hfull
    cases hops with
    | nil => rfl
    | cons h hops =>
      obtain ⟨⟨rfl, hoffers, haction⟩, -⟩ := fullGlide_cons_iff.mp hfull
      exact absurd (hoffers.movesOn haction hs) (by simp [hstays])

theorem glidesFor_succ {n : Nat} (hs : a.state? i = some s) (hmoves : s.movesOn = true)
    (hnext : ∀ t ∈ s.transitions, t.action = .proceed → t.target = next)
    (hrest : a.GlidesFor next n) : a.GlidesFor i (n + 1) := by
  obtain ⟨⟨rest, hfull⟩, hlength⟩ := hrest
  constructor
  · obtain ⟨t, ht, haction⟩ := State.movesOn_eq_true_iff.mp hmoves
    obtain ⟨h, rfl, rfl, hoffers⟩ := exists_hop_of_mem hs ht
    have hnext' : h.target = next := hnext _ ht haction
    exact ⟨h :: rest, fullGlide_cons_iff.mpr ⟨⟨rfl, hoffers, haction⟩, hnext'.symm ▸ hfull⟩⟩
  · intro hops hfull'
    cases hops with
    | nil => exact absurd (hfull'.movesOn_eq_false hs) (by simp [hmoves])
    | cons h hops =>
      obtain ⟨⟨rfl, hoffers, haction⟩, hbehind⟩ := fullGlide_cons_iff.mp hfull'
      have hnext' : h.target = next := hnext _ (hoffers.mem_transitions hs) haction
      rw [List.length_cons, hlength hops (hnext' ▸ hbehind)]

/-- With one transition for each action there is one way to glide. -/
theorem Legible.fullGlide_unique (ha : a.Legible) (hfull : a.FullGlide i hops)
    (hfull' : a.FullGlide i hops') : hops = hops' := by
  induction hops generalizing i hops' with
  | nil =>
    cases hops' with
    | nil => rfl
    | cons h' hops' =>
      obtain ⟨⟨rfl, hoffers, haction⟩, -⟩ := fullGlide_cons_iff.mp hfull'
      exact absurd hfull (not_fullGlide_nil hoffers haction)
  | cons h hops ih =>
    obtain ⟨⟨hsource, hoffers, haction⟩, hrest⟩ := fullGlide_cons_iff.mp hfull
    cases hops' with
    | nil => exact absurd (hsource ▸ hfull') (not_fullGlide_nil hoffers haction)
    | cons h' hops' =>
      obtain ⟨⟨hsource', hoffers', haction'⟩, hrest'⟩ := fullGlide_cons_iff.mp hfull'
      obtain rfl := ha.hop_eq hoffers hoffers' (hsource.trans hsource'.symm)
        (haction.trans haction'.symm)
      rw [ih hrest hrest']

end Automaton

/-! ### One block -/

/-- The entry of an element can be left without an event if the element may be left out. -/
theorem Placed.movesOn_entry {x : Placed ε} {a : Automaton ε} {s : State ε}
    (hspans : a.Spans x.position x.states) (hs : a.state? x.entry = some s) :
    s.movesOn = decide (x.step.quantifier = .zeroOrMore) := by
  rw [entry, Step.entry] at hs
  rw [states, Step.block] at hspans
  cases hq : x.step.quantifier with
  | single =>
    rw [hq] at hs hspans
    obtain rfl := Option.some_inj.mp (hspans.head.symm.trans hs)
    exact Step.movesOn_waiting _ _ _ _
  | zeroOrMore =>
    rw [hq] at hs hspans
    obtain rfl := Option.some_inj.mp ((hspans 1 _ rfl).symm.trans hs)
    exact Step.movesOn_resting _ _ _ _
  | oneOrMore =>
    rw [hq] at hs hspans
    obtain rfl := Option.some_inj.mp (hspans.head.symm.trans hs)
    exact Step.movesOn_waiting _ _ _ _

/-! ### Compiled patterns -/

/-- The number of elements in a row that may be left out, directly after the element at a split whose
elements declared later, last one first, are these. -/
def optionalAfter (later : List (Step ε)) : Nat :=
  (later.reverse.takeWhile fun step => step.quantifier = .zeroOrMore).length

theorem optionalAfter_concat (later : List (Step ε)) (step : Step ε) :
    optionalAfter (later ++ [step]) =
      if step.quantifier = .zeroOrMore then optionalAfter later + 1 else 0 := by
  rw [optionalAfter, List.reverse_concat, List.takeWhile_cons]
  by_cases hq : step.quantifier = .zeroOrMore <;> simp [hq, optionalAfter]

namespace Pattern

variable {p : Pattern ε} {finalName : String} {i : Nat} {s : State ε}
variable {later earlier : List (Step ε)} {step : Step ε}

theorem target_lt_of_proceed (hs : (p.automaton finalName).state? i = some s) {t : Transition ε}
    (ht : t ∈ s.transitions) (haction : t.action = .proceed) : t.target < i := by
  rcases owner_of_state? hs with ⟨-, rfl⟩ | ⟨x, hx, j, rfl, hj⟩
  · simp at ht
  · rw [Step.target_of_proceed (List.mem_of_getElem? hj) ht haction]
    exact Nat.lt_of_lt_of_le (next_lt_position hx) (Nat.le_add_right _ _)

/-- Each hop of a glide goes down by one state at least. -/
theorem length_add_le_of_glide {j : Nat} {hops : List (Hop ε)}
    (hglide : (p.automaton finalName).Glide i hops j) : hops.length + j ≤ i := by
  induction hops generalizing i with
  | nil =>
    obtain rfl : i = j := hglide.1
    simp
  | cons h hops ih =>
    obtain ⟨⟨rfl, hoffers, haction⟩, hrest⟩ := glide_cons_iff.mp hglide
    have ⟨s, hs, _⟩ := hoffers
    have hlt : h.target < h.source :=
      target_lt_of_proceed hs (hoffers.mem_transitions hs) haction
    calc (h :: hops).length + j = hops.length + j + 1 := Nat.add_right_comm _ _ _
      _ ≤ h.target + 1 := Nat.succ_le_succ (ih hrest)
      _ ≤ h.source := hlt

/-- From a state of an element a full glide, if it moves at all, first goes to where the element
leads. -/
theorem glidesFor_of_owns {x : Placed ε} {n : Nat} (hx : x ∈ p.placed) (howns : x.Owns i)
    (hs : (p.automaton finalName).state? i = some s)
    (hnext : (p.automaton finalName).GlidesFor x.next n) :
    (p.automaton finalName).GlidesFor i (if s.movesOn then n + 1 else 0) := by
  have hmem := mem_states_of_owns hx howns hs
  cases hmoves : s.movesOn with
  | false => exact glidesFor_zero hs hmoves
  | true =>
    exact glidesFor_succ hs hmoves (fun t ht haction => Step.target_of_proceed hmem ht haction) hnext

theorem glidesFor_continuation (finalName : String) (h : p.steps = later ++ earlier) :
    (p.automaton finalName).GlidesFor (continuation later) (optionalAfter later) := by
  -- the element declared first among the later ones is the one that is entered
  induction later using List.reverseRecOn generalizing earlier with
  | nil => exact glidesFor_zero rfl rfl
  | append_singleton later step ih =>
    rw [List.append_assoc] at h
    have hx := mem_placed_of_split h
    obtain ⟨s, hs⟩ := exists_state?_of_owns finalName hx (Placed.owns_entry _)
    have hglides := glidesFor_of_owns hx (Placed.owns_entry _) hs (ih h)
    rw [Placed.movesOn_entry (spans_placed finalName hx) hs] at hglides
    simp only [decide_eq_true_eq] at hglides
    rw [continuation_concat, optionalAfter_concat]
    exact hglides

/-- From every state there is a full glide. -/
theorem exists_fullGlide (hi : i < (p.automaton finalName).size) :
    ∃ hops, (p.automaton finalName).FullGlide i hops := by
  obtain ⟨s, hs⟩ := exists_state?_of_lt hi
  rcases owner_of_state? hs with ⟨-, rfl⟩ | ⟨x, hx, j, rfl, hj⟩
  · exact (glidesFor_zero hs rfl).1
  · obtain ⟨later, step, earlier, hsplit, rfl⟩ := mem_placed_iff.mp hx
    exact (glidesFor_of_owns hx (Placed.owns_of_getElem? hj) hs
      (glidesFor_continuation finalName hsplit)).1

theorem countP_proceed_le_one (hs : (p.automaton finalName).state? i = some s) :
    s.transitions.countP (fun t => t.action = .proceed) ≤ 1 := by
  rcases owner_of_state? hs with ⟨-, rfl⟩ | ⟨x, -, j, -, hj⟩
  · simp
  · have hnodup := Step.nodup_actions_of_mem_block (List.mem_of_getElem? hj)
    have hcount := List.nodup_iff_count_le_one.mp hnodup .proceed
    rwa [List.count, List.countP_map] at hcount

end Pattern

/-- **Following transitions that consume nothing comes to an end.**  Each of them leads to a smaller id,
so that there are no cycles of them, and no state has two.  From a state of an element that has one, a
full glide has one hop more than there are elements in a row, directly after it, that may be left
out. -/
theorem glides_end {settings : Settings} {p : Pattern ε} {a : Automaton ε}
    (h : (compile settings p).1 = .ok a) :
    (∀ i s, a.state? i = some s → ∀ t ∈ s.transitions, t.action = .proceed → t.target < i) ∧
    (∀ i hops, a.Glide i hops i → hops = []) ∧
    (∀ i hops j, a.Glide i hops j → hops.length + j ≤ i) ∧
    (∀ i s, a.state? i = some s → s.transitions.countP (fun t => t.action = .proceed) ≤ 1) ∧
    (∀ i < a.size, ∃! hops, a.FullGlide i hops) ∧
    ∀ later step earlier, p.steps = later ++ step :: earlier →
      ∀ i s, positionAfter later ≤ i → i < positionAfter later + step.width →
        a.state? i = some s → ∀ hops, a.FullGlide i hops →
          hops.length = if s.movesOn then 1 + optionalAfter later else 0 := by
  obtain ⟨-, hdistinct, rfl⟩ := compile_eq_ok_iff.mp h
  refine ⟨fun i s hs t ht => Pattern.target_lt_of_proceed hs ht, ?_,
    fun i hops j => Pattern.length_add_le_of_glide,
    fun i s hs => Pattern.countP_proceed_le_one hs, ?_, ?_⟩
  · intro i hops hglide
    have := Pattern.length_add_le_of_glide hglide
    exact List.eq_nil_of_length_eq_zero (by omega)
  · intro i hi
    obtain ⟨hops, hfull⟩ := Pattern.exists_fullGlide hi
    exact ⟨hops, hfull, fun hops' hfull' =>
      (Pattern.legible_automaton hdistinct settings.finalName).fullGlide_unique hfull' hfull⟩
  · intro later step earlier hsplit i s hle hlt hs hops hfull
    have hglides := Pattern.glidesFor_of_owns (Pattern.mem_placed_of_split hsplit) ⟨hle, hlt⟩ hs
      (Pattern.glidesFor_continuation settings.finalName hsplit)
    rw [hglides.2 hops hfull, Nat.add_comm]

/-- One knock or more, then two elements that may be left out, then a last one. -/
def knocksThenLast : Pattern Nat :=
  .link (.link (.link (.head { name := "knock", quantifier := .oneOrMore })
        .strict { name := "pause", quantifier := .zeroOrMore })
      .relaxed { name := "answer", quantifier := .zeroOrMore })
    .strict { name := "last" }

/-- Once a knock has been taken, the last element is three hops away. -/
theorem length_fullGlide_knocksThenLast :
    ∃ a, (compile {} knocksThenLast).1 = .ok a ∧
      ∃ hops, a.FullGlide 7 hops ∧ hops.length = 3 := by
  have hcompiles : (compile {} knocksThenLast).1 = .ok (knocksThenLast.automaton "$endState$") :=
    compile_of_nodup (by decide)
  obtain ⟨-, -, -, -, hexists, hlength⟩ := glides_end hcompiles
  obtain ⟨hops, hfull, -⟩ := hexists 7 (by decide)
  exact ⟨_, hcompiles, hops, hfull,
    hlength [_, _, _] _ [] rfl 7 _ (by decide) (by decide) rfl hops hfull⟩

end ChainAutomata
