/-
Trails respect the chain of elements.

On the way from the start to the final state a trail goes through the blocks of all elements, in the
order in which they were declared.  It leaves the block of an element that takes one event by taking
it, and the block of a repeated element by moving on; whatever it ignored, it takes another event
before it leaves.

* `Passage` — how a trail goes through the block of one element;
* `exists_passages_of_trail` — a trail through a layout is made of passages;
* `exists_passage` — an element can be passed with as many events as its quantifier admits;
* `trails_pass_elements_in_order` — the trails of a compiled automaton.

Design notes: inside a block a trail is followed hop by hop, from any of its states, so the
induction is about a `WayOut` of the block, which is a passage from its entry.  From the waiting
state every way out takes an event.
-/
import ChainAutomata.Proofs.Placement
import ChainAutomata.Proofs.Trail
import Mathlib.Data.List.Forall2

universe u

namespace ChainAutomata

open Automaton

variable {ε : Type u}

/-! ### Ways out of a block -/

/-- How many events an element with this quantifier may take. -/
def Quantifier.Admits : Quantifier → Nat → Prop
  | .single, n => n = 1
  | .zeroOrMore, _ => True
  | .oneOrMore, n => 1 ≤ n

/-- What leads out of the block of an element. -/
def Step.exit (step : Step ε) : Action :=
  match step.quantifier with
  | .single => .take
  | .zeroOrMore | .oneOrMore => .proceed

/-- The number of events that are taken. -/
def takes (hops : List (Hop ε)) : Nat := hops.countP fun h => h.action == .take

/-- After an event is ignored, a later one is taken. -/
def Resumes (hops : List (Hop ε)) : Prop :=
  ∀ before h after, hops = before ++ h :: after → h.action = .ignore →
    ∃ h' ∈ after, h'.action = .take

/-- The hops lead from one state of a block out of it. -/
structure WayOut (a : Automaton ε) (x : Placed ε) (i : StateId) (hops : List (Hop ε)) : Prop where
  /-- They end in the state that the block leads into. -/
  trail : a.Trail i hops x.next
  /-- They leave states of the element only. -/
  stays : ∀ h ∈ hops, x.Owns h.source
  /-- The last one, and no other, does what leads out of the block. -/
  leaves : ∃ before last, hops = before ++ [last] ∧ last.action = x.step.exit ∧
    ∀ h ∈ before, h.action ≠ x.step.exit
  resumes : Resumes hops

/-- The hops lead through a block, from its entry, and take as many events as the element admits. -/
structure Passage (a : Automaton ε) (x : Placed ε) (hops : List (Hop ε)) : Prop
    extends WayOut a x x.entry hops where
  amount : x.step.quantifier.Admits (takes hops)

theorem resumes_cons_iff {h : Hop ε} {hops : List (Hop ε)} :
    Resumes (h :: hops) ↔
      (h.action = .ignore → ∃ h' ∈ hops, h'.action = .take) ∧ Resumes hops := by
  constructor
  · intro hr
    refine ⟨hr [] h hops rfl, ?_⟩
    rintro before h' after rfl
    exact hr (h :: before) h' after rfl
  · rintro ⟨hhead, hrest⟩ before h' after heq
    cases before with
    | nil =>
      obtain ⟨rfl, rfl⟩ := List.cons_eq_cons.mp heq
      exact hhead
    | cons b before =>
      obtain ⟨rfl, rfl⟩ := List.cons_eq_cons.mp heq
      exact hrest before h' after rfl

theorem Step.exit_ne_ignore (step : Step ε) : step.exit ≠ .ignore := by
  rw [exit]
  cases step.quantifier <;> simp

theorem Step.exit_of_single {step : Step ε} (h : step.quantifier = .single) :
    step.exit = .take := by
  rw [exit, h]

theorem Step.exit_of_looping {step : Step ε} (h : step.quantifier.isLooping) :
    step.exit = .proceed := by
  rw [exit]
  cases hq : step.quantifier <;> simp_all [Quantifier.isLooping]

variable {a : Automaton ε} {x : Placed ε} {i : StateId} {h : Hop ε} {hops : List (Hop ε)}

namespace WayOut

theorem singleton (hsource : h.source = i) (hoffers : a.Offers h) (howns : x.Owns i)
    (htarget : h.target = x.next) (hexit : h.action = x.step.exit) : WayOut a x i [h] := by
  constructor
  case trail => exact ⟨hsource, hoffers, htarget⟩
  case stays =>
    intro h' hmem
    rw [List.mem_singleton.mp hmem, hsource]
    exact howns
  case leaves => exact ⟨[], h, rfl, hexit, by simp⟩
  case resumes =>
    rw [resumes_cons_iff]
    constructor
    · intro hignore
      exact absurd (hexit.symm.trans hignore) x.step.exit_ne_ignore
    · intro before h' after heq
      exact absurd heq (by simp)

theorem cons (hsource : h.source = i) (hoffers : a.Offers h) (howns : x.Owns i)
    (hstay : h.action ≠ x.step.exit) (hresume : h.action = .ignore → ∃ h' ∈ hops, h'.action = .take)
    (hway : WayOut a x h.target hops) : WayOut a x i (h :: hops) := by
  constructor
  case trail => exact ⟨hsource, hoffers, hway.trail⟩
  case stays =>
    intro h' hmem
    rcases List.mem_cons.mp hmem with rfl | hmem
    · rw [hsource]
      exact howns
    · exact hway.stays h' hmem
  case leaves =>
    obtain ⟨before, last, rfl, hexit, hbefore⟩ := hway.leaves
    refine ⟨h :: before, last, rfl, hexit, ?_⟩
    intro h' hmem
    rcases List.mem_cons.mp hmem with rfl | hmem
    · exact hstay
    · exact hbefore h' hmem
  case resumes => exact resumes_cons_iff.mpr ⟨hresume, hway.resumes⟩

end WayOut

/-! ### Passages -/

/-- What can be followed inside a block: its exit, a further event taken, or one ignored. -/
theorem hop_cases (hspans : a.Spans x.position x.states) (howns : x.Owns h.source)
    (hoffers : a.Offers h) :
    (h.action = x.step.exit ∧ h.target = x.next ∧
        (x.step.quantifier.isLooping → h.source = x.position + 1)) ∨
      (h.action = .take ∧ x.step.quantifier.isLooping ∧ h.target = x.position + 1) ∨
      (h.action = .ignore ∧ h.target = x.position) := by
  obtain ⟨s, hs, hplace⟩ := hoffers
  have hmem := List.mem_of_getElem? hplace
  obtain ⟨hle, hlt⟩ := howns
  rw [Hop.action, Hop.target]
  rcases x.single_or_looping with hq | hq
  · rw [Placed.states_of_single hq] at hspans
    rw [Placed.width_of_single hq] at hlt
    have hsource : h.source = x.position := Nat.le_antisymm (Nat.lt_succ_iff.mp hlt) hle
    rw [hsource, hspans.head, Option.some_inj] at hs
    subst hs
    rcases Step.eq_of_mem_waiting hmem with ht | ht
    · rw [ht, Step.exit_of_single hq]
      refine Or.inl ⟨rfl, rfl, fun hlooping => ?_⟩
      rw [hq] at hlooping
      exact absurd hlooping (by simp [Quantifier.isLooping])
    · rw [ht]
      exact Or.inr (Or.inr ⟨rfl, rfl⟩)
  · obtain ⟨r, r', hstates⟩ := Placed.states_of_looping hq
    rw [hstates] at hspans
    rw [Placed.width_of_looping hq] at hlt
    rw [Step.exit_of_looping hq]
    rcases Nat.eq_or_lt_of_le hle with hsource | hgt
    · rw [← hsource, hspans.head, Option.some_inj] at hs
      subst hs
      rcases Step.eq_of_mem_waiting hmem with ht | ht
      · rw [ht]
        exact Or.inr (Or.inl ⟨rfl, hq, rfl⟩)
      · rw [ht]
        exact Or.inr (Or.inr ⟨rfl, rfl⟩)
    · have hsource : h.source = x.position + 1 := Nat.le_antisymm (Nat.lt_succ_iff.mp hlt) hgt
      rw [hsource, hspans 1 _ rfl, Option.some_inj] at hs
      subst hs
      rcases Step.eq_of_mem_resting hmem with ht | ht | ht
      · rw [ht]
        exact Or.inr (Or.inl ⟨rfl, hq, rfl⟩)
      · rw [ht]
        exact Or.inr (Or.inr ⟨rfl, rfl⟩)
      · rw [ht]
        exact Or.inl ⟨rfl, rfl, fun _ => hsource⟩

/-- A trail to a state below the block goes through what is left of it, and from the waiting state it
takes an event on the way. -/
theorem exists_wayOut (hspans : a.Spans x.position x.states) {j : StateId} (hj : j < x.position) :
    ∀ {i : StateId} {hops : List (Hop ε)}, x.Owns i → a.Trail i hops j →
      ∃ part rest, hops = part ++ rest ∧ WayOut a x i part ∧
        (i = x.position → ∃ h ∈ part, h.action = .take) ∧ a.Trail x.next rest j := by
  intro i hops
  -- hop by hop, until one leaves the block; a hop that stays is put before the way out of the rest
  induction hops generalizing i with
  | nil =>
    intro howns htrail
    obtain rfl : i = j := htrail
    exact absurd hj (Nat.not_lt.mpr howns.1)
  | cons h hops ih =>
    rintro howns ⟨rfl, hoffers, hrest⟩
    rcases hop_cases hspans howns hoffers with
      ⟨hexit, htarget, hlooping⟩ | ⟨htake, hq, htarget⟩ | ⟨hignore, htarget⟩
    · refine ⟨[h], hops, rfl, .singleton rfl hoffers howns htarget hexit, ?_, htarget ▸ hrest⟩
      intro hsource
      refine ⟨h, List.mem_singleton_self h, ?_⟩
      -- a repeated element is not left from its waiting state
      rcases x.single_or_looping with hq | hq
      · rw [hexit, Step.exit_of_single hq]
      · exact absurd (hsource.symm.trans (hlooping hq)) (Nat.ne_of_lt (Nat.lt_succ_self _))
    · have hownsTarget : x.Owns h.target := by
        rw [htarget]
        exact Placed.owns_resting hq
      obtain ⟨part, rest, rfl, hway, -, htrail⟩ := ih hownsTarget hrest
      have hstay : h.action ≠ x.step.exit := by
        rw [htake, Step.exit_of_looping hq]
        simp
      have hresume : h.action = .ignore → ∃ h' ∈ part, h'.action = .take := by
        rw [htake]
        simp
      refine ⟨h :: part, rest, rfl, .cons rfl hoffers howns hstay hresume hway, ?_, htrail⟩
      exact fun _ => ⟨h, List.mem_cons_self, htake⟩
    · have hownsTarget : x.Owns h.target := by
        rw [htarget]
        exact ⟨Nat.le_refl _, Nat.lt_of_le_of_lt howns.1 howns.2⟩
      obtain ⟨part, rest, rfl, hway, htakes, htrail⟩ := ih hownsTarget hrest
      have hstay : h.action ≠ x.step.exit := by
        rw [hignore]
        exact x.step.exit_ne_ignore.symm
      obtain ⟨h', hmem, htake⟩ := htakes htarget
      refine ⟨h :: part, rest, rfl, .cons rfl hoffers howns hstay (fun _ => ⟨h', hmem, htake⟩) hway, ?_,
        htrail⟩
      exact fun _ => ⟨h', List.mem_cons_of_mem _ hmem, htake⟩

theorem takes_pos {hops : List (Hop ε)} (h : ∃ h ∈ hops, h.action = .take) : 1 ≤ takes hops := by
  obtain ⟨h, hmem, htake⟩ := h
  exact List.countP_pos_iff.mpr ⟨h, hmem, beq_iff_eq.mpr htake⟩

/-- An element that takes one event is left by the only hop that takes one. -/
theorem WayOut.takes_of_single (hway : WayOut a x i hops)
    (hq : x.step.quantifier = .single) : takes hops = 1 := by
  obtain ⟨before, last, rfl, hexit, hbefore⟩ := hway.leaves
  rw [Step.exit_of_single hq] at hexit hbefore
  have hnone : before.countP (fun h => h.action == .take) = 0 := by
    rw [List.countP_eq_zero]
    intro h hmem htake
    exact hbefore h hmem (beq_iff_eq.mp htake)
  rw [takes, List.countP_append, hnone, List.countP_singleton, hexit]
  rfl

/-- A trail that enters a block goes through it. -/
theorem exists_passage_of_trail (hspans : a.Spans x.position x.states) {j : StateId}
    (hj : j < x.position) (htrail : a.Trail x.entry hops j) :
    ∃ part rest, hops = part ++ rest ∧ Passage a x part ∧ a.Trail x.next rest j := by
  obtain ⟨part, rest, rfl, hway, htakes, hrest⟩ := exists_wayOut hspans hj x.owns_entry htrail
  refine ⟨part, rest, rfl, ⟨hway, ?_⟩, hrest⟩
  cases hq : x.step.quantifier with
  | single => exact hway.takes_of_single hq
  | zeroOrMore => trivial
  | oneOrMore =>
    have hentry : x.entry = x.position := by rw [Placed.entry, Step.entry, hq]
    exact takes_pos (htakes hentry)

theorem takes_cons_of_take (htake : h.action = .take) : takes (h :: hops) = takes hops + 1 := by
  rw [takes, List.countP_cons, htake]
  rfl

/-- From the resting state of a repeated element any number of events can be taken on the way out. -/
theorem exists_wayOut_of_takes (hspans : a.Spans x.position x.states)
    (hq : x.step.quantifier.isLooping) (n : Nat) :
    ∃ hops, WayOut a x (x.position + 1) hops ∧ takes hops = n := by
  obtain ⟨r, r', hstates⟩ := Placed.states_of_looping hq
  rw [hstates] at hspans
  have hresting := hspans 1 _ rfl
  have howns := Placed.owns_resting hq
  have hexit := Step.exit_of_looping hq
  induction n with
  | zero =>
    -- the last transition of the resting state moves on
    obtain ⟨⟨_, place, _⟩, rfl, rfl, hoffers⟩ :=
      exists_hop_of_mem (t := ⟨.proceed, x.next, none⟩) hresting (by simp [Step.resting])
    exact ⟨[_], .singleton rfl hoffers howns rfl hexit.symm, rfl⟩
  | succ n ih =>
    obtain ⟨hops, hway, htakes⟩ := ih
    obtain ⟨⟨_, place, _⟩, rfl, rfl, hoffers⟩ := exists_hop_of_mem hresting List.mem_cons_self
    refine ⟨_ :: hops, .cons rfl hoffers howns ?_ ?_ hway, ?_⟩
    · rw [hexit]
      simp [Hop.action]
    · simp [Hop.action]
    · rw [takes_cons_of_take rfl, htakes]

/-- Every number of events that the quantifier admits is taken on some passage. -/
theorem exists_passage (hspans : a.Spans x.position x.states) {n : Nat}
    (hn : x.step.quantifier.Admits n) : ∃ hops, Passage a x hops ∧ takes hops = n := by
  cases hq : x.step.quantifier with
  | single =>
    rw [hq] at hn
    have hentry : x.entry = x.position := by rw [Placed.entry, Step.entry, hq]
    have hstates := hspans
    rw [Placed.states_of_single hq] at hstates
    obtain ⟨⟨_, place, _⟩, rfl, rfl, hoffers⟩ :=
      exists_hop_of_mem hstates.head List.mem_cons_self
    have hway : WayOut a x x.position [_] :=
      .singleton rfl hoffers (hentry ▸ x.owns_entry) rfl (Step.exit_of_single hq).symm
    refine ⟨_, ⟨hentry ▸ hway, ?_⟩, hn ▸ rfl⟩
    rw [hq]
    rfl
  | zeroOrMore =>
    have hentry : x.entry = x.position + 1 := by rw [Placed.entry, Step.entry, hq]
    have hlooping : x.step.quantifier.isLooping := by rw [hq]; rfl
    obtain ⟨hops, hway, htakes⟩ := exists_wayOut_of_takes hspans hlooping n
    refine ⟨hops, ⟨hentry ▸ hway, ?_⟩, htakes⟩
    rw [hq]
    trivial
  | oneOrMore =>
    rw [hq] at hn
    have hentry : x.entry = x.position := by rw [Placed.entry, Step.entry, hq]
    have hlooping : x.step.quantifier.isLooping := by rw [hq]; rfl
    -- the first event is taken from the waiting state, all others from the resting one
    obtain ⟨m, rfl⟩ := Nat.exists_eq_add_of_le' hn
    obtain ⟨hops, hway, htakes⟩ := exists_wayOut_of_takes hspans hlooping m
    obtain ⟨r, r', hstates⟩ := Placed.states_of_looping hlooping
    rw [hstates] at hspans
    obtain ⟨⟨_, place, _⟩, rfl, rfl, hoffers⟩ := exists_hop_of_mem hspans.head List.mem_cons_self
    have hstay : Action.take ≠ x.step.exit := by
      rw [Step.exit_of_looping hlooping]
      simp
    have hway' : WayOut a x x.position (_ :: hops) :=
      .cons rfl hoffers (hentry ▸ x.owns_entry) hstay (by simp [Hop.action]) hway
    refine ⟨_, ⟨hentry ▸ hway', ?_⟩, ?_⟩
    · rw [hq, takes_cons_of_take rfl, htakes]
      exact hn
    · rw [takes_cons_of_take rfl, htakes]

/-! ### Trails through a layout -/

/-- A trail through a layout is made of one passage for each element; the blocks are laid out last
element first, so the passages come in the opposite order. -/
theorem exists_passages_of_trail {j : StateId} {steps : List (Step ε)} :
    ∀ {k next : Nat} {hops : List (Hop ε)}, j < k → a.Spans k (layout k next steps) →
      a.Trail (entryOf k next steps) hops j →
      ∃ parts rest, hops = parts.reverse.flatten ++ rest ∧
        List.Forall₂ (Passage a) (placements k next steps) parts ∧ a.Trail next rest j := by
  induction steps with
  | nil => exact fun _ _ htrail => ⟨[], _, rfl, .nil, htrail⟩
  | cons step rest ih =>
    intro k next hops hj hspans htrail
    obtain ⟨hblock, hrest⟩ := hspans.layout_cons
    obtain ⟨parts, behind, rfl, hparts, hbehind⟩ := ih (Nat.lt_add_right _ hj) hrest htrail
    obtain ⟨part, behind, rfl, hpart, hbehind⟩ :=
      exists_passage_of_trail (x := ⟨step, entryRole rest, k, next⟩) hblock hj hbehind
    refine ⟨part :: parts, behind, ?_, .cons hpart hparts, hbehind⟩
    simp

theorem trail_of_passages {steps : List (Step ε)} :
    ∀ {k next : Nat} {parts : List (List (Hop ε))},
      List.Forall₂ (Passage a) (placements k next steps) parts →
      a.Trail (entryOf k next steps) parts.reverse.flatten next := by
  induction steps with
  | nil =>
    intro k next parts h
    cases h
    rfl
  | cons step rest ih =>
    intro k next parts h
    obtain ⟨part, parts, hpart, hparts, rfl⟩ := List.forall₂_cons_left_iff.mp h
    rw [List.reverse_cons, List.flatten_append, List.flatten_singleton]
    exact (ih hparts).append hpart.trail

theorem exists_passages_of_counts {xs : List (Placed ε)} {counts : List Nat}
    (hspans : ∀ x ∈ xs, a.Spans x.position x.states)
    (hcounts : List.Forall₂ (fun x n => x.step.quantifier.Admits n) xs counts) :
    ∃ parts, List.Forall₂ (Passage a) xs parts ∧ parts.map takes = counts := by
  induction hcounts with
  | nil => exact ⟨[], .nil, rfl⟩
  | cons hn _ ih =>
    obtain ⟨part, hpart, htakes⟩ := exists_passage (hspans _ List.mem_cons_self) hn
    obtain ⟨parts, hparts, hcounts⟩ := ih fun x hx => hspans x (List.mem_cons_of_mem _ hx)
    refine ⟨part :: parts, .cons hpart hparts, ?_⟩
    rw [List.map_cons, htakes, hcounts]

/-! ### Compiled patterns -/

namespace Pattern

variable {p : Pattern ε} {finalName : String}

/-- Every state but the final one belongs to one element. -/
theorem existsUnique_owner {i : StateId} (hi : i < (p.automaton finalName).size) (hne : i ≠ 0) :
    ∃! x, x ∈ p.placed ∧ x.Owns i := by
  obtain ⟨s, hs⟩ := exists_state?_of_lt hi
  rcases owner_of_state? hs with ⟨hzero, -⟩ | ⟨x, hx, j, rfl, hj⟩
  · exact absurd hzero hne
  · have howns := Placed.owns_of_getElem? hj
    exact ⟨x, ⟨hx, howns⟩, fun y ⟨hy, hyi⟩ => owner_unique hy hx hyi howns⟩

/-- The trails from the start to the final state are the passages of the elements, first element
first. -/
theorem trail_automaton_iff {hops : List (Hop ε)} :
    (p.automaton finalName).Trail (p.automaton finalName).start hops 0 ↔
      ∃ parts, hops = parts.flatten ∧
        List.Forall₂ (Passage (p.automaton finalName)) p.placed.reverse parts := by
  constructor
  · intro htrail
    obtain ⟨parts, rest, rfl, hparts, hrest⟩ :=
      exists_passages_of_trail Nat.zero_lt_one (p.automaton_spans finalName) htrail
    refine ⟨parts.reverse, ?_, List.forall₂_reverse_iff.mpr hparts⟩
    -- nothing leaves the final state
    cases rest with
    | nil => rw [List.append_nil]
    | cons h rest =>
      obtain ⟨hsource, ⟨s, hs, hplace⟩, -⟩ := hrest
      rw [hsource] at hs
      rw [(p.wellFormed_automaton finalName).final_stops s hs] at hplace
      simp at hplace
  · rintro ⟨parts, rfl, hparts⟩
    rw [← List.reverse_reverse parts] at hparts ⊢
    exact trail_of_passages (List.forall₂_reverse_iff.mp hparts)

end Pattern

/-- **Every trail respects the chain.**  The states of a compiled automaton, the final one apart,
belong to one element each.  The trails from the start to the final state are what comes of one
passage through each element, in the order of declaration.  The elements take as many events as
their quantifiers admit, and any such numbers of events are taken on some trail. -/
theorem trails_pass_elements_in_order {settings : Settings} {p : Pattern ε} {a : Automaton ε}
    (h : (compile settings p).1 = .ok a) :
    (∀ i < a.size, i ≠ a.final → ∃! x, x ∈ p.placed ∧ x.Owns i) ∧
    (∀ hops, a.Trail a.start hops a.final ↔
      ∃ parts, hops = parts.flatten ∧ List.Forall₂ (Passage a) p.placed.reverse parts) ∧
    ∀ counts, List.Forall₂ (fun x n => x.step.quantifier.Admits n) p.placed.reverse counts →
      ∃ parts, List.Forall₂ (Passage a) p.placed.reverse parts ∧ parts.map takes = counts := by
  obtain ⟨-, -, rfl⟩ := compile_eq_ok_iff.mp h
  refine ⟨fun i hi hne => Pattern.existsUnique_owner hi hne,
    fun hops => Pattern.trail_automaton_iff, ?_⟩
  intro counts hcounts
  refine exists_passages_of_counts ?_ hcounts
  intro x hx
  exact Pattern.spans_placed settings.finalName (List.mem_reverse.mp hx)

/-- A search, any number of clicks, and at least one purchase. -/
def searchThenBuy : Pattern Nat :=
  .link (.link (.head { name := "search" }) .relaxed { name := "click", quantifier := .zeroOrMore })
    .strict { name := "buy", quantifier := .oneOrMore }

/-- An element in the middle is passed without an event, and the last one with three. -/
theorem exists_trail_searchThenBuy :
    ∃ (a : Automaton Nat) (parts : List (List (Hop Nat))), (compile {} searchThenBuy).1 = .ok a ∧
      a.Trail a.start parts.flatten a.final ∧ parts.map takes = [1, 0, 3] := by
  have hcompiles : (compile {} searchThenBuy).1 = .ok (searchThenBuy.automaton "$endState$") :=
    compile_of_nodup (by decide)
  obtain ⟨-, htrails, hcounts⟩ := trails_pass_elements_in_order hcompiles
  have hadmits : List.Forall₂ (fun (x : Placed Nat) n => x.step.quantifier.Admits n)
      searchThenBuy.placed.reverse [1, 0, 3] :=
    .cons rfl (.cons trivial (.cons (by decide : 1 ≤ 3) .nil))
  obtain ⟨parts, hparts, htakes⟩ := hcounts _ hadmits
  exact ⟨_, parts, hcompiles, (htrails _).mpr ⟨parts, rfl, hparts⟩, htakes⟩

end ChainAutomata
