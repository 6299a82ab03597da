/-
How a draft grows by elements.

An element is added to whatever is there, and may be told to continue anywhere.  Nothing that was
there changes, and the new states know of nothing but each other and the place to continue in:

* `Step.subject_of_mem_calls` — the calls that add an element are about its own states;
* `Step.flatMap_links_block` — the transitions of a block are the same wherever it leads, but for
  one, which leads there;
* `Draft.states_prefix_addSteps` — later elements are added behind earlier ones;
* `addStep_only_appends` — all of it, for any draft.

Design notes: whether a transition leads on is a matter of its place, not of the number it leads to,
since the number to continue in may be one that the new states are about to get.  So the transitions
besides the way out are given before that number is.
-/
import ChainAutomata.Proofs.Placement

universe u

namespace ChainAutomata

variable {ε : Type u}

/-! ### Calls -/

namespace Step

/-- A call that changes a state is about a state of the block. -/
theorem subject_of_mem_calls {step : Step ε} {k next : Nat} {c : Draft.Call ε}
    (hc : c ∈ step.calls k next) {id : StateId} (hid : id ∈ c.subject?) :
    id ∈ List.range' k step.width := by
  have hskip : ∀ {source target}, c ∈ step.skipCalls source target → id = source := by
    intro source target hc
    rw [skipCalls] at hc
    cases hs : step.strictness with
    | strict => simp [hs] at hc
    | relaxed =>
      obtain rfl : c = .ignore source target step.refusal := by simpa [hs] using hc
      exact (Option.some_inj.mp hid).symm
  rw [List.mem_range'_1, width]
  rw [calls] at hc
  cases hq : step.quantifier with
  | single =>
    simp only [hq, List.mem_cons] at hc
    rcases hc with rfl | rfl | hc
    · exact absurd hid (Option.not_mem_none id)
    · simp [← Option.some_inj.mp hid]
    · simp [hskip hc]
  | _ =>
    simp only [hq, List.mem_cons, List.mem_append, List.not_mem_nil, or_false] at hc
    rcases hc with rfl | rfl | rfl | hc | rfl | hc | rfl
    · exact absurd hid (Option.not_mem_none id)
    · exact absurd hid (Option.not_mem_none id)
    · simp [← Option.some_inj.mp hid]
    · simp [hskip hc]
    · simp [← Option.some_inj.mp hid]
    · simp [hskip hc]
    · simp [← Option.some_inj.mp hid]

end Step

namespace Draft

theorem block_states_addStep (d : Draft ε) (step : Step ε) (next : StateId) :
    (d.addStep step next).2.states = List.range' d.size step.width := by
  rw [addStep_snd, Step.blockAt, Step.width]
  cases step.quantifier <;> rfl

end Draft

/-! ### Links -/

/-- A transition by the state that it leaves, what it does and where it leads. -/
abbrev Link := StateId × Action × StateId

/-- The transitions of a state, in order. -/
def State.links (s : State ε) : List Link := s.transitions.map fun t => (s.id, t.action, t.target)

namespace Step

/-- The transitions on refused events, on relaxed steps only. -/
def skipLinks (step : Step ε) (source target : Nat) : List Link :=
  match step.strictness with
  | .strict => []
  | .relaxed => [(source, .ignore, target)]

/-- The transition by which a block at `k` leads on. -/
def wayOut (step : Step ε) (k next : Nat) : Link :=
  match step.quantifier with
  | .single => (k, .take, next)
  | .zeroOrMore | .oneOrMore => (k + 1, .proceed, next)

/-- The transitions of a block at `k` before the one that leads on. -/
def linksBefore (step : Step ε) (k : Nat) : List Link :=
  match step.quantifier with
  | .single => []
  | .zeroOrMore | .oneOrMore =>
    (k, .take, k + 1) :: (step.skipLinks k k ++ (k + 1, .take, k + 1) :: step.skipLinks (k + 1) k)

/-- The transitions of a block at `k` behind the one that leads on. -/
def linksBehind (step : Step ε) (k : Nat) : List Link :=
  match step.quantifier with
  | .single => step.skipLinks k k
  | .zeroOrMore | .oneOrMore => []

variable {step : Step ε} {k next : Nat}

/-- Of the transitions of a block one leads on, and the others do not depend on where. -/
theorem flatMap_links_block (role : Role) :
    (step.block role k next).flatMap State.links =
      step.linksBefore k ++ step.wayOut k next :: step.linksBehind k := by
  rw [block, linksBefore, wayOut, linksBehind]
  simp only [skipLinks]
  cases step.quantifier <;> cases hs : step.strictness <;>
    simp [State.links, waiting, resting, skips, hs]

/-- The others stay in the block. -/
theorem target_of_mem_links {l : Link} (h : l ∈ step.linksBefore k ++ step.linksBehind k) :
    l.2.2 ∈ List.range' k step.width := by
  have hskip : ∀ {source target}, l ∈ step.skipLinks source target → l.2.2 = target := by
    intro source target hl
    rw [skipLinks] at hl
    cases hs : step.strictness <;> simp_all
  rw [List.mem_range'_1, width]
  rw [linksBefore, linksBehind] at h
  cases hq : step.quantifier with
  | single =>
    rw [hq] at h
    simp only [List.nil_append] at h
    rw [hskip h]
    simp
  | _ =>
    simp only [hq, List.append_nil, List.mem_cons, List.mem_append] at h
    rcases h with rfl | h | rfl | h
    · simp
    · simp [hskip h]
    · simp
    · simp [hskip h]

theorem map_id_block (step : Step ε) (role : Role) (k next : Nat) :
    (step.block role k next).map State.id = List.range' k step.width := by
  rw [block, width]
  cases step.quantifier <;> rfl

theorem role_of_mem_block {s : State ε} (h : s ∈ step.block .normal k next) : s.role = .normal := by
  obtain ⟨j, hj⟩ := List.mem_iff_getElem?.mp h
  rw [role_of_getElem?_block hj, ite_self]

end Step

/-! ### Elements in any order -/

namespace Draft

variable {d : Draft ε} {step : Step ε} {next : Nat} {added : List (State ε)}

/-- What adding an element does to a draft, given the states that it appends. -/
structure Appends (d : Draft ε) (step : Step ε) (next : StateId) (added : List (State ε)) :
    Prop where
  /-- Every state that was there stays as it is. -/
  states : (d.addStep step next).1.states = d.states ++ added
  ids : added.map State.id = List.range' d.size step.width
  /-- The block consists of the new states, in order. -/
  block : (d.addStep step next).2.states = added.map State.id
  entry : (d.addStep step next).2.entry ∈ added.map State.id
  named : ∀ s ∈ added, s.name = step.name ∧ s.role = .normal
  /-- One transition leads on, and is the same wherever it leads but for that … -/
  links : added.flatMap State.links =
    step.linksBefore d.size ++ step.wayOut d.size next :: step.linksBehind d.size
  /-- … and the others lead to new states. -/
  inside : ∀ l ∈ step.linksBefore d.size ++ step.linksBehind d.size, l.2.2 ∈ added.map State.id

theorem appends_block (d : Draft ε) (step : Step ε) (next : Nat) :
    d.Appends step next (step.block .normal d.size next) := by
  have hids := step.map_id_block .normal d.size next
  constructor
  case states => exact d.states_addStep step next
  case ids => exact hids
  case block => rw [hids, block_states_addStep]
  case entry =>
    rw [hids, entry_addStep, List.mem_range'_1]
    exact ⟨step.le_entry _, step.entry_lt _⟩
  case named => exact fun s hs => ⟨Step.name_of_mem_block hs, Step.role_of_mem_block hs⟩
  case links => exact Step.flatMap_links_block .normal
  case inside =>
    intro l hl
    rw [hids]
    exact Step.target_of_mem_links hl

/-- If the number to continue in is not that of a new state, one transition leads there. -/
theorem Appends.filter_links (h : d.Appends step next added) (hnext : next ∉ added.map State.id) :
    (added.flatMap State.links).filter (fun l => l.2.2 = next) = [step.wayOut d.size next] := by
  have hnone : ∀ ls ⊆ step.linksBefore d.size ++ step.linksBehind d.size,
      ls.filter (fun l : Link => l.2.2 = next) = [] := by
    intro ls hls
    rw [List.filter_eq_nil_iff]
    intro l hl htarget
    exact hnext (of_decide_eq_true htarget ▸ h.inside l (hls hl))
  have hout : (step.wayOut d.size next).2.2 = next := by
    rw [Step.wayOut]
    cases step.quantifier <;> rfl
  rw [h.links, List.filter_append, hnone _ (List.subset_append_left _ _),
    List.filter_cons_of_pos (by simp [hout]), hnone _ (List.subset_append_right _ _),
    List.nil_append]

/-- Adds elements one after the other, each continuing in a state of its own. -/
def addAll (d : Draft ε) (xs : List (Step ε × StateId)) : Draft ε :=
  xs.foldl (fun d x => (d.addStep x.1 x.2).1) d

theorem states_prefix_addAll (d : Draft ε) (xs : List (Step ε × StateId)) :
    d.states <+: (d.addAll xs).states := by
  induction xs generalizing d with
  | nil => exact List.prefix_refl _
  | cons x xs ih =>
    refine List.IsPrefix.trans ?_ (ih (d.addStep x.1 x.2).1)
    rw [states_addStep]
    exact List.prefix_append _ _

theorem states_prefix_addSteps (verbose : Bool) (d : Draft ε) (next : Nat)
    (steps : List (Step ε)) : d.states <+: (addSteps verbose d next steps).1.states := by
  induction steps generalizing d next with
  | nil => exact List.prefix_refl _
  | cons step rest ih =>
    rw [addSteps_cons]
    refine List.IsPrefix.trans ?_ (ih _ _)
    rw [states_addNoted]
    exact List.prefix_append _ _

theorem addSteps_append (verbose : Bool) (xs ys : List (Step ε)) (d : Draft ε) (next : Nat) :
    addSteps verbose d next (xs ++ ys) =
      addSteps verbose (addSteps verbose d next xs).1 (addSteps verbose d next xs).2 ys := by
  induction xs generalizing d next with
  | nil => rfl
  | cons x xs ih => rw [List.cons_append, addSteps_cons, addSteps_cons, ih]

end Draft

/-- **Adding an element only appends.**  Whatever is there and wherever the element is told to
continue, it is added by calls about its own states, all of which are there when they are called
for.  What was there stays as it is; behind it lie the new states, one or two by the quantifier,
which lead to each other but for the one transition that leads on.  Hence elements that are added
later leave the states of earlier ones in front of their own. -/
theorem addStep_only_appends (d : Draft ε) (step : Step ε) (next : StateId) :
    d.calls? (step.calls d.size next) = some (d.addStep step next).1 ∧
    (∀ c ∈ step.calls d.size next, ∀ id ∈ c.subject?, id ∈ (d.addStep step next).2.states) ∧
    (∃ added, d.Appends step next added ∧ (next ∉ added.map State.id →
      (added.flatMap State.links).filter (fun l => l.2.2 = next) = [step.wayOut d.size next])) ∧
    (∀ xs ys : List (Step ε × StateId), (d.addAll xs).states <+: (d.addAll (xs ++ ys)).states) ∧
    ∀ (verbose : Bool) (xs ys : List (Step ε)),
      (Draft.addSteps verbose d next xs).1.states <+:
        (Draft.addSteps verbose d next (xs ++ ys)).1.states := by
  have happends := d.appends_block step next
  refine ⟨d.calls?_calls step next, ?_, ⟨_, happends, happends.filter_links⟩, ?_, ?_⟩
  · intro c hc id hid
    rw [Draft.block_states_addStep]
    exact Step.subject_of_mem_calls hc hid
  · intro xs ys
    rw [Draft.addAll, Draft.addAll, List.foldl_append]
    exact Draft.states_prefix_addAll _ ys
  · intro verbose xs ys
    rw [Draft.addSteps_append]
    exact Draft.states_prefix_addSteps verbose _ _ ys

/-- A final state that moves on to nowhere. -/
def strayDraft : Draft Nat := (({} : Draft Nat).addState "done" .final).proceed 0 5

/-- One number or more, with others in between. -/
def several : Step Nat := ⟨.relaxed, { name := "several", quantifier := .oneOrMore }⟩

/-- An element behind a draft of no use, continuing in a state that does not exist. -/
theorem exists_appended_several :
    Draft.Call.proceed 2 9 ∈ several.calls 1 9 ∧ 2 ∈ (strayDraft.addStep several 9).2.states ∧
    ∃ added, strayDraft.Appends several 9 added ∧ 9 ∉ added.map State.id ∧
      (added.flatMap State.links).filter (fun l => l.2.2 = 9) = [(2, .proceed, 9)] := by
  obtain ⟨-, hsubjects, ⟨added, happends, hout⟩, -⟩ := addStep_only_appends strayDraft several 9
  have hcall : Draft.Call.proceed 2 9 ∈ several.calls 1 9 := List.mem_of_getElem? (i := 6) rfl
  have hnext : 9 ∉ added.map State.id := by
    rw [happends.ids]
    decide
  exact ⟨hcall, hsubjects _ hcall 2 rfl, added, happends, hnext, hout hnext⟩

end ChainAutomata
