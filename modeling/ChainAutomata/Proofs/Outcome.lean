/-
The outcome of a compilation.

The automaton of a pattern is well formed, whatever the elements and whatever the name of the final
state (`Pattern.wellFormed_automaton`).  So the audit of a compiled automaton never fails, and the
outcome depends on the final name and the pattern alone:

* `compile_of_distinct` — with a usable final name and distinct element names a pattern compiles to
  the automaton of its layout;
* `compile_eq_ok_iff` — nothing else compiles;
* `compile_outcome` — when each outcome occurs, and that no other one does.

Design notes: every fact about a layout is an induction on the elements whose step is a fact about
one block.  The paths to the final state go against the order of the arena: a block leads into the
entry of the block before it, so the induction carries a path from there.
-/
import ChainAutomata.Proofs.Layout
import ChainAutomata.Proofs.WellFormed

universe u

namespace ChainAutomata

variable {ε : Type u}

/-! ### One block -/

namespace Step

variable {step : Step ε} {role : Role} {k next : Nat}

theorem id_of_getElem?_block {j : Nat} {s : State ε}
    (h : (step.block role k next)[j]? = some s) : s.id = k + j := by
  rcases step.block_cases role k next with ⟨-, hblock⟩ | ⟨-, r, r', hblock⟩
  · rw [hblock] at h
    rcases j with _ | j
    · simp only [List.getElem?_cons_zero, Option.some_inj] at h
      exact h ▸ rfl
    · simp at h
  · rw [hblock] at h
    rcases j with _ | _ | j
    · simp only [List.getElem?_cons_zero, Option.some_inj] at h
      exact h ▸ rfl
    · simp only [List.getElem?_cons_succ, List.getElem?_cons_zero, Option.some_inj] at h
      exact h ▸ rfl
    · simp at h

/-- Only the entry of a block has the role given for it. -/
theorem role_of_getElem?_block {j : Nat} {s : State ε}
    (h : (step.block role k next)[j]? = some s) :
    s.role = if k + j = step.entry k then role else .normal := by
  rw [block] at h
  rw [entry]
  cases hq : step.quantifier <;> rw [hq] at h <;> rcases j with _ | _ | j <;> simp at h <;>
    subst h <;> simp [waiting, resting]

/-- The transitions of a block lead on or stay in it. -/
theorem target_of_mem_block {s : State ε} (h : s ∈ step.block role k next) :
    ∀ t ∈ s.transitions, t.target = next ∨ t.target < k + step.width := by
  intro t ht
  rcases step.block_cases role k next with ⟨hwidth, hblock⟩ | ⟨hwidth, r, r', hblock⟩
  · rw [hblock, List.mem_singleton] at h
    subst h
    rcases eq_of_mem_waiting ht with rfl | rfl
    · exact Or.inl rfl
    · exact Or.inr (by simp [hwidth])
  · rw [hblock, List.mem_pair] at h
    rcases h with rfl | rfl
    · rcases eq_of_mem_waiting ht with rfl | rfl <;> exact Or.inr (by simp [hwidth])
    · rcases eq_of_mem_resting ht with rfl | rfl | rfl
      · exact Or.inr (by simp [hwidth])
      · exact Or.inr (by simp [hwidth])
      · exact Or.inl rfl

theorem conditioned_of_mem_block {s : State ε} (h : s ∈ step.block role k next) :
    ∀ t ∈ s.transitions, t.condition.isSome ↔ t.action ≠ .proceed := by
  intro t ht
  rcases step.block_cases role k next with ⟨-, hblock⟩ | ⟨-, r, r', hblock⟩
  · rw [hblock, List.mem_singleton] at h
    subst h
    rcases eq_of_mem_waiting ht with rfl | rfl <;> simp
  · rw [hblock, List.mem_pair] at h
    rcases h with rfl | rfl
    · rcases eq_of_mem_waiting ht with rfl | rfl <;> simp
    · rcases eq_of_mem_resting ht with rfl | rfl | rfl <;> simp

/-- Each state of a block has a path to what the block leads into. -/
theorem path_of_spans_block {a : Automaton ε} (h : a.Spans k (step.block role k next)) :
    ∀ j < step.width, a.Path (k + j) next := by
  intro j hj
  rcases step.block_cases role k next with ⟨hwidth, hblock⟩ | ⟨hwidth, r, r', hblock⟩
  · rw [hblock] at h
    obtain rfl : j = 0 := by omega
    exact .single ⟨_, h.head, _, List.mem_cons_self, rfl⟩
  · rw [hblock] at h
    have hrest : a.Linked (k + 1) next :=
      ⟨_, h 1 _ rfl, ⟨.proceed, next, none⟩, by simp [resting], rfl⟩
    have hloop : a.Linked k (k + 1) := ⟨_, h.head, _, List.mem_cons_self, rfl⟩
    obtain rfl | rfl : j = 0 ∨ j = 1 := by omega
    · exact .head hloop (.single hrest)
    · exact .single hrest

end Step

/-! ### Whole layouts -/

theorem getElem?_layout_cons {k next j : Nat} {step : Step ε} {rest : List (Step ε)} {s : State ε}
    (h : (layout k next (step :: rest))[j]? = some s) :
    (j < step.width ∧ (step.block (entryRole rest) k next)[j]? = some s) ∨
      ∃ i, j = step.width + i ∧ (layout (k + step.width) (step.entry k) rest)[i]? = some s := by
  rw [layout, List.getElem?_append, step.length_block] at h
  by_cases hj : j < step.width
  · rw [if_pos hj] at h
    exact Or.inl ⟨hj, h⟩
  · rw [if_neg hj] at h
    exact Or.inr ⟨j - step.width, by omega, h⟩

theorem id_of_getElem?_layout {steps : List (Step ε)} :
    ∀ {k next j : Nat} {s : State ε}, (layout k next steps)[j]? = some s → s.id = k + j := by
  induction steps with
  | nil =>
    intro k next j s h
    simp [layout] at h
  | cons step rest ih =>
    intro k next j s h
    rcases getElem?_layout_cons h with ⟨-, hblock⟩ | ⟨i, rfl, hrest⟩
    · exact Step.id_of_getElem?_block hblock
    · rw [ih hrest, Nat.add_assoc]

theorem le_entryOf {steps : List (Step ε)} (hsteps : steps ≠ []) :
    ∀ {k next : Nat}, k ≤ entryOf k next steps := by
  induction steps with
  | nil => exact absurd rfl hsteps
  | cons step rest ih =>
    intro k next
    rw [entryOf]
    cases rest with
    | nil => exact step.le_entry k
    | cons step' rest => exact Nat.le_trans (Nat.le_add_right _ _) (ih (by simp))

theorem entryOf_lt {steps : List (Step ε)} (hsteps : steps ≠ []) :
    ∀ {k next : Nat}, entryOf k next steps < k + (layout k next steps).length := by
  induction steps with
  | nil => exact absurd rfl hsteps
  | cons step rest ih =>
    intro k next
    rw [entryOf, layout, List.length_append, step.length_block]
    cases rest with
    | nil => simpa [layout, entryOf] using step.entry_lt k
    | cons step' rest =>
      rw [← Nat.add_assoc]
      exact ih (by simp)

/-- The start is the entry of the first element, and all other states of a layout are normal. -/
theorem role_of_getElem?_layout {steps : List (Step ε)} :
    ∀ {k next j : Nat} {s : State ε}, (layout k next steps)[j]? = some s →
      s.role = if k + j = entryOf k next steps then .start else .normal := by
  induction steps with
  | nil =>
    intro k next j s h
    simp [layout] at h
  | cons step rest ih =>
    intro k next j s h
    rw [entryOf]
    rcases getElem?_layout_cons h with ⟨hj, hblock⟩ | ⟨i, rfl, hrest⟩
    · rw [Step.role_of_getElem?_block hblock]
      cases rest with
      | nil => rfl
      | cons step' rest =>
        -- the start lies beyond this block
        have hle : k + step.width ≤ entryOf (k + step.width) (step.entry k) (step' :: rest) :=
          le_entryOf (by simp)
        rw [show entryRole (step' :: rest) = .normal from rfl, ite_self, if_neg (by omega)]
    · rw [ih hrest, Nat.add_assoc]

theorem target_of_mem_layout {steps : List (Step ε)} :
    ∀ {k next : Nat}, next < k → ∀ s ∈ layout k next steps, ∀ t ∈ s.transitions,
      t.target < k + (layout k next steps).length := by
  induction steps with
  | nil =>
    intro k next _ s h
    simp [layout] at h
  | cons step rest ih =>
    intro k next hnext s h t ht
    rw [layout, List.length_append, step.length_block]
    rcases List.mem_append.mp h with h | h
    · rcases Step.target_of_mem_block h t ht with htarget | htarget
      · rw [htarget]
        exact Nat.lt_add_right _ hnext
      · exact Nat.lt_of_lt_of_le htarget (by omega)
    · rw [← Nat.add_assoc]
      exact ih (step.entry_lt k) s h t ht

theorem conditioned_of_mem_layout {steps : List (Step ε)} :
    ∀ {k next : Nat}, ∀ s ∈ layout k next steps, ∀ t ∈ s.transitions,
      t.condition.isSome ↔ t.action ≠ .proceed := by
  induction steps with
  | nil =>
    intro k next s h
    simp [layout] at h
  | cons step rest ih =>
    intro k next s h
    rcases List.mem_append.mp h with h | h
    · exact Step.conditioned_of_mem_block h
    · exact ih s h

/-- Wherever a layout lies, what it leads into can be reached from each of its states. -/
theorem path_of_spans_layout {a : Automaton ε} {steps : List (Step ε)} :
    ∀ {k next : Nat}, a.Spans k (layout k next steps) →
      ∀ j < (layout k next steps).length, a.Path (k + j) next := by
  induction steps with
  | nil =>
    intro k next _ j hj
    simp [layout] at hj
  | cons step rest ih =>
    intro k next h j hj
    obtain ⟨hblock, hrest⟩ := h.layout_cons
    have hpath := Step.path_of_spans_block hblock
    rw [layout, List.length_append, step.length_block] at hj
    by_cases hjw : j < step.width
    · exact hpath j hjw
    · -- a block before this one leads to the entry of this one
      have hentry : a.Path (step.entry k) next := by
        have hlt := step.entry_lt k
        have hle := step.le_entry k
        have := hpath (step.entry k - k) (by omega)
        rwa [Nat.add_sub_cancel' hle] at this
      have := ih hrest (j - step.width) (by omega)
      rw [Nat.add_assoc, Nat.add_sub_cancel' (by omega)] at this
      exact this.trans hentry

/-! ### The automaton of a pattern -/

namespace Pattern

variable (p : Pattern ε) (finalName : String)

theorem size_automaton :
    (p.automaton finalName).size = 1 + (layout 1 0 p.steps).length := by
  rw [Nat.add_comm]
  rfl

/-- The final state lies before the layout. -/
theorem state?_automaton_cases {i : Nat} {s : State ε}
    (h : (p.automaton finalName).state? i = some s) :
    (i = 0 ∧ s = ⟨0, finalName, .final, []⟩) ∨
      ∃ j, i = 1 + j ∧ (layout 1 0 p.steps)[j]? = some s := by
  rcases i with _ | j
  · exact Or.inl ⟨rfl, (Option.some_inj.mp h).symm⟩
  · exact Or.inr ⟨j, Nat.add_comm j 1, h⟩

theorem hasRole_start_automaton_iff {i : Nat} :
    (p.automaton finalName).HasRole i .start ↔ i = entryOf 1 0 p.steps := by
  constructor
  · rintro ⟨s, h, hs⟩
    rcases p.state?_automaton_cases finalName h with ⟨-, rfl⟩ | ⟨j, rfl, hj⟩
    · exact absurd hs (by simp)
    · rw [role_of_getElem?_layout hj] at hs
      by_cases hentry : 1 + j = entryOf 1 0 p.steps
      · exact hentry
      · rw [if_neg hentry] at hs
        exact absurd hs (by simp)
  · rintro rfl
    have hlt : entryOf 1 0 p.steps < (p.automaton finalName).size := by
      rw [size_automaton]
      exact entryOf_lt p.steps_ne_nil
    obtain ⟨s, hs⟩ := Automaton.exists_state?_of_lt hlt
    refine ⟨s, hs, ?_⟩
    rcases p.state?_automaton_cases finalName hs with ⟨hzero, -⟩ | ⟨j, hj, hlayout⟩
    · -- the entry of an element is not the position of the final state
      have hle : 1 ≤ entryOf 1 0 p.steps := le_entryOf p.steps_ne_nil
      omega
    · rw [role_of_getElem?_layout hlayout, if_pos hj.symm]

theorem hasRole_final_automaton_iff {i : Nat} :
    (p.automaton finalName).HasRole i .final ↔ i = 0 := by
  constructor
  · rintro ⟨s, h, hs⟩
    rcases p.state?_automaton_cases finalName h with ⟨hzero, -⟩ | ⟨j, -, hj⟩
    · exact hzero
    · rw [role_of_getElem?_layout hj] at hs
      split at hs <;> exact absurd hs (by simp)
  · rintro rfl
    exact ⟨_, rfl, rfl⟩

/-- The automaton of a pattern meets every condition of the audit. -/
theorem wellFormed_automaton : (p.automaton finalName).WellFormed := by
  constructor
  case filed =>
    intro i s h
    rcases p.state?_automaton_cases finalName h with ⟨rfl, rfl⟩ | ⟨j, rfl, hj⟩
    · rfl
    · exact id_of_getElem?_layout hj
  case start_iff =>
    exact fun i => p.hasRole_start_automaton_iff finalName
  case final_iff =>
    exact fun i => p.hasRole_final_automaton_iff finalName
  case final_stops =>
    intro s h
    rw [← Option.some_inj.mp h]
  case closed =>
    intro i s h t ht
    rcases p.state?_automaton_cases finalName h with ⟨-, rfl⟩ | ⟨j, -, hj⟩
    · simp at ht
    · rw [size_automaton]
      exact target_of_mem_layout Nat.zero_lt_one s (List.mem_of_getElem? hj) t ht
  case conditioned =>
    intro i s h
    rcases p.state?_automaton_cases finalName h with ⟨-, rfl⟩ | ⟨j, -, hj⟩
    · simp
    · exact conditioned_of_mem_layout s (List.mem_of_getElem? hj)
  case finishes =>
    intro i hi
    rcases i with _ | j
    · exact .refl
    · -- from the layout every path ends in what the layout leads into, the final state
      rw [size_automaton] at hi
      rw [Nat.add_comm]
      exact path_of_spans_layout (p.automaton_spans finalName) j (by omega)

/-- Two elements of a pattern share a name. -/
def RepeatsName : Prop := ∃ i j, i < j ∧ j < p.names.length ∧ p.names[i]? = p.names[j]?

variable {p}

theorem not_repeatsName_iff : ¬ p.RepeatsName ↔ p.names.Nodup := by
  rw [List.nodup_iff_getElem?_ne_getElem?, RepeatsName]
  constructor
  · exact fun h i j hij hj heq => h ⟨i, j, hij, hj, heq⟩
  · rintro h ⟨i, j, hij, hj, heq⟩
    exact h i j hij hj heq

theorem checkNames_eq_ok_iff : p.checkNames = .ok () ↔ ¬ p.RepeatsName := by
  have hnone : firstRepeated? [] (p.steps.map Step.name) = none ↔ ¬ p.RepeatsName := by
    rw [not_repeatsName_iff, firstRepeated?_eq_none_iff, p.names_eq_reverse_steps,
      List.nodup_reverse]
    simp
  rw [← hnone, checkNames]
  cases firstRepeated? [] (p.steps.map Step.name) <;> simp

theorem checkNames_of_repeatsName (h : p.RepeatsName) : ∃ cause, p.checkNames = .error cause := by
  cases hcheck : p.checkNames with
  | error cause => exact ⟨cause, rfl⟩
  | ok u => exact absurd h (checkNames_eq_ok_iff.mp hcheck)

end Pattern

/-! ### Outcomes -/

namespace Settings

/-- The name of the final state has no character other than white space. -/
def BlankFinalName (settings : Settings) : Prop :=
  ∀ c ∈ settings.finalName.toList, c.toNat ∈ Text.whiteSpace

variable {settings : Settings}

theorem not_blankFinalName_default {audited : Bool} {level : Level} :
    ¬ BlankFinalName { audited, level } := by
  intro h
  have hdollar : '$' ∈ ("$endState$" : String).toList := by decide
  exact absurd (h '$' hdollar) (by decide)

theorem check_of_blank (h : settings.BlankFinalName) : settings.check = .error blankFinalName :=
  if_pos (Text.isBlank_eq_true_iff.mpr h)

theorem check_of_not_blank (h : ¬ settings.BlankFinalName) : settings.check = .ok () :=
  if_neg fun hblank => h (Text.isBlank_eq_true_iff.mp hblank)

end Settings

section Outcome

variable {settings : Settings} {p : Pattern ε}

theorem compile_of_blank (h : settings.BlankFinalName) :
    (compile settings p).1 = .error Settings.blankFinalName := by
  rw [compile_fst, Settings.check_of_blank h]

theorem compile_of_repeatsName (hname : ¬ settings.BlankFinalName) (h : p.RepeatsName) :
    ∃ cause, (compile settings p).1 = .error (.malformedPattern cause) := by
  obtain ⟨cause, hcause⟩ := Pattern.checkNames_of_repeatsName h
  refine ⟨cause, ?_⟩
  rw [compile_fst, Settings.check_of_not_blank hname, hcause]

/-- With a usable final name and distinct names a pattern compiles to the automaton of its
layout. -/
theorem compile_of_distinct (hname : ¬ settings.BlankFinalName) (h : ¬ p.RepeatsName) :
    (compile settings p).1 = .ok (p.automaton settings.finalName) := by
  have haudit := (p.wellFormed_automaton settings.finalName).audit_eq_ok
  rw [compile_fst, Settings.check_of_not_blank hname, Pattern.checkNames_eq_ok_iff.mpr h]
  simp only [haudit, ite_self]

/-- Distinct names are all that is needed where the name of the final state is left alone. -/
theorem compile_of_nodup {audited : Bool} {level : Level} (h : p.names.Nodup) :
    (compile { audited, level } p).1 = .ok (p.automaton "$endState$") :=
  compile_of_distinct Settings.not_blankFinalName_default (Pattern.not_repeatsName_iff.mpr h)

theorem compile_eq_ok_iff {a : Automaton ε} :
    (compile settings p).1 = .ok a ↔
      ¬ settings.BlankFinalName ∧ ¬ p.RepeatsName ∧ a = p.automaton settings.finalName := by
  by_cases hname : settings.BlankFinalName
  · simp [compile_of_blank hname, hname]
  · by_cases hrepeats : p.RepeatsName
    · obtain ⟨cause, hcause⟩ := compile_of_repeatsName hname hrepeats
      simp [hcause, hrepeats]
    · simp [compile_of_distinct hname hrepeats, hname, hrepeats, eq_comm]

/-- **What a compilation comes to.**  It refuses a blank name of the final state, then a pattern
with a repeated name, and otherwise gives an automaton that passes the audit.  No compilation
reports a broken invariant, and neither the audit setting nor the level changes the outcome. -/
theorem compile_outcome (settings : Settings) (p : Pattern ε) :
    ((∃ complaint, (compile settings p).1 =
        .error (.settings complaint (some "final_state_name"))) ↔ settings.BlankFinalName) ∧
    ((∃ cause, (compile settings p).1 = .error (.malformedPattern cause)) ↔
      ¬ settings.BlankFinalName ∧ p.RepeatsName) ∧
    ((∃ a, (compile settings p).1 = .ok a ∧ a.audit = .ok ()) ↔
      ¬ settings.BlankFinalName ∧ ¬ p.RepeatsName) ∧
    (∀ fault, (compile settings p).1 ≠ .error (.inconsistent fault)) ∧
    ∀ audited level, (compile { settings with audited, level } p).1 = (compile settings p).1 := by
  by_cases hname : settings.BlankFinalName
  · have hblank : ∀ audited level, Settings.BlankFinalName { settings with audited, level } :=
      fun _ _ => hname
    simp [compile_of_blank, hname, hblank, Settings.blankFinalName]
  · have hblank : ∀ audited level, ¬ Settings.BlankFinalName { settings with audited, level } :=
      fun _ _ => hname
    by_cases hrepeats : p.RepeatsName
    · obtain ⟨cause, hcause⟩ := Pattern.checkNames_of_repeatsName hrepeats
      simp [compile_fst, Settings.check_of_not_blank, hcause, hname, hblank, hrepeats]
    · have haudit := (p.wellFormed_automaton settings.finalName).audit_eq_ok
      simp [compile_of_distinct, hname, hblank, hrepeats, haudit]

end Outcome

end ChainAutomata
