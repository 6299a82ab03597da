/-
When outlines tell compiled patterns apart.

The automaton of a pattern is known up to isomorphism exactly when the name of the final state and
the plan are.  Its outline shows less: after the first element it does not show whether a repeated
element may be missing, because both states of such an element have its name.

* `Pattern.isomorphic_automaton_iff` — isomorphic automata have the same plan;
* `Pattern.outline_automaton_iff` — equal outlines have plans that agree but for that;
* `outline_decides_isomorphic_iff` — equality of outlines is isomorphism except for such pairs.
-/
import ChainAutomata.Proofs.Decoding
import ChainAutomata.Proofs.Outcome
import ChainAutomata.Proofs.Sketch

universe u v w

namespace ChainAutomata

variable {ε : Type u} {δ : Type v} {φ : Type w}

/-! ### Blurred plans -/

/-- The slot with both ways to repeat an element taken for one. -/
def Slot.blur (x : Slot) : Slot :=
  { x with quantifier := if x.quantifier.isLooping then .oneOrMore else .single }

/-- What an outline shows of a plan: the first slot as it is, the others blurred. -/
def blurRest : List Slot → List Slot
  | [] => []
  | x :: xs => x :: xs.map Slot.blur

namespace Slot

variable {x : Slot} {xs ys : List Slot}

theorem blockPortraits_blur (u : String) :
    x.blur.blockPortraits nameOnly .normal u = x.blockPortraits nameOnly .normal u := by
  cases hq : x.quantifier <;> simp [blockPortraits, blur, hq, Quantifier.isLooping, waitingPortrait,
    restingPortrait, skipSights, nameOnly]

theorem chainFace_map_blur (u : String) :
    chainFace nameOnly u (xs.map blur) = chainFace nameOnly u xs := by
  cases xs <;> rfl

theorem chainPortraits_map_blur (u : String) :
    chainPortraits nameOnly .normal u (xs.map blur) = chainPortraits nameOnly .normal u xs := by
  induction xs with
  | nil => rfl
  | cons x xs ih =>
    rw [List.map_cons, chainPortraits, chainPortraits, blockPortraits_blur, chainFace_map_blur, ih]

/-- By the names of targets alone, a plan is not told from what is left when it is blurred. -/
theorem chainPortraits_blurRest (role : Role) (u : String) (xs : List Slot) :
    chainPortraits nameOnly role u (blurRest xs) = chainPortraits nameOnly role u xs := by
  cases xs with
  | nil => rfl
  | cons x xs =>
    rw [blurRest, chainPortraits, chainPortraits, chainFace_map_blur, chainPortraits_map_blur]

theorem map_blur_eq_of_visible_eq
    (h : xs.map (visible nameOnly) = ys.map (visible nameOnly)) : xs.map blur = ys.map blur := by
  have := congrArg (List.map fun v : String × Strictness × Bool =>
    (⟨v.1, v.2.1, if v.2.2 then .oneOrMore else .single⟩ : Slot)) h
  rw [List.map_map, List.map_map] at this
  exact this

theorem visible_mk_injective : Function.Injective (visible Prod.mk) := by
  intro x y h
  obtain ⟨hface, hstrictness, hlooping⟩ : x.face Prod.mk = y.face Prod.mk ∧
      x.strictness = y.strictness ∧ x.quantifier.isLooping = y.quantifier.isLooping := by
    simpa [visible] using h
  obtain ⟨hname, hzero⟩ : x.name = y.name ∧ x.quantifier.allowsZero = y.quantifier.allowsZero := by
    simpa [face] using hface
  have hquantifier := Quantifier.eq_of_flags hzero hlooping
  cases x
  cases y
  simp_all

end Slot

/-! ### The automaton of a pattern -/

namespace Pattern

variable {p : Pattern ε} {q : Pattern δ} {f g : String}

theorem map_name_plan (p : Pattern ε) : p.plan.map Slot.name = p.names := by
  rw [plan, List.map_map, p.names_eq_reverse_steps, ← List.map_reverse]
  rfl

theorem plan_ne_nil (p : Pattern ε) : p.plan ≠ [] := by
  simp [plan, p.steps_ne_nil]

/-- The same portraits come from the same final name, and from plans that agree in all that can be
told of them. -/
theorem plans_of_portraits_perm (look : String → Bool → φ)
    (hlook : ∀ n b n' b', look n b = look n' b' → n = n')
    (hp : ¬ p.RepeatsName) (hq : ¬ q.RepeatsName)
    (h : ((p.automaton f).portraits look).Perm ((q.automaton g).portraits look)) :
    f = g ∧ ∃ x xs ys, p.plan = x :: xs ∧ q.plan = x :: ys ∧
      xs.map (Slot.visible look) = ys.map (Slot.visible look) := by
  have hperm := (p.portraits_perm look f).symm.trans (h.trans (q.portraits_perm look g))
  -- neither plan has a portrait with the role of the final state
  have hfinal : f = g := by
    rcases List.mem_cons.mp (hperm.mem_iff.mp List.mem_cons_self) with heq | hmem
    · exact congrArg Portrait.name heq
    · have := role_of_mem_chainPortraits hmem
      simp at this
  subst hfinal
  have hchains := hperm.cons_inv
  have hpnodup : (p.plan.map Slot.name).Nodup := by
    rw [map_name_plan]
    exact not_repeatsName_iff.mp hp
  have hqnodup : (q.plan.map Slot.name).Nodup := by
    rw [map_name_plan]
    exact not_repeatsName_iff.mp hq
  obtain ⟨x, xs, hx⟩ := List.exists_cons_of_ne_nil p.plan_ne_nil
  obtain ⟨y, ys, hy⟩ := List.exists_cons_of_ne_nil q.plan_ne_nil
  rw [hx] at hpnodup
  rw [hy] at hqnodup
  rw [hx, hy] at hchains
  obtain ⟨rfl, hvisible⟩ := chainPortraits_start_inj hlook hpnodup hqnodup hchains
  exact ⟨rfl, x, xs, ys, hx, hy, hvisible⟩

/-- **Up to isomorphism an automaton is the final name and the plan.** -/
theorem isomorphic_automaton_iff (hp : ¬ p.RepeatsName) (hq : ¬ q.RepeatsName) :
    (p.automaton f).Isomorphic (q.automaton g) ↔ f = g ∧ p.plan = q.plan := by
  constructor
  · intro h
    obtain ⟨hfinal, x, xs, ys, hx, hy, hvisible⟩ :=
      plans_of_portraits_perm Prod.mk (fun n b n' b' heq => congrArg Prod.fst heq) hp hq
        (h.portraits_perm (p.wellFormed_automaton f).closed)
    refine ⟨hfinal, ?_⟩
    rw [hx, hy, List.map_injective_iff.mpr Slot.visible_mk_injective hvisible]
  · rintro ⟨rfl, h⟩
    rw [plan, plan, List.map_reverse, List.map_reverse, List.reverse_inj] at h
    -- conditions do not count here, so nothing need be seen of them
    have hsketches := congrArg (List.map fun slot : Slot => (slot, (), ())) h
    rw [List.map_map, List.map_map] at hsketches
    obtain ⟨hlayout, hstart⟩ :=
      map_sketch_layout (f := fun _ => ()) (g := fun _ => ()) 1 0 hsketches
    have hbare := map_bare_eq_of_map_sketch_eq hlayout
    exact Automaton.isomorphic_of_map_bare_eq (congrArg (_ :: ·) hbare) hstart rfl

/-- **An outline is the final name and the blurred plan.** -/
theorem outline_automaton_iff (hp : ¬ p.RepeatsName) (hq : ¬ q.RepeatsName) :
    (p.automaton f).outline = (q.automaton g).outline ↔
      f = g ∧ blurRest p.plan = blurRest q.plan := by
  rw [Automaton.outline_eq_iff_portraits_perm]
  constructor
  · intro h
    obtain ⟨hfinal, x, xs, ys, hx, hy, hvisible⟩ :=
      plans_of_portraits_perm nameOnly (fun n b n' b' heq => heq) hp hq h
    refine ⟨hfinal, ?_⟩
    rw [hx, hy, blurRest, blurRest, Slot.map_blur_eq_of_visible_eq hvisible]
  · rintro ⟨rfl, h⟩
    refine (p.portraits_perm nameOnly f).trans (.trans ?_ (q.portraits_perm nameOnly f).symm)
    rw [← Slot.chainPortraits_blurRest _ _ p.plan, h, Slot.chainPortraits_blurRest]

end Pattern

/-! ### Compiled patterns -/

section Compiled

variable {s t : Settings} {p : Pattern ε} {q : Pattern δ} {a : Automaton ε} {b : Automaton δ}

/-- **When equality of outlines is isomorphism.**  Compiled automata are isomorphic exactly when
their final names and their plans are the same, and have equal outlines exactly when these are the
same but for whether a repeated element after the first may be missing.  So outlines decide
isomorphism for all pairs but those that differ in nothing else. -/
theorem outline_decides_isomorphic_iff (ha : (compile s p).1 = .ok a)
    (hb : (compile t q).1 = .ok b) :
    (a.Isomorphic b ↔ s.finalName = t.finalName ∧ p.plan = q.plan) ∧
    (a.outline = b.outline ↔ s.finalName = t.finalName ∧ blurRest p.plan = blurRest q.plan) ∧
    ((a.outline = b.outline ↔ a.Isomorphic b) ↔
      ¬ (s.finalName = t.finalName ∧ blurRest p.plan = blurRest q.plan ∧ p.plan ≠ q.plan)) := by
  obtain ⟨-, hp, rfl⟩ := compile_eq_ok_iff.mp ha
  obtain ⟨-, hq, rfl⟩ := compile_eq_ok_iff.mp hb
  have hiso := Pattern.isomorphic_automaton_iff (f := s.finalName) (g := t.finalName) hp hq
  have houtline := Pattern.outline_automaton_iff (f := s.finalName) (g := t.finalName) hp hq
  refine ⟨hiso, houtline, ?_⟩
  rw [hiso, houtline]
  constructor
  · rintro hdecides ⟨hfinal, hrest, hplan⟩
    exact hplan (hdecides.mp ⟨hfinal, hrest⟩).2
  · intro hdiffer
    constructor
    · rintro ⟨hfinal, hrest⟩
      exact ⟨hfinal, by_contra fun hplan => hdiffer ⟨hfinal, hrest, hplan⟩⟩
    · rintro ⟨hfinal, hplan⟩
      exact ⟨hfinal, congrArg blurRest hplan⟩

/-- An element and another one right after it. -/
def aThenB (first second : Quantifier) : Pattern Nat :=
  .link (.head { name := "a", quantifier := first }) .strict { name := "b", quantifier := second }

theorem compile_aThenB (first second : Quantifier) :
    (compile {} (aThenB first second)).1 = .ok ((aThenB first second).automaton "$endState$") := by
  have hnames : (aThenB first second).names.Nodup := by
    show ["a", "b"].Nodup
    decide
  exact compile_of_nodup hnames

/-- Whether the first element may be missing is seen in the outline. -/
theorem outline_ne_aThenB :
    (compile {} (aThenB .zeroOrMore .single)).1 =
        .ok ((aThenB .zeroOrMore .single).automaton "$endState$") ∧
      (compile {} (aThenB .oneOrMore .single)).1 =
        .ok ((aThenB .oneOrMore .single).automaton "$endState$") ∧
      ¬ ((aThenB .zeroOrMore .single).automaton "$endState$").Isomorphic
        ((aThenB .oneOrMore .single).automaton "$endState$") ∧
      ((aThenB .zeroOrMore .single).automaton "$endState$").outline ≠
        ((aThenB .oneOrMore .single).automaton "$endState$").outline := by
  have ha := compile_aThenB .zeroOrMore .single
  have hb := compile_aThenB .oneOrMore .single
  obtain ⟨hiso, houtline, -⟩ := outline_decides_isomorphic_iff ha hb
  refine ⟨ha, hb, ?_, ?_⟩
  · rw [hiso]
    decide
  · rw [ne_eq, houtline]
    decide

/-- Whether a later element may be missing is not. -/
theorem exists_outline_eq_not_isomorphic :
    ∃ a b, (compile {} (aThenB .single .zeroOrMore)).1 = .ok a ∧
      (compile {} (aThenB .single .oneOrMore)).1 = .ok b ∧ a.outline = b.outline ∧
      ¬ a.Isomorphic b := by
  obtain ⟨-, hp, -⟩ := compile_eq_ok_iff.mp (compile_aThenB .single .zeroOrMore)
  obtain ⟨-, hq, -⟩ := compile_eq_ok_iff.mp (compile_aThenB .single .oneOrMore)
  refine ⟨_, _, compile_aThenB .single .zeroOrMore, compile_aThenB .single .oneOrMore, ?_, ?_⟩
  · rw [Pattern.outline_automaton_iff hp hq]
    decide
  · rw [Pattern.isomorphic_automaton_iff hp hq]
    decide

end Compiled

end ChainAutomata
