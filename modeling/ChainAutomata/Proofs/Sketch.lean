/-
Sketches of a layout.

A sketch of a state shows it as it is filed, its transitions by number, and of each condition what
`look` makes of it.  The sketches of a layout depend on the elements through their slots and what is
seen of their conditions, and they give all of this back:

* `map_sketch_layout` — elements that look alike are laid out alike;
* `eq_of_map_sketch_layout` — what is laid out alike looks alike, wherever the two layouts lead.

Design notes: a block is told from its first transition.  That of a repeated element goes one state
further on, that of any other element back below the block.  Whether a repeated element may be
missing shows only in where its block is entered, so each step of the induction hands to the next
one that both layouts lead into the same state.
-/
import ChainAutomata.Proofs.Portraits

universe u v w

namespace ChainAutomata

variable {ε : Type u} {δ : Type v} {γ : Type w}

/-- A state as it is filed, with what is seen of its conditions. -/
structure Sketch (γ : Type w) where
  id : StateId
  name : String
  role : Role
  edges : List (Action × StateId × Option γ)

def State.sketch (look : Condition ε → γ) (s : State ε) : Sketch γ :=
  ⟨s.id, s.name, s.role, s.transitions.map fun t => (t.action, t.target, t.condition.map look)⟩

/-- A sketch without the number of the state and without the conditions. -/
def Sketch.bare (z : Sketch γ) : Role × String × List (Action × Nat) :=
  (z.role, z.name, z.edges.map fun e => (e.1, e.2.1))

theorem State.bare_sketch (look : Condition ε → γ) (s : State ε) :
    (s.sketch look).bare = s.bare := by
  rw [sketch, Sketch.bare, bare, List.map_map]
  rfl

/-- What of an element goes into the sketches of its block. -/
def Step.sketch (look : Condition ε → γ) (step : Step ε) : Slot × γ × γ :=
  (step.slot, look step.demand, look step.refusal)

variable {f : Condition ε → γ} {g : Condition δ → γ} {x : Step ε} {y : Step δ}

/-- States that are sketched alike are alike but for their conditions. -/
theorem map_bare_eq_of_map_sketch_eq {xs : List (State ε)} {ys : List (State δ)}
    (h : xs.map (State.sketch f) = ys.map (State.sketch g)) :
    xs.map State.bare = ys.map State.bare := by
  have hbare := congrArg (List.map Sketch.bare) h
  simpa only [List.map_map, Function.comp_def, State.bare_sketch] using hbare

/-! ### From elements to sketches -/

theorem Step.map_sketch_block (h : x.sketch f = y.sketch g) (role : Role) (k next : Nat) :
    (x.block role k next).map (State.sketch f) = (y.block role k next).map (State.sketch g) := by
  obtain ⟨⟨hname, hstrictness, hquantifier⟩, hdemand, hrefusal⟩ :
      (x.name = y.name ∧ x.strictness = y.strictness ∧ x.quantifier = y.quantifier) ∧
        f x.demand = g y.demand ∧ f x.refusal = g y.refusal := by
    simpa [sketch, slot] using h
  have hskips : ∀ target, ((x.skips target).map fun t => (t.action, t.target, t.condition.map f)) =
      (y.skips target).map fun t => (t.action, t.target, t.condition.map g) := by
    intro target
    rw [skips, skips, hstrictness]
    cases y.strictness <;> simp [hrefusal]
  rw [block, block, hquantifier]
  cases y.quantifier <;> simp [State.sketch, waiting, resting, hname, hskips, hdemand]

/-- Elements that look alike are laid out alike. -/
theorem map_sketch_layout {xs : List (Step ε)} :
    ∀ {ys : List (Step δ)} (k next : Nat), xs.map (Step.sketch f) = ys.map (Step.sketch g) →
      (layout k next xs).map (State.sketch f) = (layout k next ys).map (State.sketch g) ∧
        entryOf k next xs = entryOf k next ys := by
  induction xs with
  | nil =>
    intro ys k next h
    obtain rfl : ys = [] := by simpa using h.symm
    exact ⟨rfl, rfl⟩
  | cons x xs ih =>
    intro ys k next h
    cases ys with
    | nil => simp at h
    | cons y ys =>
      obtain ⟨hsketch, hrest⟩ := List.cons_eq_cons.mp h
      have hquantifier : x.quantifier = y.quantifier :=
        congrArg (fun z : Slot × γ × γ => z.1.quantifier) hsketch
      have hwidth : x.width = y.width := by rw [Step.width, Step.width, hquantifier]
      have hentry : x.entry k = y.entry k := by rw [Step.entry, Step.entry, hquantifier]
      have hrole : entryRole xs = entryRole ys := by
        cases xs <;> cases ys <;> simp_all [entryRole]
      rw [layout, layout, entryOf, entryOf, List.map_append, List.map_append,
        Step.map_sketch_block hsketch, hwidth, hentry, hrole, (ih _ _ hrest).1, (ih _ _ hrest).2]
      exact ⟨rfl, rfl⟩

/-! ### From sketches to elements -/

namespace Step

variable {k target target' next next' : Nat} {r r' : Role}

theorem strictness_of_skips
    (h : ((x.skips k).map fun t => (t.action, t.target, t.condition.map f)) =
      (y.skips k).map fun t => (t.action, t.target, t.condition.map g)) :
    x.strictness = y.strictness := by
  rw [skips, skips] at h
  cases hx : x.strictness <;> cases hy : y.strictness <;> simp [hx, hy] at h <;> rfl

/-- What a sketch of a waiting state tells. -/
theorem eq_of_sketch_waiting
    (h : (x.waiting r k target).sketch f = (y.waiting r' k target').sketch g) :
    x.name = y.name ∧ x.strictness = y.strictness ∧ f x.demand = g y.demand ∧ target = target' := by
  simp only [State.sketch, waiting, List.map_cons, Sketch.mk.injEq, Prod.mk.injEq, List.cons.injEq,
    Option.map_some, Option.some_inj, true_and] at h
  obtain ⟨hname, -, ⟨htarget, hdemand⟩, hskips⟩ := h
  exact ⟨hname, strictness_of_skips hskips, hdemand, htarget⟩

theorem eq_of_sketch_resting
    (h : (x.resting r k next).sketch f = (y.resting r' k next').sketch g) : next = next' := by
  simp only [State.sketch, resting, List.map_cons, List.map_append, List.map_nil, Sketch.mk.injEq,
    List.cons.injEq, true_and] at h
  obtain ⟨-, -, -, htransitions⟩ := h
  have hlast := (List.append_inj' htransitions rfl).2
  simpa using hlast

/-- What the sketches of a block tell, with more behind them. -/
theorem eq_of_map_sketch_block {zs : List (State ε)} {zs' : List (State δ)} (hnext : next < k)
    (hnext' : next' < k)
    (h : (x.block r k next ++ zs).map (State.sketch f) =
      (y.block r' k next' ++ zs').map (State.sketch g)) :
    x.width = y.width ∧ x.name = y.name ∧ x.strictness = y.strictness ∧
      f x.demand = g y.demand ∧ next = next' ∧
      zs.map (State.sketch f) = zs'.map (State.sketch g) := by
  rcases x.block_cases r k next with ⟨hx, hblock⟩ | ⟨hx, r₁, r₂, hblock⟩ <;>
    rcases y.block_cases r' k next' with ⟨hy, hblock'⟩ | ⟨hy, r₁', r₂', hblock'⟩ <;>
    rw [hblock, hblock'] at h
  case inl.inl =>
    obtain ⟨hwaiting, hbehind⟩ := List.cons_eq_cons.mp h
    obtain ⟨hname, hstrictness, hdemand, htarget⟩ := eq_of_sketch_waiting hwaiting
    exact ⟨hx.trans hy.symm, hname, hstrictness, hdemand, htarget, hbehind⟩
  case inl.inr =>
    -- a single state leads back below the block, the first one of two does not
    obtain ⟨-, -, -, htarget⟩ := eq_of_sketch_waiting (List.cons_eq_cons.mp h).1
    omega
  case inr.inl =>
    obtain ⟨-, -, -, htarget⟩ := eq_of_sketch_waiting (List.cons_eq_cons.mp h).1
    omega
  case inr.inr =>
    obtain ⟨hwaiting, hbehind⟩ := List.cons_eq_cons.mp h
    obtain ⟨hresting, hbehind⟩ := List.cons_eq_cons.mp hbehind
    obtain ⟨hname, hstrictness, hdemand, -⟩ := eq_of_sketch_waiting hwaiting
    exact ⟨hx.trans hy.symm, hname, hstrictness, hdemand, eq_of_sketch_resting hresting, hbehind⟩

/-- The quantifier shows in the number of states and in which of them is entered. -/
theorem quantifier_eq (hwidth : x.width = y.width) (hentry : x.entry k = y.entry k) :
    x.quantifier = y.quantifier := by
  rw [width, width] at hwidth
  rw [entry, entry] at hentry
  cases hx : x.quantifier <;> cases hy : y.quantifier <;> simp_all

end Step

/-- Layouts with the same sketches that are entered at the same position lead into the same state and
come from elements that look alike. -/
theorem eq_of_map_sketch_layout {xs : List (Step ε)} :
    ∀ {ys : List (Step δ)} {k next next' : Nat}, next < k → next' < k →
      (layout k next xs).map (State.sketch f) = (layout k next' ys).map (State.sketch g) →
      entryOf k next xs = entryOf k next' ys →
      next = next' ∧
        xs.map (fun x => (x.slot, f x.demand)) = ys.map (fun y => (y.slot, g y.demand)) := by
  induction xs with
  | nil =>
    intro ys k next next' _ _ h hentry
    cases ys with
    | nil => exact ⟨hentry, rfl⟩
    | cons y ys => cases hq : y.quantifier <;> simp [layout, Step.block, hq] at h
  | cons x xs ih =>
    intro ys k next next' hnext hnext' h hentry
    cases ys with
    | nil => cases hq : x.quantifier <;> simp [layout, Step.block, hq] at h
    | cons y ys =>
      obtain ⟨hwidth, hname, hstrictness, hdemand, htarget, hrest⟩ :=
        Step.eq_of_map_sketch_block hnext hnext' h
      rw [entryOf, entryOf, ← hwidth] at hentry
      rw [← hwidth] at hrest
      -- the blocks behind lead into the entries of these two
      obtain ⟨hentries, hothers⟩ :=
        ih (x.entry_lt k) (hwidth ▸ y.entry_lt k) hrest hentry
      have hslot : x.slot = y.slot := by
        rw [Step.slot, Step.slot, hname, hstrictness, Step.quantifier_eq hwidth hentries]
      rw [List.map_cons, List.map_cons, hslot, hdemand, hothers]
      exact ⟨htarget, rfl⟩

end ChainAutomata
