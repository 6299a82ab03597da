/-
Reconstruction of patterns from snapshots.

A snapshot of a compiled automaton gives back all that is written on the pattern: of each element,
in order, the name, the quantifier, the way it follows the one before it and the description of what
it takes.

* `Automaton.WellFormed.snapshot?_eq_iff` — equal snapshots are equal starts and equal sketches;
* `Pattern.snapshot?_automaton_eq_iff` — what the automata of two patterns need for equal snapshots;
* `snapshots_eq_iff_captions_eq` — the same for any two patterns that compile.

Design notes: a snapshot adds to the sketches of the states the names of the targets, which the
sketches tell already, so snapshots are compared as sketches.
-/
import ChainAutomata.Proofs.Outcome
import ChainAutomata.Proofs.Sketch
import ChainAutomata.Snapshot

universe u v

namespace ChainAutomata

variable {ε : Type u} {δ : Type v}

/-! ### Snapshots and sketches -/

/-- A sketch filled in with the names of the targets; `names` are those of all states. -/
def StateView.ofSketch (names : List String) (z : Sketch String) : StateView :=
  ⟨z.id, z.name, z.role, z.edges.map fun e => ⟨e.1, e.2.1, names[e.2.1]?.getD "", e.2.2⟩⟩

/-- A view with the names of the targets left out. -/
def StateView.sketch (v : StateView) : Sketch String :=
  ⟨v.id, v.name, v.role, v.transitions.map fun t => (t.action, t.target, t.condition)⟩

namespace Automaton

variable {a : Automaton ε} {b : Automaton δ}

theorem sketch_viewState (a : Automaton ε) (s : State ε) :
    (a.viewState s).sketch = s.sketch Condition.describe := by
  rw [StateView.sketch, viewState, State.sketch, List.map_map]
  rfl

theorem viewState_eq_ofSketch (a : Automaton ε) (s : State ε) :
    a.viewState s = .ofSketch (a.states.map State.name) (s.sketch Condition.describe) := by
  rw [viewState, State.sketch, StateView.ofSketch, List.map_map]
  congr 1
  refine List.map_congr_left fun t _ => ?_
  rw [viewTransition, target?, state?, ← List.getElem?_map]
  rfl

/-- Views and sketches of the states of an automaton tell the same. -/
theorem map_viewState_eq_iff :
    a.states.map a.viewState = b.states.map b.viewState ↔
      a.states.map (State.sketch Condition.describe) =
        b.states.map (State.sketch Condition.describe) := by
  constructor
  · intro h
    have hsketches := congrArg (List.map StateView.sketch) h
    simpa only [List.map_map, Function.comp_def, sketch_viewState] using hsketches
  · intro h
    have hnames : a.states.map State.name = b.states.map State.name := by
      have := congrArg (List.map Sketch.name) h
      simpa only [List.map_map, Function.comp_def, State.sketch] using this
    have hviews := congrArg (List.map (StateView.ofSketch (a.states.map State.name))) h
    rw [List.map_map, List.map_map] at hviews
    calc a.states.map a.viewState
        = a.states.map (StateView.ofSketch (a.states.map State.name) ∘
            State.sketch Condition.describe) := List.map_congr_left fun s _ =>
          a.viewState_eq_ofSketch s
      _ = b.states.map (StateView.ofSketch (a.states.map State.name) ∘
            State.sketch Condition.describe) := hviews
      _ = b.states.map b.viewState := List.map_congr_left fun s _ => by
          rw [hnames]
          exact (b.viewState_eq_ofSketch s).symm

/-- A well-formed automaton has a snapshot, and the start in it is the designated one. -/
theorem WellFormed.snapshot?_eq (h : a.WellFormed) :
    a.snapshot? = some ⟨a.start, a.states.map a.viewState⟩ := by
  obtain ⟨s, hs, -⟩ := (h.start_iff a.start).mpr rfl
  have hid : s.id = a.start := h.filed a.start s hs
  rw [snapshot?, startState?, hs, Option.map_some, hid]

theorem WellFormed.snapshot?_eq_iff (ha : a.WellFormed) (hb : b.WellFormed) :
    a.snapshot? = b.snapshot? ↔ a.start = b.start ∧
      a.states.map (State.sketch Condition.describe) =
        b.states.map (State.sketch Condition.describe) := by
  rw [ha.snapshot?_eq, hb.snapshot?_eq, Option.some_inj, Snapshot.mk.injEq, map_viewState_eq_iff]

end Automaton

/-! ### Captions -/

/-- What is written on an element: its slot, and the description of what it takes. -/
structure Caption extends Slot where
  demand : String
  deriving DecidableEq

def Step.caption (step : Step ε) : Caption := ⟨step.slot, step.demand.describe⟩

/-- What a caption tells of the sketches; a refusal is described by what is refused. -/
def Caption.sketch (c : Caption) : Slot × String × String := (c.toSlot, c.demand, "NOT " ++ c.demand)

theorem Step.sketch_caption (step : Step ε) : step.caption.sketch = step.sketch Condition.describe :=
  rfl

namespace Pattern

variable {p : Pattern ε} {q : Pattern δ} {f g : String}

/-- The captions of the elements, first element first. -/
def captions (p : Pattern ε) : List Caption := p.steps.reverse.map Step.caption

@[simp] theorem length_captions (p : Pattern ε) : p.captions.length = p.length := by
  simp [captions, steps, length]

theorem captions_eq_iff :
    p.captions = q.captions ↔ p.steps.map Step.caption = q.steps.map Step.caption := by
  rw [captions, captions, List.map_reverse, List.map_reverse, List.reverse_inj]

/-- **A snapshot is the final name and the captions.** -/
theorem snapshot?_automaton_eq_iff :
    (p.automaton f).snapshot? = (q.automaton g).snapshot? ↔ f = g ∧ p.captions = q.captions := by
  rw [(p.wellFormed_automaton f).snapshot?_eq_iff (q.wellFormed_automaton g), captions_eq_iff]
  constructor
  · rintro ⟨hstart, hstates⟩
    -- the state at position 0 is the final one, the layout begins behind it and leads into it
    obtain ⟨hfinal, hlayout⟩ := List.cons_eq_cons.mp hstates
    obtain ⟨-, helements⟩ := eq_of_map_sketch_layout Nat.zero_lt_one Nat.zero_lt_one hlayout hstart
    have hcaptions := congrArg (List.map fun z : Slot × String => (⟨z.1, z.2⟩ : Caption)) helements
    rw [List.map_map, List.map_map] at hcaptions
    exact ⟨congrArg Sketch.name hfinal, hcaptions⟩
  · rintro ⟨rfl, h⟩
    have helements := congrArg (List.map Caption.sketch) h
    simp only [List.map_map, Function.comp_def, Step.sketch_caption] at helements
    obtain ⟨hlayout, hstart⟩ := map_sketch_layout 1 0 helements
    exact ⟨hstart, congrArg (_ :: ·) hlayout⟩

end Pattern

/-! ### Compiled patterns -/

section Compiled

variable {s t : Settings} {p : Pattern ε} {q : Pattern δ} {a : Automaton ε} {b : Automaton δ}

/-- **Snapshots determine patterns.**  Patterns that compile have snapshots, and these are equal
exactly when the final names are and the patterns have as many elements with, one by one, the same
name, strictness, quantifier and description of what is taken. -/
theorem snapshots_eq_iff_captions_eq (ha : (compile s p).1 = .ok a) (hb : (compile t q).1 = .ok b) :
    ∃ v w, a.snapshot? = some v ∧ b.snapshot? = some w ∧
      (v = w ↔ s.finalName = t.finalName ∧ p.length = q.length ∧ p.captions = q.captions) := by
  obtain ⟨-, -, rfl⟩ := compile_eq_ok_iff.mp ha
  obtain ⟨-, -, rfl⟩ := compile_eq_ok_iff.mp hb
  have hp := (p.wellFormed_automaton s.finalName).snapshot?_eq
  have hq := (q.wellFormed_automaton t.finalName).snapshot?_eq
  refine ⟨_, _, hp, hq, ?_⟩
  rw [← Option.some_inj, ← hp, ← hq, Pattern.snapshot?_automaton_eq_iff]
  constructor
  · rintro ⟨hfinal, hcaptions⟩
    have hlength := congrArg List.length hcaptions
    rw [Pattern.length_captions, Pattern.length_captions] at hlength
    exact ⟨hfinal, hlength, hcaptions⟩
  · rintro ⟨hfinal, -, hcaptions⟩
    exact ⟨hfinal, hcaptions⟩

/-- A first try and then an accepted one, or several. -/
def tryUntil (accepted : Probe Nat) (quantifier : Quantifier) : Pattern Nat :=
  .link (.head { name := "try" }) .relaxed
    { name := "done", condition := some (.function accepted), quantifier }

theorem compile_tryUntil (accepted : Probe Nat) (quantifier : Quantifier) :
    (compile {} (tryUntil accepted quantifier)).1 =
      .ok ((tryUntil accepted quantifier).automaton "$endState$") := by
  have hnames : (tryUntil accepted quantifier).names.Nodup := by
    show ["try", "done"].Nodup
    decide
  exact compile_of_nodup hnames

/-- Functions are described alike, so snapshots do not tell which events are accepted, but they tell
how many are needed. -/
theorem exists_snapshots_tryUntil :
    ∃ a b c, (compile {} (tryUntil (fun n => (n == 0, [])) .oneOrMore)).1 = .ok a ∧
      (compile {} (tryUntil (fun n => (n == 1, [])) .oneOrMore)).1 = .ok b ∧
      (compile {} (tryUntil (fun n => (n == 1, [])) .zeroOrMore)).1 = .ok c ∧
      a.snapshot?.isSome ∧ a.snapshot? = b.snapshot? ∧ b.snapshot? ≠ c.snapshot? := by
  have ha := compile_tryUntil (fun n => (n == 0, [])) .oneOrMore
  have hb := compile_tryUntil (fun n => (n == 1, [])) .oneOrMore
  have hc := compile_tryUntil (fun n => (n == 1, [])) .zeroOrMore
  obtain ⟨v, w, hv, hw, hsame⟩ := snapshots_eq_iff_captions_eq ha hb
  obtain ⟨w', x, hw', hx, hother⟩ := snapshots_eq_iff_captions_eq hb hc
  refine ⟨_, _, _, ha, hb, hc, ?_, ?_, ?_⟩
  · rw [hv, Option.isSome_some]
  · rw [hv, hw, hsame.mpr (by decide)]
  · rw [hw', hx, ne_eq, Option.some_inj, hother]
    decide

end Compiled

end ChainAutomata
