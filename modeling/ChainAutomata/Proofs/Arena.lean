/-
The arena of a compiled pattern, state by state.

`Pattern.LaidOut` says of every state where it stands, what it is called, which role it has, and what
its transitions do, in order: where they lead and on which condition.  It says so by the place of an
element in its pattern alone: the elements declared after it fix where its block begins and where
the block leads.

* `positionAfter`, `continuation` — where the block of an element begins, and where it leads;
* `Pattern.mem_placed_iff` — the elements in their places, one for each split of the pattern;
* `Pattern.laidOut_automaton`, `Pattern.LaidOut.eq` — the automaton of a pattern is laid out in this
  way, and no other automaton is;
* `compile_eq_ok_iff_laidOut` — what a compilation gives, down to the last transition.

Design notes: elements are addressed by splitting the list of steps, whose order is that of the
arena.  So the entries before a split are the elements declared after the one at it.
-/
import ChainAutomata.Proofs.Placement

universe u

namespace ChainAutomata

open Automaton

variable {ε : Type u}

/-! ### Sizes of blocks -/

/-- The number of states of the blocks of elements. -/
def extent : List (Step ε) → Nat
  | [] => 0
  | step :: rest => step.width + extent rest

theorem length_layout (steps : List (Step ε)) :
    ∀ k next, (layout k next steps).length = extent steps := by
  induction steps with
  | nil => exact fun _ _ => rfl
  | cons step rest ih =>
    intro k next
    rw [layout, List.length_append, step.length_block, ih, extent]

theorem extent_eq_counts (steps : List (Step ε)) :
    extent steps = steps.countP (fun step => step.quantifier = .single) +
      2 * steps.countP (fun step => step.quantifier.isLooping) := by
  induction steps with
  | nil => rfl
  | cons step rest ih =>
    rw [extent, ih, List.countP_cons, List.countP_cons, Step.width]
    cases step.quantifier <;> simp [Quantifier.isLooping] <;> omega

/-! ### Places by the elements declared after -/

theorem entryOf_concat (later : List (Step ε)) (step : Step ε) :
    ∀ k next, entryOf k next (later ++ [step]) = step.entry (k + extent later) := by
  induction later with
  | nil => exact fun _ _ => rfl
  | cons other later ih =>
    intro k next
    rw [List.cons_append, entryOf, ih, extent, Nat.add_assoc]

/-- Each split of a list puts the element at it behind the blocks of the entries before. -/
theorem mem_placements_iff {steps : List (Step ε)} {x : Placed ε} :
    ∀ {k next : Nat}, x ∈ placements k next steps ↔
      ∃ later step earlier, steps = later ++ step :: earlier ∧
        x = ⟨step, entryRole earlier, k + extent later, entryOf k next later⟩ := by
  -- on the list: the first element is at the empty split, every other at a split of the rest, and what
  -- the rest begins behind and leads into is the block of the first
  induction steps with
  | nil => simp [placements]
  | cons step rest ih =>
    intro k next
    rw [placements, List.mem_cons, ih]
    constructor
    · rintro (rfl | ⟨later, other, earlier, rfl, rfl⟩)
      · exact ⟨[], step, rest, rfl, rfl⟩
      · refine ⟨step :: later, other, earlier, rfl, ?_⟩
        rw [extent, Nat.add_assoc, entryOf]
    · rintro ⟨later, other, earlier, hsplit, rfl⟩
      cases later with
      | nil =>
        obtain ⟨rfl, rfl⟩ := List.cons_eq_cons.mp hsplit
        exact Or.inl rfl
      | cons first later =>
        obtain ⟨rfl, rfl⟩ := List.cons_eq_cons.mp hsplit
        refine Or.inr ⟨later, other, earlier, rfl, ?_⟩
        rw [extent, Nat.add_assoc, entryOf]

/-- Where the block of an element begins, given the elements declared after it, last one first: behind
the final state and their blocks. -/
def positionAfter (later : List (Step ε)) : Nat := 1 + extent later

/-- The state in which an element continues: the entry of the element declared just after it, or the
final state. -/
def continuation (later : List (Step ε)) : Nat :=
  match later.getLast? with
  | none => 0
  | some step => step.entry (positionAfter later.dropLast)

theorem continuation_concat (later : List (Step ε)) (step : Step ε) :
    continuation (later ++ [step]) = step.entry (positionAfter later) := by
  rw [continuation, List.getLast?_concat, List.dropLast_concat]

theorem entryOf_eq_continuation (later : List (Step ε)) :
    entryOf 1 0 later = continuation later := by
  rcases List.eq_nil_or_concat later with rfl | ⟨init, step, rfl⟩
  · rfl
  · rw [List.concat_eq_append, entryOf_concat, continuation_concat]
    rfl

namespace Pattern

variable {p : Pattern ε} {later earlier : List (Step ε)} {step : Step ε}

theorem strict_of_steps_eq_concat (h : p.steps = later ++ [step]) : step.strictness = .strict := by
  induction p generalizing later with
  | head x =>
    cases later with
    | nil =>
      rw [← (List.cons_eq_cons.mp h).1]
      rfl
    | cons other later => simp [steps_head] at h
  | link p s x ih =>
    cases later with
    | nil => exact absurd (List.cons_eq_cons.mp h).2 p.steps_ne_nil
    | cons other later => exact ih (List.cons_eq_cons.mp h).2

/-- The elements in their places are those at the splits of the pattern. -/
theorem mem_placed_iff {x : Placed ε} :
    x ∈ p.placed ↔ ∃ later step earlier, p.steps = later ++ step :: earlier ∧
      x = ⟨step, entryRole earlier, positionAfter later, continuation later⟩ := by
  simp only [placed, mem_placements_iff, entryOf_eq_continuation, positionAfter]

theorem mem_placed_of_split (h : p.steps = later ++ step :: earlier) :
    ⟨step, entryRole earlier, positionAfter later, continuation later⟩ ∈ p.placed :=
  mem_placed_iff.mpr ⟨later, step, earlier, h, rfl⟩

/-- What continues after some last elements is the final state or the entry of a block. -/
theorem continuation_cases (h : p.steps = later ++ earlier) :
    continuation later = 0 ∨ ∃ x ∈ p.placed, continuation later = x.entry := by
  rcases List.eq_nil_or_concat later with rfl | ⟨init, step, rfl⟩
  · exact Or.inl rfl
  · rw [List.concat_eq_append] at h ⊢
    rw [List.append_assoc] at h
    exact Or.inr ⟨_, mem_placed_of_split h, continuation_concat init step⟩

end Pattern

/-! ### The states of a pattern -/

/-- The role of a state that is not the final one. -/
def Automaton.roleAt (a : Automaton ε) (i : Nat) : Role :=
  if i = a.start then .start else .normal

/-- The automaton consists of the final state and the states of the elements of the pattern. -/
structure Pattern.LaidOut (p : Pattern ε) (finalName : String) (a : Automaton ε) : Prop where
  final : a.final = 0
  final_state : a.state? 0 = some ⟨0, finalName, .final, []⟩
  /-- The start is the entry of the first element, which skips nothing. -/
  start : ∀ later step, p.steps = later ++ [step] →
    step.strictness = .strict ∧ a.start = step.entry (positionAfter later)
  /-- An element that takes one event has one state. -/
  single : ∀ later step earlier, p.steps = later ++ step :: earlier → step.quantifier = .single →
    let k := positionAfter later
    a.state? k = some ⟨k, step.name, a.roleAt k,
      ⟨.take, continuation later, some step.demand⟩ :: step.skips k⟩
  /-- A repeated element has a state that has to take an event … -/
  loop : ∀ later step earlier, p.steps = later ++ step :: earlier → step.quantifier.isLooping →
    let k := positionAfter later
    a.state? k = some ⟨k, step.name, a.roleAt k,
      ⟨.take, k + 1, some step.demand⟩ :: step.skips k⟩
  /-- … and behind it one that may also move on. -/
  rest : ∀ later step earlier, p.steps = later ++ step :: earlier → step.quantifier.isLooping →
    let k := positionAfter later
    a.state? (k + 1) = some ⟨k + 1, step.name, a.roleAt (k + 1),
      ⟨.take, k + 1, some step.demand⟩ :: (step.skips k ++ [⟨.proceed, continuation later, none⟩])⟩
  size : a.size = 1 + p.steps.countP (fun step => step.quantifier = .single) +
    2 * p.steps.countP (fun step => step.quantifier.isLooping)

namespace Pattern

theorem role_of_state?_automaton (p : Pattern ε) (finalName : String) {i : Nat} {s : State ε}
    (h : (p.automaton finalName).state? i = some s) (hi : i ≠ 0) :
    s.role = (p.automaton finalName).roleAt i := by
  rcases p.state?_automaton_cases finalName h with ⟨hzero, -⟩ | ⟨j, rfl, hj⟩
  · exact absurd hzero hi
  · exact role_of_getElem?_layout hj

theorem laidOut_automaton (p : Pattern ε) (finalName : String) :
    p.LaidOut finalName (p.automaton finalName) := by
  have hpos : ∀ later : List (Step ε), positionAfter later ≠ 0 := by
    intro later
    rw [positionAfter]
    omega
  constructor
  case final => rfl
  case final_state => rfl
  case start =>
    intro later step h
    refine ⟨strict_of_steps_eq_concat h, ?_⟩
    show entryOf 1 0 p.steps = step.entry (positionAfter later)
    rw [entryOf_eq_continuation, h, continuation_concat]
  case single =>
    intro later step earlier h hsingle k
    have hspans := spans_placed finalName (mem_placed_of_split h)
    rw [Placed.states_of_single hsingle] at hspans
    rw [hspans.head, ← p.role_of_state?_automaton finalName hspans.head (hpos later)]
    rfl
  case loop =>
    intro later step earlier h hlooping k
    have hspans := spans_placed finalName (mem_placed_of_split h)
    obtain ⟨r, r', hwaiting, -⟩ := Placed.exists_state?_of_looping hspans hlooping
    rw [hwaiting, ← p.role_of_state?_automaton finalName hwaiting (hpos later)]
    rfl
  case rest =>
    intro later step earlier h hlooping k
    have hspans := spans_placed finalName (mem_placed_of_split h)
    obtain ⟨r, r', -, hresting⟩ := Placed.exists_state?_of_looping hspans hlooping
    rw [hresting, ← p.role_of_state?_automaton finalName hresting (Nat.succ_ne_zero _)]
    rfl
  case size =>
    rw [p.size_automaton finalName, length_layout, extent_eq_counts, Nat.add_assoc]

variable {p : Pattern ε} {finalName : String} {a b : Automaton ε}

theorem LaidOut.start_eq (ha : p.LaidOut finalName a) (hb : p.LaidOut finalName b) :
    a.start = b.start := by
  rcases List.eq_nil_or_concat p.steps with hnil | ⟨later, step, hconcat⟩
  · exact absurd hnil p.steps_ne_nil
  · rw [List.concat_eq_append] at hconcat
    rw [(ha.start later step hconcat).2, (hb.start later step hconcat).2]

/-- The states of an element are the same wherever the pattern is laid out. -/
theorem LaidOut.state?_eq (ha : p.LaidOut finalName a) (hb : p.LaidOut finalName b) {x : Placed ε}
    (hx : x ∈ p.placed) {i : Nat} (hi : x.Owns i) : a.state? i = b.state? i := by
  have hroles : a.roleAt = b.roleAt := by
    funext i
    rw [roleAt, roleAt, ha.start_eq hb]
  obtain ⟨later, step, earlier, hsplit, rfl⟩ := mem_placed_iff.mp hx
  -- the block has one position or two, and the layout names the state of each
  obtain ⟨hle, hlt⟩ := hi
  rcases Placed.single_or_looping
    ⟨step, entryRole earlier, positionAfter later, continuation later⟩ with hq | hq
  · rw [Placed.width_of_single hq] at hlt
    obtain rfl : i = positionAfter later := Nat.le_antisymm (Nat.lt_succ_iff.mp hlt) hle
    rw [ha.single later step earlier hsplit hq, hb.single later step earlier hsplit hq, hroles]
  · rw [Placed.width_of_looping hq] at hlt
    obtain rfl | rfl : i = positionAfter later ∨ i = positionAfter later + 1 := by
      simp only at hle hlt
      omega
    · rw [ha.loop later step earlier hsplit hq, hb.loop later step earlier hsplit hq, hroles]
    · rw [ha.rest later step earlier hsplit hq, hb.rest later step earlier hsplit hq, hroles]

theorem LaidOut.eq (ha : p.LaidOut finalName a) : a = p.automaton finalName := by
  have hb := p.laidOut_automaton finalName
  have hsize : a.size = (p.automaton finalName).size := by rw [ha.size, hb.size]
  have hstates : a.states = (p.automaton finalName).states := by
    refine List.ext_getElem? fun i => ?_
    show a.state? i = (p.automaton finalName).state? i
    cases hs : (p.automaton finalName).state? i with
    | none =>
      -- both arenas end before this position
      have hout : a.size ≤ i := by
        rw [hsize]
        exact List.getElem?_eq_none_iff.mp hs
      exact List.getElem?_eq_none hout
    | some s =>
      rw [← hs]
      rcases owner_of_state? hs with ⟨rfl, -⟩ | ⟨x, hx, j, rfl, hj⟩
      · rw [ha.final_state, hb.final_state]
      · exact ha.state?_eq hb hx (Placed.owns_of_getElem? hj)
  have hstart := ha.start_eq hb
  have hfinal : a.final = (p.automaton finalName).final := by rw [ha.final, hb.final]
  cases a
  simp_all

end Pattern

end ChainAutomata
