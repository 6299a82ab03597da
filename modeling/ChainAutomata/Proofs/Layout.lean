/-
The arena of a compiled pattern.

A compiled pattern is its final state followed by one block of states per element, last element
first.  `layout` writes the blocks down without building anything: a block at position `k` leads
into the entry of the block before it, and the entry of the last block is the start.

* `Draft.states_addStep`, `Draft.entry_addStep` — adding an element appends its block and touches
  nothing else;
* `Pattern.build_draft` — the draft of a pattern is the automaton that the layout describes;
* `compile_fst` — the outcome of a compilation in terms of that automaton.

Design notes: blocks are described by two kinds of states.  A `waiting` state takes an event to get
anywhere, a `resting` one may also move on; an element that takes one event is a waiting state, a
repeated one is a waiting state and a resting one behind it.  `Automaton.Spans` says that a list of
states lies in an arena from a position on, so that facts about a layout are proved by induction
on the elements and hold wherever the layout ends up.
-/
import ChainAutomata.Compilation
import ChainAutomata.Proofs.Search
import Mathlib.Tactic.Set

universe u

namespace ChainAutomata

variable {ε : Type u}

/-! ### Blocks -/

namespace Step

/-- The transition on refused events, on relaxed steps only. -/
def skips (step : Step ε) (target : Nat) : List (Transition ε) :=
  match step.strictness with
  | .strict => []
  | .relaxed => [⟨.ignore, target, some step.refusal⟩]

/-- The state at `k` that has to take an event. -/
def waiting (step : Step ε) (role : Role) (k target : Nat) : State ε :=
  ⟨k, step.name, role, ⟨.take, target, some step.demand⟩ :: step.skips k⟩

/-- The state behind a waiting state at `k`, which may also move on. -/
def resting (step : Step ε) (role : Role) (k next : Nat) : State ε :=
  ⟨k + 1, step.name, role,
    ⟨.take, k + 1, some step.demand⟩ :: (step.skips k ++ [⟨.proceed, next, none⟩])⟩

/-- The states of a step from position `k` on, leading into `next`; `role` is that of the entry. -/
def block (step : Step ε) (role : Role) (k next : Nat) : List (State ε) :=
  match step.quantifier with
  | .single => [step.waiting role k next]
  | .zeroOrMore => [step.waiting .normal k (k + 1), step.resting role k next]
  | .oneOrMore => [step.waiting role k (k + 1), step.resting .normal k next]

/-- The number of states of a step. -/
def width (step : Step ε) : Nat :=
  match step.quantifier with
  | .single => 1
  | .zeroOrMore | .oneOrMore => 2

/-- The position at which the block of a step at `k` is entered. -/
def entry (step : Step ε) (k : Nat) : Nat :=
  match step.quantifier with
  | .zeroOrMore => k + 1
  | .single | .oneOrMore => k

theorem length_block (step : Step ε) (role : Role) (k next : Nat) :
    (step.block role k next).length = step.width := by
  rw [block, width]
  cases step.quantifier <;> rfl

theorem mem_skips_iff {step : Step ε} {target : Nat} {t : Transition ε} :
    t ∈ step.skips target ↔
      step.strictness = .relaxed ∧ t = ⟨.ignore, target, some step.refusal⟩ := by
  rw [skips]
  cases step.strictness <;> simp

theorem eq_of_mem_skips {step : Step ε} {target : Nat} {t : Transition ε}
    (h : t ∈ step.skips target) : t = ⟨.ignore, target, some step.refusal⟩ :=
  (mem_skips_iff.mp h).2

theorem eq_of_mem_waiting {step : Step ε} {role : Role} {k target : Nat} {t : Transition ε}
    (h : t ∈ (step.waiting role k target).transitions) :
    t = ⟨.take, target, some step.demand⟩ ∨ t = ⟨.ignore, k, some step.refusal⟩ := by
  rcases List.mem_cons.mp h with rfl | h
  · exact Or.inl rfl
  · exact Or.inr (eq_of_mem_skips h)

theorem eq_of_mem_resting {step : Step ε} {role : Role} {k next : Nat} {t : Transition ε}
    (h : t ∈ (step.resting role k next).transitions) :
    t = ⟨.take, k + 1, some step.demand⟩ ∨ t = ⟨.ignore, k, some step.refusal⟩ ∨
      t = ⟨.proceed, next, none⟩ := by
  rcases List.mem_cons.mp h with rfl | h
  · exact Or.inl rfl
  · rcases List.mem_append.mp h with h | h
    · exact Or.inr (Or.inl (eq_of_mem_skips h))
    · exact Or.inr (Or.inr (List.mem_singleton.mp h))

theorem movesOn_waiting (step : Step ε) (role : Role) (k target : Nat) :
    (step.waiting role k target).movesOn = false := by
  rw [← Bool.not_eq_true, State.movesOn_eq_true_iff]
  rintro ⟨t, ht, haction⟩
  rcases eq_of_mem_waiting ht with rfl | rfl <;> simp at haction

theorem movesOn_resting (step : Step ε) (role : Role) (k next : Nat) :
    (step.resting role k next).movesOn = true :=
  State.movesOn_eq_true_iff.mpr ⟨⟨.proceed, next, none⟩, by simp [resting], rfl⟩

/-- A block is one waiting state, or a waiting state with a resting one behind it. -/
theorem block_cases (step : Step ε) (role : Role) (k next : Nat) :
    (step.width = 1 ∧ step.block role k next = [step.waiting role k next]) ∨
      (step.width = 2 ∧ ∃ r r', step.block role k next =
        [step.waiting r k (k + 1), step.resting r' k next]) := by
  rw [width, block]
  cases step.quantifier with
  | single => exact Or.inl ⟨rfl, rfl⟩
  | zeroOrMore => exact Or.inr ⟨rfl, _, _, rfl⟩
  | oneOrMore => exact Or.inr ⟨rfl, _, _, rfl⟩

theorem le_entry (step : Step ε) (k : Nat) : k ≤ step.entry k := by
  rw [entry]
  cases step.quantifier <;> simp

theorem entry_lt (step : Step ε) (k : Nat) : step.entry k < k + step.width := by
  rw [entry, width]
  cases step.quantifier <;> simp

end Step

/-! ### Layouts -/

/-- The role of an entry, given the elements that come before its own in the pattern. -/
def entryRole : List (Step ε) → Role
  | [] => .start
  | _ :: _ => .normal

/-- The blocks of elements, last element first, from position `k` on and leading into `next`. -/
def layout : Nat → Nat → List (Step ε) → List (State ε)
  | _, _, [] => []
  | k, next, step :: rest =>
    step.block (entryRole rest) k next ++ layout (k + step.width) (step.entry k) rest

/-- Where the first element of a pattern is entered. -/
def entryOf : Nat → Nat → List (Step ε) → Nat
  | _, next, [] => next
  | k, _, step :: rest => entryOf (k + step.width) (step.entry k) rest

/-- The automaton of a pattern. -/
def Pattern.automaton (p : Pattern ε) (finalName : String) : Automaton ε :=
  ⟨⟨0, finalName, .final, []⟩ :: layout 1 0 p.steps, entryOf 1 0 p.steps, 0⟩

theorem Pattern.steps_ne_nil (p : Pattern ε) : p.steps ≠ [] := by
  obtain ⟨rest, hrest⟩ := p.chains_eq_cons
  simp [Pattern.steps, hrest]

/-! ### Growing a draft -/

theorem modify_append_length {α : Type u} (xs : List α) (x : α) (ys : List α) (f : α → α) :
    (xs ++ x :: ys).modify xs.length f = xs ++ f x :: ys := by
  induction xs with
  | nil => rfl
  | cons y xs ih => simp [List.modify_succ_cons, ih]

namespace Draft

@[simp] theorem states_addState (d : Draft ε) (name : String) (role : Role) :
    (d.addState name role).states = d.states ++ [⟨d.size, name, role, []⟩] := rfl

@[simp] theorem states_modifyState (d : Draft ε) (id : StateId) (f : State ε → State ε) :
    (d.modifyState id f).states = d.states.modify id f := rfl

theorem states_connect (d : Draft ε) (source : StateId) (t : Transition ε) :
    (d.connect source t).states =
      d.states.modify source fun s => { s with transitions := s.transitions ++ [t] } := by
  rw [connect]
  split <;> rfl

/-- A transition added to the state at the end of `xs` goes to the end of its list. -/
theorem states_connect_of_eq {d : Draft ε} {xs ys : List (State ε)} {s : State ε}
    (h : d.states = xs ++ s :: ys) (t : Transition ε) :
    (d.connect xs.length t).states =
      xs ++ { s with transitions := s.transitions ++ [t] } :: ys := by
  rw [states_connect, h, modify_append_length]

theorem states_skipCalls_of_eq {d : Draft ε} {xs ys : List (State ε)} {s : State ε}
    (h : d.states = xs ++ s :: ys) (step : Step ε) (target : Nat) :
    ((step.skipCalls xs.length target).foldl call d).states =
      xs ++ { s with transitions := s.transitions ++ step.skips target } :: ys := by
  rw [Step.skipCalls, Step.skips]
  cases step.strictness with
  | strict => simp [h]
  | relaxed => exact states_connect_of_eq h _

theorem states_addStep_of_single (d : Draft ε) {step : Step ε} (hq : step.quantifier = .single)
    (next : Nat) :
    (d.addStep step next).1.states = d.states ++ [step.waiting .normal d.size next] := by
  have hstate : (d.addState step.name .normal).states =
      d.states ++ [⟨d.size, step.name, .normal, []⟩] := rfl
  have htake := states_connect_of_eq hstate ⟨.take, next, some step.demand⟩
  rw [addStep_fst, Step.calls, hq]
  exact states_skipCalls_of_eq htake step d.size

theorem states_addStep_of_repeated (d : Draft ε) {step : Step ε} (hq : step.quantifier ≠ .single)
    (next : Nat) :
    (d.addStep step next).1.states = d.states ++
      [step.waiting .normal d.size (d.size + 1), step.resting .normal d.size next] := by
  have hstates : ((d.addState step.name .normal).addState step.name .normal).states =
      d.states ++ [⟨d.size, step.name, .normal, []⟩, ⟨d.size + 1, step.name, .normal, []⟩] := by
    simp [size]
  have hloop := states_skipCalls_of_eq
    (states_connect_of_eq hstates ⟨.take, d.size + 1, some step.demand⟩) step d.size
  -- the second state stands at the end of the states up to the first
  rw [← List.singleton_append, ← List.append_assoc] at hloop
  have htake := states_connect_of_eq hloop ⟨.take, d.size + 1, some step.demand⟩
  have hskip := states_skipCalls_of_eq htake step d.size
  have hproceed := states_connect_of_eq hskip ⟨.proceed, next, none⟩
  rw [addStep_fst, Step.calls]
  cases hq' : step.quantifier with
  | single => exact absurd hq' hq
  | _ => simpa [call, take, proceed, size, Step.waiting, Step.resting] using hproceed

/-- Adding an element appends its block to the arena. -/
theorem states_addStep (d : Draft ε) (step : Step ε) (next : Nat) :
    (d.addStep step next).1.states = d.states ++ step.block .normal d.size next := by
  rw [Step.block]
  cases hq : step.quantifier with
  | single => exact d.states_addStep_of_single hq next
  | zeroOrMore => exact d.states_addStep_of_repeated (by simp [hq]) next
  | oneOrMore => exact d.states_addStep_of_repeated (by simp [hq]) next

/-- A block whose entry is made the start is the block of a first element. -/
theorem modify_entry_block (xs : List (State ε)) (step : Step ε) (next : Nat) :
    (xs ++ step.block .normal xs.length next).modify (step.entry xs.length)
        (fun s => { s with role := .start }) =
      xs ++ step.block .start xs.length next := by
  rw [Step.block, Step.block, Step.entry]
  cases step.quantifier with
  | single => exact modify_append_length xs _ [] _
  | oneOrMore => exact modify_append_length xs _ _ _
  | zeroOrMore =>
    have := modify_append_length (xs ++ [step.waiting .normal xs.length (xs.length + 1)])
      (step.resting .normal xs.length next) [] (fun s => { s with role := .start })
    simpa [Step.resting] using this

theorem entry_addStep (d : Draft ε) (step : Step ε) (next : Nat) :
    (d.addStep step next).2.entry = step.entry d.size := by
  rw [addStep_snd, Step.blockAt, Step.entry]
  cases hq : step.quantifier <;> simp [Quantifier.allowsZero]

/-- A draft with one more element, and with the notice of it if that is asked for. -/
def addNoted (verbose : Bool) (d : Draft ε) (step : Step ε) (next : Nat) : Draft ε :=
  if verbose then (d.addStep step next).1.note (step.noticeOf (d.addStep step next).2)
  else (d.addStep step next).1

theorem addSteps_cons (verbose : Bool) (d : Draft ε) (next : Nat) (step : Step ε)
    (rest : List (Step ε)) :
    addSteps verbose d next (step :: rest) =
      addSteps verbose (d.addNoted verbose step next) (step.entry d.size) rest := by
  rw [addSteps, ← entry_addStep d step next]
  rfl

theorem states_addNoted (verbose : Bool) (d : Draft ε) (step : Step ε) (next : Nat) :
    (d.addNoted verbose step next).states = d.states ++ step.block .normal d.size next := by
  rw [addNoted, ← states_addStep d step next]
  split <;> rfl

theorem size_addNoted (verbose : Bool) (d : Draft ε) (step : Step ε) (next : Nat) :
    (d.addNoted verbose step next).size = d.size + step.width := by
  rw [size, states_addNoted, List.length_append, step.length_block, size]

/-- Turning the entry of the first element into the start gives the layout: the elements before it
in the arena were added with normal entries. -/
theorem states_setRole_addSteps (verbose : Bool) (steps : List (Step ε)) (hsteps : steps ≠ [])
    (d : Draft ε) (next : Nat) :
    ((addSteps verbose d next steps).1.setRole (addSteps verbose d next steps).2 .start).states =
      d.states ++ layout d.size next steps := by
  induction steps generalizing d next with
  | nil => exact absurd rfl hsteps
  | cons step rest ih =>
    rw [addSteps_cons]
    cases rest with
    | nil =>
      rw [addSteps, setRole, states_modifyState, states_addNoted, layout, layout, List.append_nil,
        entryRole]
      exact modify_entry_block d.states step next
    | cons step' rest =>
      rw [ih (by simp) _ (step.entry d.size), states_addNoted, size_addNoted, List.append_assoc]
      rfl

theorem entry_addSteps (verbose : Bool) (steps : List (Step ε)) (d : Draft ε) (next : Nat) :
    (addSteps verbose d next steps).2 = entryOf d.size next steps := by
  induction steps generalizing d next with
  | nil => rfl
  | cons step rest ih => rw [addSteps_cons, ih, size_addNoted, entryOf]

end Draft

/-! ### The automaton of a pattern -/

/-- The draft of a pattern is the automaton of its layout, whatever notices are emitted. -/
theorem Pattern.build_draft (settings : Settings) (p : Pattern ε) :
    (p.draft settings).1.build (p.draft settings).2 0 = p.automaton settings.finalName := by
  rw [Pattern.draft, Draft.build, Pattern.automaton]
  simp only [Draft.get_call?, Draft.call]
  rw [Draft.states_setRole_addSteps _ _ p.steps_ne_nil, Draft.entry_addSteps]
  rfl

theorem compile_fst (settings : Settings) (p : Pattern ε) :
    (compile settings p).1 =
      match settings.check with
      | .error cause => .error cause
      | .ok () =>
        match p.checkNames with
        | .error cause => .error (.malformedPattern cause)
        | .ok () =>
          match (if settings.audited then (p.automaton settings.finalName).audit else .ok ()) with
          | .error fault => .error fault.toFailure
          | .ok () => .ok (p.automaton settings.finalName) := by
  rw [compile]
  cases settings.check with
  | error cause => rfl
  | ok u =>
    cases p.checkNames with
    | error cause => rfl
    | ok u =>
      simp only [Pattern.build_draft]
      generalize (if settings.audited then _ else _ : Except Fault Unit) = verdict
      cases verdict <;> rfl

/-! ### Parts of an arena -/

namespace Automaton

/-- A list of states lies in the arena from a position on. -/
def Spans (a : Automaton ε) (k : Nat) (states : List (State ε)) : Prop :=
  ∀ j s, states[j]? = some s → a.state? (k + j) = some s

variable {a : Automaton ε} {k : Nat}

theorem Spans.append {xs ys : List (State ε)} (h : a.Spans k (xs ++ ys)) :
    a.Spans k xs ∧ a.Spans (k + xs.length) ys := by
  constructor
  · intro j s hj
    apply h
    rw [List.getElem?_append_left (List.getElem?_eq_some_iff.mp hj).choose, hj]
  · intro j s hj
    rw [Nat.add_assoc]
    apply h
    rw [List.getElem?_append_right (by omega), Nat.add_sub_cancel_left, hj]

theorem Spans.head {s : State ε} {xs : List (State ε)} (h : a.Spans k (s :: xs)) :
    a.state? k = some s := by
  simpa using h 0 s rfl

/-- A layout in an arena is its last block followed by the layout of the elements before. -/
theorem Spans.layout_cons {next : Nat} {step : Step ε} {rest : List (Step ε)}
    (h : a.Spans k (layout k next (step :: rest))) :
    a.Spans k (step.block (entryRole rest) k next) ∧
      a.Spans (k + step.width) (layout (k + step.width) (step.entry k) rest) := by
  have := h.append
  rwa [step.length_block] at this

end Automaton

theorem Pattern.automaton_spans (p : Pattern ε) (finalName : String) :
    (p.automaton finalName).Spans 1 (layout 1 0 p.steps) := by
  intro j s hj
  rw [Nat.add_comm]
  exact hj

end ChainAutomata
