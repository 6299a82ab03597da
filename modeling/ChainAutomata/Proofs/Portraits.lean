/-
Portraits of compiled patterns.

The graph of a pattern depends on its elements only through their slots: name, strictness and
quantifier.  The portraits of the automaton of a pattern are those of its final state and of one
block per slot, read from the first element on: each block shows what is seen of the entry of the
next one, or of the final state.

* `Slot.blockPortraits`, `chainPortraits` — the portraits of one element and of a list of them;
* `Pattern.plan` — the slots of a pattern;
* `Pattern.portraits_perm` — the portraits of the automaton of a pattern are those of its plan.

Design notes: a layout is written last element first, but only the first element can be told from
its portraits alone, by the role of the start.  So `chainPortraits` goes the other way, and the
portraits of a layout are a permutation of it.
-/
import ChainAutomata.Proofs.Isomorphism
import ChainAutomata.Proofs.Layout

universe u w

namespace ChainAutomata

variable {ε : Type u} {φ : Type w}

/-! ### Slots -/

/-- What of an element goes into the graph: all but the condition. -/
structure Slot where
  name : String
  strictness : Strictness
  quantifier : Quantifier
  deriving DecidableEq

def Step.slot (step : Step ε) : Slot := ⟨step.name, step.strictness, step.quantifier⟩

@[simp] theorem Step.name_slot (step : Step ε) : step.slot.name = step.name := rfl

theorem Step.quantifier_slot (step : Step ε) : step.slot.quantifier = step.quantifier := rfl

namespace Slot

variable (look : String → Bool → φ)

/-- What is seen of the entry of a block. -/
def face (x : Slot) : φ := look x.name x.quantifier.allowsZero

/-- The edges on refused events, on relaxed elements only; they lead to the waiting state. -/
def skipSights (x : Slot) : List (Action × φ) :=
  match x.strictness with
  | .strict => []
  | .relaxed => [(.ignore, look x.name false)]

/-- The portrait of a waiting state that leads into a state that is seen as `target`. -/
def waitingPortrait (x : Slot) (role : Role) (target : φ) : Portrait φ :=
  ⟨role, x.name, ((.take, target) :: x.skipSights look : List (Action × φ))⟩

def restingPortrait (x : Slot) (role : Role) (next : φ) : Portrait φ :=
  ⟨role, x.name, ((.take, look x.name true) :: (x.skipSights look ++ [(.proceed, next)]) :
    List (Action × φ))⟩

/-- The portraits of a block that leads into a state that is seen as `next`. -/
def blockPortraits (x : Slot) (role : Role) (next : φ) : List (Portrait φ) :=
  match x.quantifier with
  | .single => [x.waitingPortrait look role next]
  | .zeroOrMore =>
    [x.waitingPortrait look .normal (look x.name true), x.restingPortrait look role next]
  | .oneOrMore =>
    [x.waitingPortrait look role (look x.name true), x.restingPortrait look .normal next]

end Slot

/-! ### Blocks -/

namespace Step

variable {look : String → Bool → φ}

theorem face_waiting (step : Step ε) (role : Role) (k target : Nat) :
    (step.waiting role k target).face look = look step.name false := by
  rw [State.face, movesOn_waiting]
  rfl

theorem face_resting (step : Step ε) (role : Role) (k next : Nat) :
    (step.resting role k next).face look = look step.name true := by
  rw [State.face, movesOn_resting]
  rfl

variable {a : Automaton ε} {step : Step ε} {role : Role} {k target next : Nat} {x : φ}

theorem sights_skips (h : (a.state? target).map (State.face look) = some (look step.name false)) :
    (step.skips target).filterMap
        (fun t => (a.target? t).map fun u => (t.action, u.face look)) = step.slot.skipSights look := by
  obtain ⟨u, hu, hface⟩ := Option.map_eq_some_iff.mp h
  rw [skips, Slot.skipSights, slot]
  cases step.strictness with
  | strict => rfl
  | relaxed => simp [Automaton.target?, hu, hface]

theorem portrait_waiting (hself : a.state? k = some (step.waiting role k target))
    (htarget : (a.state? target).map (State.face look) = some x) :
    a.portrait look (step.waiting role k target) = step.slot.waitingPortrait look role x := by
  have hskips : (a.state? k).map (State.face look) = some (look step.name false) := by
    rw [hself, Option.map_some, face_waiting]
  obtain ⟨u, hu, hface⟩ := Option.map_eq_some_iff.mp htarget
  rw [Automaton.portrait, Slot.waitingPortrait, ← sights_skips hskips]
  simp [Automaton.sights, Automaton.target?, waiting, hu, hface]

theorem portrait_resting {r : Role} {t : Nat} (hwaiting : a.state? k = some (step.waiting r k t))
    (hself : a.state? (k + 1) = some (step.resting role k next))
    (hnext : (a.state? next).map (State.face look) = some x) :
    a.portrait look (step.resting role k next) = step.slot.restingPortrait look role x := by
  have hskips : (a.state? k).map (State.face look) = some (look step.name false) := by
    rw [hwaiting, Option.map_some, face_waiting]
  have hloop : (step.resting role k next).face look = look step.name true := face_resting _ _ _ _
  obtain ⟨u, hu, hface⟩ := Option.map_eq_some_iff.mp hnext
  rw [Automaton.portrait, Slot.restingPortrait, ← sights_skips hskips, name_slot, ← hloop]
  simp [Automaton.sights, Automaton.target?, resting, hself, hu, hface]

/-- What is seen of the entry of a block that lies in an arena. -/
theorem face_entry (h : a.Spans k (step.block role k next)) :
    (a.state? (step.entry k)).map (State.face look) = some (step.slot.face look) := by
  rw [block] at h
  rw [entry, Slot.face, slot]
  cases hq : step.quantifier with
  | single =>
    rw [hq] at h
    rw [h.head, Option.map_some, face_waiting]
    rfl
  | zeroOrMore =>
    rw [hq] at h
    rw [h 1 _ rfl, Option.map_some, face_resting]
    rfl
  | oneOrMore =>
    rw [hq] at h
    rw [h.head, Option.map_some, face_waiting]
    rfl

/-- The portraits of a repeated element, of which either state may be the entry. -/
theorem portraits_loop {r r' : Role}
    (h : a.Spans k [step.waiting r k (k + 1), step.resting r' k next])
    (hnext : (a.state? next).map (State.face look) = some x) :
    [a.portrait look (step.waiting r k (k + 1)), a.portrait look (step.resting r' k next)] =
      [step.slot.waitingPortrait look r (look step.name true),
        step.slot.restingPortrait look r' x] := by
  have hwaiting : a.state? k = some (step.waiting r k (k + 1)) := h.head
  have hresting : a.state? (k + 1) = some (step.resting r' k next) := h 1 _ rfl
  have hbehind : (a.state? (k + 1)).map (State.face look) = some (look step.name true) := by
    rw [hresting, Option.map_some, face_resting]
  rw [portrait_waiting hwaiting hbehind, portrait_resting hwaiting hresting hnext]

/-- The portraits of a block depend on the arena only through what is seen of its successor. -/
theorem map_portrait_block (h : a.Spans k (step.block role k next))
    (hnext : (a.state? next).map (State.face look) = some x) :
    (step.block role k next).map (a.portrait look) = step.slot.blockPortraits look role x := by
  rw [block] at h ⊢
  rw [Slot.blockPortraits, quantifier_slot]
  cases hq : step.quantifier with
  | single =>
    rw [hq] at h
    exact congrArg (fun p => [p]) (portrait_waiting h.head hnext)
  | zeroOrMore =>
    rw [hq] at h
    exact portraits_loop h hnext
  | oneOrMore =>
    rw [hq] at h
    exact portraits_loop h hnext

end Step

/-! ### Chains -/

section Chains

variable (look : String → Bool → φ)

/-- What is seen of the entry of the first of some elements, or of what they lead into. -/
def chainFace (next : φ) : List Slot → φ
  | [] => next
  | x :: _ => x.face look

/-- The portraits of the blocks of elements, first element first; `role` is that of the entry of the
first one, and the last one leads into a state that is seen as `next`. -/
def chainPortraits (role : Role) (next : φ) : List Slot → List (Portrait φ)
  | [] => []
  | x :: xs => x.blockPortraits look role (chainFace look next xs) ++ chainPortraits .normal next xs

variable {look}

theorem chainFace_concat (next : φ) (xs : List Slot) (x : Slot) :
    chainFace look next (xs ++ [x]) = chainFace look (x.face look) xs := by
  cases xs <;> rfl

theorem chainPortraits_concat (next : φ) (xs : List Slot) (x : Slot) :
    chainPortraits look .normal next (xs ++ [x]) =
      chainPortraits look .normal (x.face look) xs ++ x.blockPortraits look .normal next := by
  induction xs with
  | nil => simp [chainPortraits, chainFace]
  | cons y ys ih =>
    rw [List.cons_append, chainPortraits, chainPortraits, chainFace_concat, ih, List.append_assoc]

/-- An element added to the end of a chain puts its block behind the others. -/
theorem chainPortraits_reverse_cons (next : φ) (step : Step ε) (rest : List (Step ε)) :
    chainPortraits look .start next ((step :: rest).reverse.map Step.slot) =
      chainPortraits look .start (step.slot.face look) (rest.reverse.map Step.slot) ++
        step.slot.blockPortraits look (entryRole rest) next := by
  rw [List.reverse_cons, List.map_append]
  cases hrest : rest.reverse with
  | nil =>
    obtain rfl : rest = [] := List.reverse_eq_nil_iff.mp hrest
    simp [chainPortraits, chainFace, entryRole]
  | cons first others =>
    have hrole : entryRole rest = .normal := by
      cases rest with
      | nil => exact absurd hrest (by simp)
      | cons y ys => rfl
    rw [hrole, List.map_cons, List.cons_append, chainPortraits, chainPortraits]
    rw [show [step].map Step.slot = [step.slot] from rfl, chainFace_concat, chainPortraits_concat,
      List.append_assoc]

/-- The portraits of a layout are those of the chain of its elements. -/
theorem map_portrait_layout_perm {a : Automaton ε} {steps : List (Step ε)} :
    ∀ {k next : Nat} {x : φ}, a.Spans k (layout k next steps) →
      (a.state? next).map (State.face look) = some x →
      ((layout k next steps).map (a.portrait look)).Perm
        (chainPortraits look .start x (steps.reverse.map Step.slot)) := by
  induction steps with
  | nil =>
    intro k next x _ _
    exact .nil
  | cons step rest ih =>
    intro k next x h hnext
    obtain ⟨hblock, hrest⟩ := h.layout_cons
    -- the block laid out first is the last of the chain
    rw [layout, List.map_append, Step.map_portrait_block hblock hnext, chainPortraits_reverse_cons]
    exact List.perm_append_comm.trans ((ih hrest (Step.face_entry hblock)).append_right _)

end Chains

/-- The slots of the elements, first element first. -/
def Pattern.plan (p : Pattern ε) : List Slot := p.steps.reverse.map Step.slot

/-- The portraits of the automaton of a pattern. -/
theorem Pattern.portraits_perm (look : String → Bool → φ) (p : Pattern ε) (finalName : String) :
    ((p.automaton finalName).portraits look).Perm
      (⟨.final, finalName, 0⟩ :: chainPortraits look .start (look finalName false) p.plan) := by
  refine .cons _ ?_
  exact map_portrait_layout_perm (p.automaton_spans finalName) rfl

end ChainAutomata
