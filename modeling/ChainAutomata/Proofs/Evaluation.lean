/-
The order in which the conditions of an element are evaluated.

The conditions of an element are joined into a tree as they are added, the type is put before them, and
for the events to skip all is negated.  Evaluating that tree comes to checking the type and then the
conditions one after the other, in the order in which they were added, until one fails:

* `Condition.tests` — the tests that run when a condition is evaluated, in order;
* `Condition.checked` — the conditions of a list up to and including the first that fails;
* `Declaration.tests_demand` — an element runs the tests of what is checked, and no others;
* `demand_checks_in_call_order` — the same of every element of a chain that was built by calls.

Design notes: a tree that is joined from the left grows at its root, so the induction on the conditions
starts from any tree.  The notes that tests leave do not show all of them, as looking at the type
leaves none; `tests` lists every leaf that is evaluated, and `Condition.eval_snd` says that the notes
are theirs.
-/
import ChainAutomata.Proofs.Declaration

universe u

namespace ChainAutomata

open Pattern (Call)

variable {ε : Type u}

namespace Condition

/-! ### The tests that run -/

/-- The tests that run when a condition is evaluated on an event, in order. -/
def tests : Condition ε → ε → List (Condition ε)
  | always, _ => [always]
  | ofType type, _ => [ofType type]
  | function probe, _ => [function probe]
  | unnamed probe, _ => [unnamed probe]
  | labelled label probe, _ => [labelled label probe]
  | both left right, e => left.tests e ++ if left.holds e then right.tests e else []
  | negation inner, e => inner.tests e

theorem eval_both_snd (left right : Condition ε) (e : ε) :
    ((both left right).eval e).2 =
      (left.eval e).2 ++ if left.holds e then (right.eval e).2 else [] := by
  rw [eval, holds]
  cases (left.eval e).1 <;> simp

/-- The notes that an evaluation leaves are those of the tests that run. -/
theorem eval_snd (c : Condition ε) (e : ε) :
    (c.eval e).2 = (c.tests e).flatMap fun t => (t.eval e).2 := by
  induction c with
  | always => simp [tests]
  | ofType type => simp [tests]
  | function probe => simp [tests]
  | unnamed probe => simp [tests]
  | labelled label probe => simp [tests]
  | both left right ihl ihr =>
    rw [eval_both_snd, tests, List.flatMap_append, ihl, ihr]
    split <;> simp
  | negation inner ih => exact ih

/-! ### Conditions in a row -/

/-- The conditions of a list up to and including the first that fails. -/
def checked (cs : List (Condition ε)) (e : ε) : List (Condition ε) :=
  cs.take ((cs.takeWhile fun c => c.holds e).length + 1)

theorem checked_cons (c : Condition ε) (cs : List (Condition ε)) (e : ε) :
    checked (c :: cs) e = c :: if c.holds e then checked cs e else [] := by
  rw [checked, List.take_succ_cons, List.takeWhile_cons]
  split <;> rfl

theorem holds_foldl_both (c : Condition ε) (cs : List (Condition ε)) (e : ε) :
    (cs.foldl both c).holds e = (c.holds e && cs.all fun w => w.holds e) := by
  induction cs generalizing c with
  | nil => simp
  | cons d cs ih => rw [List.foldl_cons, ih, holds_both, List.all_cons, Bool.and_assoc]

theorem tests_foldl_both (c : Condition ε) (cs : List (Condition ε)) (e : ε) :
    (cs.foldl both c).tests e =
      c.tests e ++ if c.holds e then (checked cs e).flatMap fun w => w.tests e else [] := by
  -- The fold joins `d` to `c` first, and the two together are what the induction starts from.
  induction cs generalizing c with
  | nil => simp [checked]
  | cons d cs ih =>
    rw [List.foldl_cons, ih, tests, holds_both, checked_cons, List.flatMap_cons]
    cases c.holds e with
    | false => simp
    | true => cases d.holds e <;> simp

end Condition

open Condition (checked)

/-! ### What an element asks of an event -/

namespace Declaration

/-- What is asked of an event: first the type, then the conditions. -/
def wants (d : Declaration ε) : List (Condition ε) := d.type?.toList.map .ofType ++ d.conditions

/-- The condition of an element, by what is asked: the type stands apart from the conditions, which are
joined from the left. -/
theorem demand_cases (d : Declaration ε) :
    (d.wants = [] ∧ d.step.demand = .always) ∨
    (∃ w ws, d.wants = w :: ws ∧ d.step.demand = ws.foldl .both w) ∨
    ∃ type w ws, d.wants = .ofType type :: w :: ws ∧
      d.step.demand = .both (.ofType type) (ws.foldl .both w) := by
  rw [Step.demand, Element.demand, step, wants]
  cases d.type? with
  | none =>
    cases d.conditions with
    | nil => exact Or.inl ⟨rfl, rfl⟩
    | cons w ws => exact Or.inr (Or.inl ⟨w, ws, rfl, rfl⟩)
  | some type =>
    cases d.conditions with
    | nil => exact Or.inr (Or.inl ⟨.ofType type, [], rfl, rfl⟩)
    | cons w ws => exact Or.inr (Or.inr ⟨type, w, ws, rfl, rfl⟩)

theorem demand_of_wants_eq_nil {d : Declaration ε} (h : d.wants = []) : d.step.demand = .always := by
  rcases d.demand_cases with ⟨-, hdemand⟩ | ⟨w, ws, hwants, -⟩ | ⟨type, w, ws, hwants, -⟩
  · exact hdemand
  · exact absurd (hwants.symm.trans h) (List.cons_ne_nil _ _)
  · exact absurd (hwants.symm.trans h) (List.cons_ne_nil _ _)

theorem holds_demand (d : Declaration ε) (e : ε) :
    d.step.demand.holds e = d.wants.all fun w => w.holds e := by
  rcases d.demand_cases with ⟨hwants, hdemand⟩ | ⟨w, ws, hwants, hdemand⟩ | ⟨type, w, ws, hwants, hdemand⟩
  · rw [hwants, hdemand]
    rfl
  · rw [hwants, hdemand, Condition.holds_foldl_both, List.all_cons]
  · rw [hwants, hdemand, Condition.holds_both, Condition.holds_foldl_both, List.all_cons,
      List.all_cons]

/-- An element is taken by the events of its type that meet every condition. -/
theorem holds_demand_iff (d : Declaration ε) (e : ε) :
    d.step.demand.holds e = true ↔
      (∀ type ∈ d.type?, type.includes e = true) ∧ ∀ w ∈ d.conditions, w.holds e = true := by
  rw [holds_demand, wants, List.all_append, Bool.and_eq_true, List.all_eq_true, List.all_eq_true]
  simp

/-- The tests of an element are those of what is asked, until something asked is not met. -/
theorem tests_demand {d : Declaration ε} (h : d.wants ≠ []) (e : ε) :
    d.step.demand.tests e = (checked d.wants e).flatMap fun w => w.tests e := by
  rcases d.demand_cases with ⟨hwants, -⟩ | ⟨w, ws, hwants, hdemand⟩ | ⟨type, w, ws, hwants, hdemand⟩
  · exact absurd hwants h
  · rw [hwants, hdemand, Condition.tests_foldl_both, Condition.checked_cons, List.flatMap_cons]
    split <;> rfl
  · -- The type guards the whole tree of the conditions, `w` only the ones after it.
    rw [hwants, hdemand, Condition.tests, Condition.tests_foldl_both, Condition.checked_cons,
      Condition.checked_cons, List.flatMap_cons]
    cases (Condition.ofType type).holds e with
    | false => rfl
    | true => cases w.holds e <;> simp

/-- So are its notes. -/
theorem eval_demand_snd (d : Declaration ε) (e : ε) :
    (d.step.demand.eval e).2 = (checked d.wants e).flatMap fun w => (w.eval e).2 := by
  by_cases h : d.wants = []
  · rw [h, demand_of_wants_eq_nil h]
    rfl
  · rw [Condition.eval_snd, tests_demand h, List.flatMap_assoc]
    simp only [← Condition.eval_snd]

end Declaration

/-! ### Elements of a chain -/

/-- **The conditions of an element are checked in the order of the calls.**  Whatever calls were made on
an element of a chain, an event is taken if it has the type set last and meets every condition that was
added, and any event is if there are neither.  Looking at it checks the type first and then the
conditions in the order in which they were added, ends with the first that fails, and runs each at most
once.  The events to skip are all others, told apart by the same tests in the same order. -/
theorem demand_checks_in_call_order {name : String} {cs : List (Call ε)} {i : Nat}
    {d : Declaration ε} (hd : (declarations { link := .strict, name } cs)[i]? = some d) :
    ∃ step, ((Pattern.begin name).calls cs).steps.reverse[i]? = some step ∧
      (d.wants = [] → step.demand = .always) ∧
      ∀ e, (step.demand.holds e = true ↔
          (∀ type ∈ d.type?, type.includes e = true) ∧ ∀ w ∈ d.conditions, w.holds e = true) ∧
        (d.wants ≠ [] → step.demand.tests e = (checked d.wants e).flatMap fun w => w.tests e) ∧
        (step.demand.eval e).2 = ((checked d.wants e).flatMap fun w => (w.eval e).2) ∧
        (step.refusal.holds e = true ↔ step.demand.holds e = false) ∧
        step.refusal.tests e = step.demand.tests e ∧
        (step.refusal.eval e).2 = (step.demand.eval e).2 := by
  refine ⟨d.step, ?_, Declaration.demand_of_wants_eq_nil, fun e => ⟨d.holds_demand_iff e,
    fun h => Declaration.tests_demand h e, d.eval_demand_snd e, ?_, rfl, rfl⟩⟩
  · rw [Pattern.steps_calls_begin, List.reverse_reverse, List.getElem?_map, hd]
    rfl
  · rw [Step.refusal, Condition.holds_negation, Bool.not_eq_true']

/-- A test for multiples of `n` that says that it ran. -/
def noted (n : Nat) (label : String) : Condition Nat := .function fun e => (e % n == 0, [label])

/-- Calls on one element that set its type twice, between three conditions. -/
def notedCalls : List (Call Nat) :=
  [.narrow (below 9), .require (noted 2 "two"), .narrow (below 50), .require (noted 3 "three"),
    .repeats .oneOrMore, .require (noted 5 "five")]

/-- The type set last admits 10 and not 60; after two, three fails on 10, and five does not run. -/
theorem exists_step_notedCalls :
    (declarations { link := .strict, name := "a" } notedCalls)[0]? =
      some { link := .strict, name := "a", changes := notedCalls } ∧
    ∃ step, ((Pattern.begin "a").calls notedCalls).steps.reverse[0]? = some step ∧
      (step.demand.eval 10).2 = ["two", "three"] ∧ (step.demand.eval 60).2 = [] ∧
      step.demand.holds 30 = true ∧ step.refusal.holds 30 ≠ true := by
  have hd : (declarations { link := .strict, name := "a" } notedCalls)[0]? =
      some { link := .strict, name := "a", changes := notedCalls } := rfl
  obtain ⟨step, hstep, -, hevents⟩ := demand_checks_in_call_order hd
  obtain ⟨-, -, hten, -⟩ := hevents 10
  obtain ⟨-, -, hsixty, -⟩ := hevents 60
  obtain ⟨hiff, -, -, hrefusal, -⟩ := hevents 30
  have hthirty : step.demand.holds 30 = true := by
    refine hiff.mpr ⟨?_, ?_⟩
    · intro type htype
      obtain rfl := Option.some_inj.mp htype
      rfl
    · show ∀ w ∈ [noted 2 "two", noted 3 "three", noted 5 "five"], w.holds 30 = true
      decide
  refine ⟨hd, step, hstep, hten, hsixty, hthirty, fun h => ?_⟩
  exact Bool.false_ne_true ((hrefusal.mp h).symm.trans hthirty)

end ChainAutomata
