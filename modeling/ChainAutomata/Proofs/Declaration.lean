/-
What a sequence of calls builds.

A chain is built by a first name and calls.  Some of these declare a further element, and the others
change the element declared last.  Cutting the sequence at the declaring calls gives the elements, each
with the calls that changed it:

* `Declaration`, `declarations` — an element as it was declared, and the cut of a call sequence;
* `Declaration.step` — what its changes amount to: all conditions in order, the last type and the last
  quantifier;
* `Pattern.steps_calls_begin` — the elements of a chain are those of its declarations;
* `Pattern.tail_chains_suffix_calls` — no call reaches an element that is no longer the last;
* `calls_have_normal_form` — the views of a chain that was built by calls.

Design notes: a call looks only at the last element, so the induction on the calls carries the chain
before it along unchanged and speaks of the declaration that is still open.
-/
import ChainAutomata.Compilation
import Mathlib.Data.List.Forall2

universe u v

namespace ChainAutomata

open Pattern (Call)

variable {ε : Type u}

/-! ### Calls -/

namespace Pattern.Call

/-- How the element that a call declares is linked, and its name. -/
def declares? : Call ε → Option (Strictness × String)
  | .next name => some (.strict, name)
  | .followedBy name => some (.relaxed, name)
  | .require _ | .narrow _ | .repeats _ => none

/-- The condition that a call adds. -/
def condition? : Call ε → Option (Condition ε)
  | .require c => some c
  | .next _ | .followedBy _ | .narrow _ | .repeats _ => none

/-- The type that a call sets. -/
def type? : Call ε → Option (EventType ε)
  | .narrow type => some type
  | .next _ | .followedBy _ | .require _ | .repeats _ => none

/-- The quantifier that a call sets. -/
def quantifier? : Call ε → Option Quantifier
  | .repeats q => some q
  | .next _ | .followedBy _ | .require _ | .narrow _ => none

end Pattern.Call

/-! ### Declarations -/

/-- All conditions of a list as one, joined from the left. -/
def Condition.all? : List (Condition ε) → Option (Condition ε)
  | [] => none
  | c :: cs => some (cs.foldl .both c)

theorem Condition.all?_concat (cs : List (Condition ε)) (c : Condition ε) :
    Condition.all? (cs ++ [c]) =
      some ((Condition.all? cs).elim c fun earlier => .both earlier c) := by
  cases cs with
  | nil => rfl
  | cons c' cs => rw [List.cons_append, all?, List.foldl_concat, all?, Option.elim_some]

/-- An element as it was declared, with the calls that changed it, in order. -/
structure Declaration (ε : Type u) where
  link : Strictness
  name : String
  changes : List (Call ε) := []

namespace Declaration

/-- The conditions that were added, in order. -/
def conditions (d : Declaration ε) : List (Condition ε) := d.changes.filterMap Call.condition?

/-- The type that was set last. -/
def type? (d : Declaration ε) : Option (EventType ε) := (d.changes.filterMap Call.type?).getLast?

/-- The quantifier that was set last. -/
def quantifier (d : Declaration ε) : Quantifier :=
  (d.changes.filterMap Call.quantifier?).getLast?.getD .single

/-- The element that the changes leave. -/
def step (d : Declaration ε) : Step ε where
  strictness := d.link
  element := {
    name := d.name
    condition := Condition.all? d.conditions
    type := d.type?
    quantifier := d.quantifier }

/-- The declaration with one change more. -/
def change (d : Declaration ε) (c : Call ε) : Declaration ε := { d with changes := d.changes ++ [c] }

theorem filterMap_changes_change (d : Declaration ε) (c : Call ε) {α : Type v}
    (f : Call ε → Option α) :
    (d.change c).changes.filterMap f = d.changes.filterMap f ++ (f c).toList := by
  rw [change, List.filterMap_append]
  cases hc : f c with
  | none => rw [List.filterMap_cons_none hc]; rfl
  | some y => rw [List.filterMap_cons_some hc]; rfl

/-! Conditions add up, while a type or a quantifier takes the place of the one before. -/

theorem conditions_change (d : Declaration ε) (c : Call ε) :
    (d.change c).conditions = d.conditions ++ c.condition?.toList :=
  d.filterMap_changes_change c Call.condition?

theorem type?_change (d : Declaration ε) (c : Call ε) : (d.change c).type? = c.type?.or d.type? := by
  rw [type?, filterMap_changes_change]
  cases c.type? <;> simp [type?]

theorem quantifier_change (d : Declaration ε) (c : Call ε) :
    (d.change c).quantifier = c.quantifier?.getD d.quantifier := by
  rw [quantifier, filterMap_changes_change]
  cases c.quantifier? <;> simp [quantifier]

theorem step_change_require (d : Declaration ε) (w : Condition ε) :
    (d.change (.require w)).step = ⟨d.link, d.step.element.require w⟩ := by
  rw [step, conditions_change, type?_change, quantifier_change]
  show (⟨d.link, { d.step.element with condition := Condition.all? (d.conditions ++ [w]) }⟩ : Step ε) = _
  rw [Condition.all?_concat, Element.require]
  cases hconditions : Condition.all? d.conditions <;> simp [step, hconditions]

theorem step_change_narrow (d : Declaration ε) (type : EventType ε) :
    (d.change (.narrow type)).step = ⟨d.link, { d.step.element with type := some type }⟩ := by
  rw [step, conditions_change, type?_change, quantifier_change, Call.condition?, Option.toList_none,
    List.append_nil]
  rfl

theorem step_change_repeats (d : Declaration ε) (q : Quantifier) :
    (d.change (.repeats q)).step = ⟨d.link, { d.step.element with quantifier := q }⟩ := by
  rw [step, conditions_change, type?_change, quantifier_change, Call.condition?, Option.toList_none,
    List.append_nil]
  rfl

/-- Two declarations of one element: the conditions come in the same order, and the types and the
quantifiers set last are the same.  How these calls are mixed, and what was set before, may differ. -/
structure Agrees (d d' : Declaration ε) : Prop where
  link : d.link = d'.link
  name : d.name = d'.name
  conditions : d.conditions = d'.conditions
  type : d.type? = d'.type?
  quantifier : d.quantifier = d'.quantifier

theorem Agrees.step_eq {d d' : Declaration ε} (h : d.Agrees d') : d.step = d'.step := by
  rw [step, step, h.link, h.name, h.conditions, h.type, h.quantifier]

theorem map_step_eq_of_agrees {ds ds' : List (Declaration ε)} (h : List.Forall₂ Agrees ds ds') :
    ds.map step = ds'.map step := by
  induction h with
  | nil => rfl
  | cons h _ ih => rw [List.map_cons, List.map_cons, h.step_eq, ih]

end Declaration

/-- The declarations in a sequence of calls, the first of which has begun already. -/
def declarations (d : Declaration ε) : List (Call ε) → List (Declaration ε)
  | [] => [d]
  | c :: cs =>
    match c.declares? with
    | some (link, name) => d :: declarations { link, name } cs
    | none => declarations (d.change c) cs

theorem declarations_of_declares {c : Call ε} {link : Strictness} {name : String}
    (h : c.declares? = some (link, name)) (d : Declaration ε) (cs : List (Call ε)) :
    declarations d (c :: cs) = d :: declarations { link, name } cs := by
  rw [declarations, h]

theorem declarations_of_changes {c : Call ε} (h : c.declares? = none) (d : Declaration ε)
    (cs : List (Call ε)) : declarations d (c :: cs) = declarations (d.change c) cs := by
  rw [declarations, h]

/-- A declaration for the first name and for each declaring call, in order. -/
theorem map_declared_declarations (d : Declaration ε) (cs : List (Call ε)) :
    (declarations d cs).map (fun x => (x.link, x.name)) =
      (d.link, d.name) :: cs.filterMap Call.declares? := by
  induction cs generalizing d with
  | nil => rfl
  | cons c cs ih =>
    cases hc : c.declares? with
    | none =>
      rw [declarations_of_changes hc, ih, List.filterMap_cons_none hc]
      rfl
    | some declared =>
      rw [declarations_of_declares hc, List.map_cons, ih, List.filterMap_cons_some hc]

namespace Pattern

variable {p : Pattern ε} {c : Call ε}

/-! ### One call -/

/-- A declaring call appends an element that nothing has changed yet. -/
theorem steps_call_of_declares {link : Strictness} {name : String}
    (h : c.declares? = some (link, name)) :
    (p.call c).steps = Declaration.step { link, name } :: p.steps := by
  cases c with
  | next n =>
    obtain ⟨rfl, rfl⟩ := Prod.mk.inj (Option.some_inj.mp h)
    rfl
  | followedBy n =>
    obtain ⟨rfl, rfl⟩ := Prod.mk.inj (Option.some_inj.mp h)
    rfl
  | require w => simp [Call.declares?] at h
  | narrow t => simp [Call.declares?] at h
  | repeats q => simp [Call.declares?] at h

theorem steps_modifyLast {step : Step ε} {earlier : List (Step ε)} (h : p.steps = step :: earlier)
    (f : Element ε → Element ε) :
    (p.modifyLast f).steps = ⟨step.strictness, f step.element⟩ :: earlier := by
  cases p with
  | head x =>
    obtain ⟨rfl, rfl⟩ := List.cons.inj h
    rfl
  | link q s x =>
    obtain ⟨rfl, rfl⟩ := List.cons.inj h
    rfl

/-- Any other call changes the last element as the declaration says, and no other one. -/
theorem steps_call_of_changes (hc : c.declares? = none) {d : Declaration ε}
    {earlier : List (Step ε)} (h : p.steps = d.step :: earlier) :
    (p.call c).steps = (d.change c).step :: earlier := by
  cases c with
  | next n => simp [Call.declares?] at hc
  | followedBy n => simp [Call.declares?] at hc
  | require w =>
    rw [d.step_change_require]
    exact steps_modifyLast h _
  | narrow t =>
    rw [d.step_change_narrow]
    exact steps_modifyLast h _
  | repeats q =>
    rw [d.step_change_repeats]
    exact steps_modifyLast h _

theorem tail_chains_suffix_call (p : Pattern ε) (c : Call ε) :
    p.chains.tail <:+ (p.call c).chains.tail := by
  cases c with
  | next n => exact List.tail_suffix _
  | followedBy n => exact List.tail_suffix _
  | require w => cases p <;> exact List.suffix_rfl
  | narrow t => cases p <;> exact List.suffix_rfl
  | repeats q => cases p <;> exact List.suffix_rfl

/-! ### Sequences of calls -/

/-- If the last element of a chain is what a declaration amounts to so far, calls continue that
declaration and append those that they make. -/
theorem steps_calls {d : Declaration ε} {earlier : List (Step ε)} (h : p.steps = d.step :: earlier)
    (cs : List (Call ε)) :
    (p.calls cs).steps = ((declarations d cs).map Declaration.step).reverse ++ earlier := by
  -- A declaring call moves `d` to the earlier elements and opens a declaration of its own.
  induction cs generalizing p d earlier with
  | nil => exact h
  | cons c cs ih =>
    show ((p.call c).calls cs).steps = _
    cases hc : c.declares? with
    | none => rw [ih (steps_call_of_changes hc h), declarations_of_changes hc]
    | some declared =>
      rw [ih (steps_call_of_declares hc), declarations_of_declares hc, h]
      simp

/-- The elements of a chain are those of its declarations. -/
theorem steps_calls_begin (name : String) (cs : List (Call ε)) :
    ((begin name).calls cs).steps =
      ((declarations { link := .strict, name } cs).map Declaration.step).reverse := by
  have hbegin : (begin name : Pattern ε).steps = [Declaration.step { link := .strict, name }] := rfl
  rw [steps_calls hbegin, List.append_nil]

/-- No call reaches an element that is no longer the last. -/
theorem tail_chains_suffix_calls (p : Pattern ε) (cs : List (Call ε)) :
    p.chains.tail <:+ (p.calls cs).chains.tail := by
  induction cs generalizing p with
  | nil => exact List.suffix_rfl
  | cons c cs ih => exact (p.tail_chains_suffix_call c).trans (ih (p.call c))

/-! ### Views of a chain -/

/-- A chain is given by its elements and their links. -/
theorem steps_injective {p q : Pattern ε} (h : p.steps = q.steps) : p = q := by
  induction p generalizing q with
  | head x =>
    cases q with
    | head y => simpa using h
    | link q s y =>
      -- A linked chain has two steps at least.
      obtain ⟨p', hp'⟩ := q.chains_eq_cons
      simp [steps, hp', chains] at h
  | link p s x ih =>
    cases q with
    | head y =>
      obtain ⟨p', hp'⟩ := p.chains_eq_cons
      simp [steps, hp', chains] at h
    | link q s' y =>
      simp only [steps_link, List.cons.injEq, Step.mk.injEq] at h
      obtain ⟨⟨rfl, rfl⟩, hrest⟩ := h
      rw [ih hrest]

theorem length_names (p : Pattern ε) : p.names.length = p.length := by
  rw [names_eq_reverse_steps, List.length_reverse, List.length_map, steps, List.length_map, length]

/-- Going from the last element to the first, the first one is met at the end. -/
theorem isHead_of_getElem?_chains {i : Nat} {q : Pattern ε} (h : p.chains[i]? = some q) :
    q.isHead = true ↔ i + 1 = p.length := by
  induction p generalizing i with
  | head x =>
    rcases i with _ | i
    · obtain rfl := Option.some_inj.mp h
      simp [isHead, earlier?]
    · simp [chains] at h
  | link p s x ih =>
    rcases i with _ | i
    · -- The chain itself comes first, and it is no head, as there is `p` before its last element.
      obtain rfl := Option.some_inj.mp h
      have hpos : 0 < p.length := by
        obtain ⟨rest, hrest⟩ := p.chains_eq_cons
        simp [length, hrest]
      rw [length_link]
      exact iff_of_false Bool.false_ne_true (by omega)
    · rw [length_link, ih h]
      omega

theorem names_calls_begin (name : String) (cs : List (Call ε)) :
    ((begin name).calls cs).names =
      ((Strictness.strict, name) :: cs.filterMap Call.declares?).map Prod.snd := by
  rw [← map_declared_declarations { link := .strict, name } cs, names_eq_reverse_steps,
    steps_calls_begin, List.map_reverse, List.reverse_reverse, List.map_map, List.map_map]
  rfl

theorem map_strictness_calls_begin (name : String) (cs : List (Call ε)) :
    ((begin name).calls cs).steps.map Step.strictness =
      (((Strictness.strict, name) :: cs.filterMap Call.declares?).map Prod.fst).reverse := by
  rw [← map_declared_declarations { link := .strict, name } cs, steps_calls_begin, List.map_reverse,
    List.map_map, List.map_map]
  rfl

/-- Calls that declare the same elements build the same chain. -/
theorem calls_eq_of_agrees {name name' : String} {cs cs' : List (Call ε)}
    (h : List.Forall₂ Declaration.Agrees (declarations { link := .strict, name } cs)
      (declarations { link := .strict, name := name' } cs')) :
    (begin name).calls cs = (begin name').calls cs' := by
  apply steps_injective
  rw [steps_calls_begin, steps_calls_begin, Declaration.map_step_eq_of_agrees h]

end Pattern

/-- **What a sequence of calls builds.**  The names are the first one and those that calls declare, in
order, and all other views go from the last element to the first.  Only the first element is a head,
and it counts as strict, while any other one is linked as it was declared.  An element depends on nothing
but the conditions added while it was the last, the type and the quantifier set last in that time;
calls that agree in these build the same chain, which compiles alike.  Later calls leave every element
that is no longer the last as it is. -/
theorem calls_have_normal_form (name : String) (cs : List (Call ε)) :
    let p := (Pattern.begin name).calls cs
    let declared := (.strict, name) :: cs.filterMap Call.declares?
    p.names = declared.map Prod.snd ∧
    p.chains.map (fun q => q.last.name) = p.names.reverse ∧
    p.length = p.names.length ∧
    (∀ i q, p.chains[i]? = some q → (q.isHead = true ↔ i + 1 = p.length)) ∧
    p.chains.map (fun q => q.last.strictness) = (declared.map Prod.fst).reverse ∧
    p.chains.map Pattern.last =
      ((declarations { link := .strict, name } cs).map Declaration.step).reverse ∧
    (∀ name' cs', List.Forall₂ Declaration.Agrees (declarations { link := .strict, name } cs)
        (declarations { link := .strict, name := name' } cs') →
      (Pattern.begin name').calls cs' = p ∧
        ∀ settings, compile settings ((Pattern.begin name').calls cs') = compile settings p) ∧
    ∀ more, p.chains.tail <:+ (p.calls more).chains.tail := by
  intro p declared
  -- The views from the end, the links, and then the calls that agree.
  refine ⟨Pattern.names_calls_begin name cs, ?_, p.length_names.symm,
    fun i q => Pattern.isHead_of_getElem?_chains, ?_, Pattern.steps_calls_begin name cs, ?_,
    p.tail_chains_suffix_calls⟩
  · rw [p.names_eq_reverse_steps, List.reverse_reverse, Pattern.steps, List.map_map]
    rfl
  · calc p.chains.map (fun q => q.last.strictness)
        = p.steps.map Step.strictness := by rw [Pattern.steps, List.map_map]; rfl
      _ = (declared.map Prod.fst).reverse := Pattern.map_strictness_calls_begin name cs
  · intro name' cs' h
    have heq : (Pattern.begin name').calls cs' = p := (Pattern.calls_eq_of_agrees h).symm
    exact ⟨heq, fun settings => by rw [heq]⟩

/-- The numbers below `n`. -/
def below (n : Nat) : EventType Nat := ⟨"below", fun e => e < n⟩

/-- A test for multiples of `n`. -/
def multiple (n : Nat) : Condition Nat := .function fun e => (e % n == 0, [])

/-- Calls on two elements, in no order. -/
def mixedCalls : List (Call Nat) :=
  [.require (multiple 2), .repeats .oneOrMore, .narrow (below 9), .require (multiple 3),
    .narrow (below 7), .repeats .zeroOrMore, .followedBy "b", .repeats .oneOrMore,
    .require (multiple 5)]

/-- The same calls as far as they count, sorted by what they set. -/
def sortedCalls : List (Call Nat) :=
  [.require (multiple 2), .require (multiple 3), .narrow (below 7), .repeats .zeroOrMore,
    .followedBy "b", .require (multiple 5), .repeats .oneOrMore]

theorem calls_mixedCalls :
    List.Forall₂ Declaration.Agrees (declarations { link := .strict, name := "a" } mixedCalls)
      (declarations { link := .strict, name := "a" } sortedCalls) ∧
    (Pattern.begin "a").calls sortedCalls = (Pattern.begin "a").calls mixedCalls ∧
    ((Pattern.begin "a").calls mixedCalls).names = ["a", "b"] := by
  have hagrees : List.Forall₂ Declaration.Agrees
      (declarations { link := .strict, name := "a" } mixedCalls)
      (declarations { link := .strict, name := "a" } sortedCalls) :=
    .cons ⟨rfl, rfl, rfl, rfl, rfl⟩ (.cons ⟨rfl, rfl, rfl, rfl, rfl⟩ .nil)
  obtain ⟨hnames, -, -, -, -, -, hsame, -⟩ := calls_have_normal_form "a" mixedCalls
  exact ⟨hagrees, (hsame "a" sortedCalls hagrees).1, hnames⟩

end ChainAutomata
