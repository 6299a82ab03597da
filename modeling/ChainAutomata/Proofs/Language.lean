/-
The language of a compiled pattern.

A pattern says how a list of events may be cut into consecutive segments, one per element, first
element first.  An element takes each of its events after a possibly empty run of events that it
refuses; the run is empty on an element that must follow directly.  The automaton of the pattern
accepts along exactly these cuts, and labels every event as the cut does:

* `Step.segment`, `Pattern.cuts` — the segments of an element, the cuts of a pattern;
* `Pattern.language_automaton` — the language of the automaton is that of the cuts;
* `wordsOf_language_eq` — the same for compiled patterns, one list of events at a time.

Design notes: the languages of the states satisfy linear equations, read off their transitions.
A waiting state and a resting one each stand on both sides of their own equation; Arden's lemma
solves it, since a word that is prefixed on the way round is never empty.  The blocks are then put
together by induction on the elements, each block leading into the entry of the one before it.
-/
import ChainAutomata.Proofs.Outcome
import ChainAutomata.Proofs.Run

universe u

namespace ChainAutomata

open Automaton Computability

variable {ε : Type u}

/-! ### Cuts -/

namespace Step

/-- One event that the element takes. -/
def taken (step : Step ε) : Language (ε × Label) := letters (step.name, .take) step.demand

/-- A run of events that the element does not take, all ignored.  It is empty on an element that
must follow the one before it directly. -/
def skipped (step : Step ε) : Language (ε × Label) :=
  {u | (step.strictness = .strict → u = []) ∧
    ∀ x ∈ u, step.demand.holds x.1 = false ∧ x.2 = (step.name, .ignore)}

/-- An event that the element takes, after those that it skips. -/
def occurrence (step : Step ε) : Language (ε × Label) := step.skipped * step.taken

/-- What an element consumes: as many occurrences as its quantifier allows. -/
def segment (step : Step ε) : Language (ε × Label) :=
  match step.quantifier with
  | .single => step.occurrence
  | .zeroOrMore => step.occurrence∗
  | .oneOrMore => step.occurrence * step.occurrence∗

/-- One event that the element skips. -/
def refused (step : Step ε) : Language (ε × Label) :=
  match step.strictness with
  | .strict => 0
  | .relaxed => letters (step.name, .ignore) step.refusal

theorem mem_refused_iff {step : Step ε} {u : List (ε × Label)} :
    u ∈ step.refused ↔ step.strictness = .relaxed ∧
      ∃ x, step.demand.holds x.1 = false ∧ x.2 = (step.name, Action.ignore) ∧ u = [x] := by
  rw [refused]
  cases hs : step.strictness with
  | strict => simp
  | relaxed =>
    constructor
    · rintro ⟨e, he, rfl⟩
      exact ⟨rfl, (e, step.name, .ignore), by simpa [refusal] using he, rfl, rfl⟩
    · rintro ⟨-, ⟨e, label⟩, he, rfl, rfl⟩
      exact ⟨e, by simpa [refusal] using he, rfl⟩

theorem skipped_eq_kstar (step : Step ε) : step.skipped = step.refused∗ := by
  ext u
  rw [Language.mem_kstar]
  constructor
  · rintro ⟨hstrict, hall⟩
    refine ⟨u.map fun x => [x], (List.flatMap_singleton' u).symm, ?_⟩
    intro y hy
    obtain ⟨x, hx, rfl⟩ := List.mem_map.mp hy
    refine mem_refused_iff.mpr ⟨?_, x, (hall x hx).1, (hall x hx).2, rfl⟩
    cases hs : step.strictness with
    | strict =>
      rw [hstrict hs] at hx
      simp at hx
    | relaxed => rfl
  · rintro ⟨l, rfl, hl⟩
    constructor
    · intro hs
      rw [List.flatten_eq_nil_iff]
      intro y hy
      have := (mem_refused_iff.mp (hl y hy)).1
      rw [hs] at this
      exact absurd this (by simp)
    · intro x hx
      obtain ⟨y, hy, hxy⟩ := List.mem_flatten.mp hx
      obtain ⟨-, x', hrefused, hlabel, rfl⟩ := mem_refused_iff.mp (hl y hy)
      rw [List.mem_singleton.mp hxy]
      exact ⟨hrefused, hlabel⟩

theorem nil_notMem_refused (step : Step ε) : [] ∉ step.refused := by
  intro h
  obtain ⟨-, x, -, -, hx⟩ := mem_refused_iff.mp h
  exact absurd hx (by simp)

theorem nil_notMem_occurrence (step : Step ε) : [] ∉ step.occurrence := by
  rintro ⟨v, -, w, ⟨e, -, rfl⟩, hvw⟩
  exact absurd hvw (by simp)

end Step

/-- The ways to cut a list of events into the segments of the elements, first element first. -/
def Pattern.cuts (p : Pattern ε) : Language (ε × Label) := (p.steps.reverse.map Step.segment).prod

/-! ### The language of a block -/

section Block

variable {a : Automaton ε} {step : Step ε} {role : Role} {k : Nat}

theorem sum_languageVia_skips (target : Nat) :
    ((step.skips target).map (a.languageVia step.name)).sum =
      step.refused * a.languageFrom target := by
  rw [Step.skips, Step.refused]
  cases step.strictness with
  | strict => simp
  | relaxed =>
    simp only [List.map_cons, List.map_nil, List.sum_cons, List.sum_nil, add_zero]
    exact languageVia_consume (by simp) target step.refusal

/-- From a waiting state, an occurrence is consumed on the way to its target. -/
theorem languageFrom_waiting {target : Nat} (hk : k ≠ a.final)
    (hs : a.state? k = some (step.waiting role k target)) :
    a.languageFrom k = step.occurrence * a.languageFrom target := by
  have heq : a.languageFrom k =
      step.refused * a.languageFrom k + step.taken * a.languageFrom target := by
    -- the state stands on both sides, and is opened on the left only
    conv_lhs => rw [languageFrom_eq_of_ne hs hk]
    simp only [Step.waiting, List.map_cons, List.sum_cons]
    rw [sum_languageVia_skips, languageVia_consume (by simp), add_comm]
    rfl
  rw [Language.self_eq_mul_add_iff step.nil_notMem_refused, ← step.skipped_eq_kstar] at heq
  rw [heq, Step.occurrence, mul_assoc]

/-- From a resting state, any number of occurrences are consumed on the way on. -/
theorem languageFrom_resting {role' : Role} {next : Nat} (hk : k ≠ a.final)
    (hk' : k + 1 ≠ a.final) (hs : a.state? k = some (step.waiting role k (k + 1)))
    (hs' : a.state? (k + 1) = some (step.resting role' k next)) :
    a.languageFrom (k + 1) = step.occurrence∗ * a.languageFrom next := by
  have hloop := languageFrom_waiting hk hs
  rw [← Language.self_eq_mul_add_iff step.nil_notMem_occurrence]
  -- an occurrence is taken at once, or something is refused first
  have hoccurrence : step.occurrence = step.taken + step.refused * step.occurrence := by
    rw [Step.occurrence, step.skipped_eq_kstar, ← mul_assoc, ← one_add_mul,
      Language.one_add_self_mul_kstar_eq_kstar]
  calc a.languageFrom (k + 1)
      = step.taken * a.languageFrom (k + 1) +
          (step.refused * a.languageFrom k + a.languageFrom next) := by
        conv_lhs => rw [languageFrom_eq_of_ne hs' hk']
        simp only [Step.resting, List.map_cons, List.map_append, List.map_nil, List.sum_cons,
          List.sum_append, List.sum_nil, add_zero]
        rw [sum_languageVia_skips, languageVia_consume (by simp), languageVia_proceed]
        rfl
    _ = (step.taken + step.refused * step.occurrence) * a.languageFrom (k + 1) +
          a.languageFrom next := by
        rw [hloop, ← add_assoc, ← mul_assoc, add_mul]
    _ = step.occurrence * a.languageFrom (k + 1) + a.languageFrom next := by
        rw [← hoccurrence]

/-- From its entry, a block consumes a segment on the way to what it leads into. -/
theorem languageFrom_entry {next : Nat} (hk : a.final < k)
    (h : a.Spans k (step.block role k next)) :
    a.languageFrom (step.entry k) = step.segment * a.languageFrom next := by
  have hne : k ≠ a.final := Nat.ne_of_gt hk
  have hne' : k + 1 ≠ a.final := Nat.ne_of_gt (Nat.lt_succ_of_lt hk)
  rw [Step.block] at h
  rw [Step.entry, Step.segment]
  cases hq : step.quantifier with
  | single =>
    rw [hq] at h
    exact languageFrom_waiting hne h.head
  | zeroOrMore =>
    rw [hq] at h
    exact languageFrom_resting hne hne' h.head (h 1 _ rfl)
  | oneOrMore =>
    rw [hq] at h
    show a.languageFrom k = step.occurrence * step.occurrence∗ * a.languageFrom next
    rw [mul_assoc, ← languageFrom_resting hne hne' h.head (h 1 _ rfl)]
    exact languageFrom_waiting hne h.head

end Block

/-! ### The language of a pattern -/

/-- Wherever a layout lies, its start consumes the segments of the elements, first element first,
on the way to what the layout leads into. -/
theorem languageFrom_entryOf {a : Automaton ε} {steps : List (Step ε)} :
    ∀ {k next : Nat}, a.final < k → a.Spans k (layout k next steps) →
      a.languageFrom (entryOf k next steps) =
        (steps.reverse.map Step.segment).prod * a.languageFrom next := by
  induction steps with
  | nil =>
    intro k next _ _
    simp [entryOf]
  | cons step rest ih =>
    intro k next hk h
    obtain ⟨hblock, hrest⟩ := h.layout_cons
    rw [entryOf, ih (Nat.lt_add_right _ hk) hrest, languageFrom_entry hk hblock, ← mul_assoc]
    simp

/-- **The automaton of a pattern accepts along the cuts of the pattern, and only along them.** -/
theorem Pattern.language_automaton (p : Pattern ε) (finalName : String) :
    (p.automaton finalName).language = p.cuts := by
  have hfinal : (p.automaton finalName).languageFrom 0 = 1 :=
    languageFrom_final (a := p.automaton finalName) rfl rfl
  have := languageFrom_entryOf Nat.zero_lt_one (p.automaton_spans finalName)
  rw [hfinal, mul_one] at this
  exact this

/-- **The label words of the accepting runs over a list of events are the words of its cuts.** -/
theorem wordsOf_language_eq {settings : Settings} {p : Pattern ε} {a : Automaton ε}
    (h : (compile settings p).1 = .ok a) (events : List ε) :
    wordsOf a.language events = wordsOf p.cuts events := by
  obtain ⟨-, -, rfl⟩ := compile_eq_ok_iff.mp h
  rw [p.language_automaton]

/-- Any event, then one or more fives, the events before each of them being skipped. -/
def anyThenFives : Pattern Nat :=
  .link (.head { name := "any" }) .relaxed
    { name := "fives", condition := some (.function fun e => (e == 5, [])),
      quantifier := .oneOrMore }

/-- A compiled loop skips on its way to a first and to a second occurrence. -/
theorem wordsOf_language_anyThenFives :
    (compile {} anyThenFives).1 = .ok (anyThenFives.automaton "$endState$") ∧
      [("any", Action.take), ("fives", .ignore), ("fives", .take), ("fives", .ignore),
          ("fives", .take)] ∈
        wordsOf (anyThenFives.automaton "$endState$").language [1, 2, 5, 7, 5] := by
  have hcompiles : (compile {} anyThenFives).1 = .ok (anyThenFives.automaton "$endState$") :=
    compile_of_nodup (by decide)
  refine ⟨hcompiles, ?_⟩
  rw [wordsOf_language_eq hcompiles]
  have hany : [(1, "any", Action.take)] ∈ (⟨.strict, { name := "any" }⟩ : Step Nat).segment :=
    ⟨[], ⟨fun _ => rfl, by simp⟩, _, ⟨1, rfl, rfl⟩, rfl⟩
  have hfive : ∀ e, e ≠ 5 →
      [(e, "fives", Action.ignore), (5, "fives", .take)] ∈ anyThenFives.last.occurrence := by
    intro e he
    refine ⟨[(e, "fives", .ignore)], ⟨fun hs => absurd hs (by decide), ?_⟩, _, ⟨5, rfl, rfl⟩, rfl⟩
    intro x hx
    rw [List.mem_singleton.mp hx]
    exact ⟨beq_eq_false_iff_ne.mpr he, rfl⟩
  have hfives : [(2, "fives", Action.ignore), (5, "fives", .take), (7, "fives", .ignore),
      (5, "fives", .take)] ∈ anyThenFives.last.segment :=
    Language.append_mem_mul (hfive 2 (by decide))
      (Language.mem_kstar.mpr ⟨[_], rfl, by simpa using hfive 7 (by decide)⟩)
  have hcuts := Language.append_mem_mul hany
    (Language.append_mem_mul hfives (Language.nil_mem_one))
  exact ⟨_, hcuts, rfl, rfl⟩

end ChainAutomata
