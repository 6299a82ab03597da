/-
Looser patterns match more.

An element becomes looser when it may take more events than one, when it may be left out, or when
other events may come before it.  Whichever element of a pattern is made looser, and in whichever of
these ways, no list of events is lost: it is still accepted, and with the same labels.

* `Step.LoosensTo`, `Pattern.LoosensTo` — a change that makes one element looser;
* `Step.segment_le_of_loosensTo` — a looser element consumes all that the element consumed;
* `accepts_of_loosensTo` — what a compiled pattern accepts grows with each such change.

Design notes: the automata of the two patterns have different states, numbered differently, so they
are compared by what they accept.  Their languages are those of the cuts, and a cut is a product of
segments in which only one factor changes.
-/
import ChainAutomata.Proofs.Language
import Mathlib.Order.CompletePartialOrder

universe u

namespace ChainAutomata

open Automaton Computability

variable {ε : Type u}

/-! ### Looser elements -/

namespace Step

/-- An element is made looser in one way; its name and what it takes stay the same. -/
inductive LoosensTo : Step ε → Step ε → Prop where
  /-- Where one event was taken, several may be. -/
  | repeated {s : Strictness} {x : Element ε} (single : x.quantifier = .single) :
      LoosensTo ⟨s, x⟩ ⟨s, { x with quantifier := .oneOrMore }⟩
  /-- Where at least one event was taken, none need be. -/
  | optional {s : Strictness} {x : Element ε} (needed : x.quantifier.allowsZero = false) :
      LoosensTo ⟨s, x⟩ ⟨s, { x with quantifier := .zeroOrMore }⟩
  /-- Other events may come before the element. -/
  | relaxed {x : Element ε} : LoosensTo ⟨.strict, x⟩ ⟨.relaxed, x⟩

variable {step step' : Step ε}

theorem LoosensTo.name_eq (h : step.LoosensTo step') : step'.name = step.name := by
  cases h <;> rfl

theorem skipped_strict_le_relaxed (x : Element ε) :
    (⟨.strict, x⟩ : Step ε).skipped ≤ (⟨.relaxed, x⟩ : Step ε).skipped := by
  rintro u ⟨-, hall⟩
  exact ⟨fun h => absurd h (by simp), hall⟩

theorem segment_le_of_occurrence_le (hquantifier : step.quantifier = step'.quantifier)
    (h : step.occurrence ≤ step'.occurrence) : step.segment ≤ step'.segment := by
  rw [segment, segment, hquantifier]
  cases step'.quantifier with
  | single => exact h
  | zeroOrMore => exact kstar_mono h
  | oneOrMore => exact mul_le_mul' h (kstar_mono h)

/-- A looser element consumes all that the element consumed, under the same labels. -/
theorem segment_le_of_loosensTo (h : step.LoosensTo step') : step.segment ≤ step'.segment := by
  -- another quantifier leaves the occurrences as they are and only changes how many there may be
  cases h with
  | @repeated s x hsingle =>
    have hone : (⟨s, x⟩ : Step ε).segment = (⟨s, x⟩ : Step ε).occurrence := by
      rw [segment, quantifier, hsingle]
    rw [hone]
    show _ ≤ (⟨s, x⟩ : Step ε).occurrence * (⟨s, x⟩ : Step ε).occurrence∗
    exact le_mul_of_one_le_right' one_le_kstar
  | @optional s x hneeded =>
    show _ ≤ (⟨s, x⟩ : Step ε).occurrence∗
    rw [segment, quantifier]
    cases x.quantifier with
    | single => exact le_kstar
    | zeroOrMore => exact le_rfl
    | oneOrMore => exact mul_kstar_le_kstar
  | @relaxed x =>
    -- another link changes what is skipped before each of them
    refine segment_le_of_occurrence_le rfl ?_
    show (⟨.strict, x⟩ : Step ε).skipped * taken _ ≤ (⟨.relaxed, x⟩ : Step ε).skipped * taken _
    exact mul_le_mul' (skipped_strict_le_relaxed x) le_rfl

end Step

/-! ### Looser patterns -/

namespace Pattern

variable {p q : Pattern ε}

/-- One element of a pattern is made looser, wherever it stands; those after it and those before it
stay as they are.  Having no link, the first element cannot be relaxed. -/
def LoosensTo (p q : Pattern ε) : Prop :=
  ∃ later step step' earlier, p.steps = later ++ step :: earlier ∧
    q.steps = later ++ step' :: earlier ∧ step.LoosensTo step'

theorem LoosensTo.names_eq (h : p.LoosensTo q) : q.names = p.names := by
  obtain ⟨later, step, step', earlier, hp, hq, hstep⟩ := h
  rw [q.names_eq_reverse_steps, p.names_eq_reverse_steps, hp, hq]
  simp [hstep.name_eq]

theorem cuts_of_steps_eq {later earlier : List (Step ε)} {step : Step ε}
    (h : p.steps = later ++ step :: earlier) :
    p.cuts = (earlier.reverse.map Step.segment).prod * step.segment *
      (later.reverse.map Step.segment).prod := by
  rw [cuts, h]
  simp [mul_assoc]

/-- A looser pattern can be cut in every way in which the pattern can. -/
theorem cuts_le_of_loosensTo (h : p.LoosensTo q) : p.cuts ≤ q.cuts := by
  obtain ⟨later, step, step', earlier, hp, hq, hstep⟩ := h
  rw [cuts_of_steps_eq hp, cuts_of_steps_eq hq]
  exact mul_le_mul' (mul_le_mul' le_rfl (Step.segment_le_of_loosensTo hstep)) le_rfl

end Pattern

/-! ### Compiled patterns -/

/-- **Loosening a pattern never loses a match.**  When one element of a pattern that compiles is made
looser, the pattern still compiles, and all that was accepted still is, with the same labels. -/
theorem accepts_of_loosensTo {settings : Settings} {p q : Pattern ε} {a : Automaton ε}
    (hcompiles : (compile settings p).1 = .ok a) (h : p.LoosensTo q) :
    ∃ b, (compile settings q).1 = .ok b ∧ a.language ≤ b.language ∧
      ∀ events, a.Accepts events → b.Accepts events := by
  obtain ⟨hname, hdistinct, rfl⟩ := compile_eq_ok_iff.mp hcompiles
  have hdistinct' : ¬ q.RepeatsName := by
    rw [Pattern.not_repeatsName_iff, h.names_eq, ← Pattern.not_repeatsName_iff]
    exact hdistinct
  have hle : (p.automaton settings.finalName).language ≤
      (q.automaton settings.finalName).language := by
    rw [p.language_automaton, q.language_automaton]
    exact Pattern.cuts_le_of_loosensTo h
  refine ⟨_, compile_of_distinct hname hdistinct', hle, ?_⟩
  rintro events ⟨u, hu, hevents⟩
  exact ⟨u, hle hu, hevents⟩

/-- A knock, directly after it a five, and later anything else. -/
def knockFiveLater (quantifier : Quantifier) (strictness : Strictness) : Pattern Nat :=
  .link (.link (.head { name := "knock" }) strictness
      { name := "five", condition := some (.function fun e => (e == 5, [])), quantifier })
    .relaxed { name := "later" }

/-- The element in the middle can be repeated, left out or preceded by others, and `[1, 5, 2]` stays
accepted. -/
theorem accepts_knockFiveLater :
    ∃ b c d, (compile {} (knockFiveLater .oneOrMore .strict)).1 = .ok b ∧
      (compile {} (knockFiveLater .zeroOrMore .strict)).1 = .ok c ∧
      (compile {} (knockFiveLater .single .relaxed)).1 = .ok d ∧
      b.Accepts [1, 5, 2] ∧ c.Accepts [1, 5, 2] ∧ d.Accepts [1, 5, 2] := by
  have hcompiles : (compile {} (knockFiveLater .single .strict)).1 =
      .ok ((knockFiveLater .single .strict).automaton "$endState$") :=
    compile_of_nodup (by decide)
  have haccepts : ((knockFiveLater .single .strict).automaton "$endState$").Accepts [1, 5, 2] := by
    have hknock : ((knockFiveLater .single .strict).automaton "$endState$").state? 3 =
        some (Step.waiting ⟨.strict, { name := "knock" }⟩ .start 3 2) := rfl
    have hfive : ((knockFiveLater .single .strict).automaton "$endState$").state? 2 =
        some (Step.waiting ⟨.strict, _⟩ .normal 2 1) := rfl
    have hlater : ((knockFiveLater .single .strict).automaton "$endState$").state? 1 =
        some (Step.waiting ⟨.relaxed, { name := "later" }⟩ .normal 1 0) := rfl
    exact ⟨_, .consume hknock List.mem_cons_self (by simp) rfl rfl
      (.consume hfive List.mem_cons_self (by simp) rfl rfl
        (.consume hlater List.mem_cons_self (by simp) rfl rfl (.stop 0))), rfl⟩
  have hloosens : ∀ q, (knockFiveLater .single .strict).LoosensTo q →
      ∃ b, (compile {} q).1 = .ok b ∧ b.Accepts [1, 5, 2] := by
    intro q hq
    obtain ⟨b, hb, -, hle⟩ := accepts_of_loosensTo hcompiles hq
    exact ⟨b, hb, hle _ haccepts⟩
  obtain ⟨b, hb, hacceptsb⟩ := hloosens (knockFiveLater .oneOrMore .strict)
    ⟨[_], _, _, [_], rfl, rfl, .repeated rfl⟩
  obtain ⟨c, hc, hacceptsc⟩ := hloosens (knockFiveLater .zeroOrMore .strict)
    ⟨[_], _, _, [_], rfl, rfl, .optional rfl⟩
  obtain ⟨d, hd, hacceptsd⟩ := hloosens (knockFiveLater .single .relaxed)
    ⟨[_], _, _, [_], rfl, rfl, .relaxed⟩
  exact ⟨b, c, d, hb, hc, hd, hacceptsb, hacceptsc, hacceptsd⟩

end ChainAutomata
