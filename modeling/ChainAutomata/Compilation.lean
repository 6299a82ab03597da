/-
Compilation: from a pattern to an automaton.

The final state is added first; then the elements are added from the last to the first, so that the
state each one continues in exists already.  The entry of the first element becomes the start.

* `Draft.addSteps` — the elements of a pattern, last to first, with a notice of each; the last entry
  is there to be made the start (`Draft.entry_lt_addSteps`);
* `compile` — the outcome of a compilation together with its notices: it refuses settings that are
  out of range, then patterns with a repeated name, and audits the automaton if told so.

Design notes: the notices are part of the result, in order, so that what is reported can be
compared with what was built.
-/
import ChainAutomata.Automaton.Audit
import ChainAutomata.Pattern.Block
import ChainAutomata.Settings

universe u

namespace ChainAutomata

variable {ε : Type u}

/-- The notice of an element that was turned into a block. -/
def Step.noticeOf (step : Step ε) (b : Block) : Notice :=
  .expanded step.name step.quantifier step.strictness b.states.length b.entry

/-- Adds elements one after the other, each continuing in the entry of the one added before it.
The result is the draft and the entry of the element added last. -/
def Draft.addSteps (verbose : Bool) : Draft ε → StateId → List (Step ε) → Draft ε × StateId
  | d, next, [] => (d, next)
  | d, next, step :: rest =>
    let added := d.addStep step next
    let d := if verbose then added.1.note (step.noticeOf added.2) else added.1
    Draft.addSteps verbose d added.2.entry rest

theorem Draft.entry_lt_addSteps (verbose : Bool) (steps : List (Step ε)) {d : Draft ε}
    {next : StateId} (h : next < d.size) :
    (d.addSteps verbose next steps).2 < (d.addSteps verbose next steps).1.size := by
  induction steps generalizing d next with
  | nil => exact h
  | cons step rest ih =>
    apply ih
    split <;> exact d.entry_lt_addStep step next

/-- The draft of the automaton of a pattern, and the id of its start. -/
def Pattern.draft (settings : Settings) (p : Pattern ε) : Draft ε × StateId :=
  let empty : Draft ε := { traced := settings.emits .trace }
  let begun := empty.addState settings.finalName .final
  let grown := Draft.addSteps (settings.emits .debug) begun 0 p.steps
  have hentry : grown.2 < grown.1.size :=
    Draft.entry_lt_addSteps (settings.emits .debug) p.steps (Nat.zero_lt_succ _)
  let marked := grown.1.call? (.setRole grown.2 .start)
  (marked.get (Draft.isSome_call?_iff.mpr fun _ hid => Option.some_inj.mp hid ▸ hentry), grown.2)

/-- Compiles a pattern; the notices are those emitted on the way, in order. -/
def compile (settings : Settings) (p : Pattern ε) :
    Except Failure (Automaton ε) × List Notice :=
  match settings.check with
  | .error cause => (.error cause, [.unusable cause])
  | .ok () =>
    match p.checkNames with
    | .error cause => (.error (.malformedPattern cause), [.rejected p.last.name cause])
    | .ok () =>
      let drafted := p.draft settings
      let automaton := drafted.1.build drafted.2 0
      match (if settings.audited then automaton.audit else .ok ()) with
      | .error fault =>
        (.error fault.toFailure, drafted.1.notices ++ [.faulty fault.toFailure])
      | .ok () =>
        let summary := if settings.emits .info then [.compiled p.names automaton.size] else []
        (.ok automaton, drafted.1.notices ++ summary)

end ChainAutomata
