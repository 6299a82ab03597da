/-
Blocks: the states that one element of a pattern is turned into.

A block leads into an existing state, the state of what comes after the element.  An element that
takes one event becomes one state.  A repeated element becomes two of the same name: the loop
state, which has to take an event, and the rest state behind it, which may take more or move on.
An element that may be left out is entered through its rest state, any other through its first.  On
a relaxed element each state also skips the events that the element would not take; a repeated
element that skips has to take again before it moves on.

    single      s    --TAKE-->     next
                s    --IGNORE-->   s        (relaxed only)

    repeated    loop --TAKE-->     rest
                loop --IGNORE-->   loop     (relaxed only)
                rest --TAKE-->     rest
                rest --IGNORE-->   loop     (relaxed only)
                rest --PROCEED-->  next
-/
import ChainAutomata.Automaton.Draft

universe u

namespace ChainAutomata

open Inspection (Tree)

/-- The states of one element in a draft. -/
structure Block where
  /-- The state in which the element before continues. -/
  entry : StateId
  /-- All states of the element, in the order in which they were added. -/
  states : List StateId
  deriving DecidableEq, Repr

namespace Block

def inspect (b : Block) : Tree :=
  .record "Expansion" [
    ("entry", b.entry.inspect),
    ("states", .list (b.states.map StateId.inspect))]

end Block

namespace Step

variable {ε : Type u}

/-- The call for a transition on refused events, on relaxed steps only. -/
def skipCalls (step : Step ε) (source target : Nat) : List (Draft.Call ε) :=
  match step.strictness with
  | .strict => []
  | .relaxed => [.ignore source target step.refusal]

/-- The calls that add the block of a step at `k`, leading into `next`. -/
def calls (step : Step ε) (k next : Nat) : List (Draft.Call ε) :=
  match step.quantifier with
  | .single =>
    .addState step.name .normal :: .take k next step.demand :: step.skipCalls k k
  | .zeroOrMore | .oneOrMore =>
    .addState step.name .normal :: .addState step.name .normal ::
      .take k (k + 1) step.demand :: (step.skipCalls k k ++
      .take (k + 1) (k + 1) step.demand :: (step.skipCalls (k + 1) k ++
      [.proceed (k + 1) next]))

/-- No call is about a state that is not there yet. -/
theorem inOrder_calls (step : Step ε) (k next : Nat) :
    Draft.Call.InOrder k (step.calls k next) := by
  rw [calls]
  simp only [skipCalls]
  cases step.quantifier <;> cases step.strictness <;>
    simp +arith [Draft.Call.InOrder, Draft.Call.subject?, Draft.Call.added]

/-- The block of a step at `k`. -/
def blockAt (step : Step ε) (k : Nat) : Block :=
  match step.quantifier with
  | .single => ⟨k, [k]⟩
  | .zeroOrMore | .oneOrMore => ⟨if step.quantifier.allowsZero then k + 1 else k, [k, k + 1]⟩

end Step

namespace Draft

variable {ε : Type u}

/-- Adds the states of an element that continues in `next`. -/
def addStep (d : Draft ε) (step : Step ε) (next : StateId) : Draft ε × Block :=
  let grown? := d.calls? (step.calls d.size next)
  -- there is a result, since the calls are in order wherever the block begins
  (grown?.get (isSome_calls?_iff.mpr (step.inOrder_calls d.size next)), step.blockAt d.size)

theorem calls?_calls (d : Draft ε) (step : Step ε) (next : StateId) :
    d.calls? (step.calls d.size next) = some (d.addStep step next).1 :=
  (Option.some_get _).symm

theorem addStep_fst (d : Draft ε) (step : Step ε) (next : StateId) :
    (d.addStep step next).1 = (step.calls d.size next).foldl call d :=
  Option.some_inj.mp ((d.calls?_calls step next).symm.trans
    (calls?_of_inOrder (step.inOrder_calls d.size next)))

theorem addStep_snd (d : Draft ε) (step : Step ε) (next : StateId) :
    (d.addStep step next).2 = step.blockAt d.size := rfl

/-- The entry of a new block is one of the states that are there then. -/
theorem entry_lt_addStep (d : Draft ε) (step : Step ε) (next : StateId) :
    (d.addStep step next).2.entry < (d.addStep step next).1.size := by
  rw [addStep_fst, addStep_snd, Step.blockAt, Step.calls]
  cases hq : step.quantifier <;> cases hs : step.strictness <;>
    simp +arith [Step.skipCalls, hs, size_call, Call.added, Quantifier.allowsZero]

end Draft

end ChainAutomata
