/-
Conditions on events.

A `Condition` is a tree of tests joined by conjunction and negation.  Evaluating it on an event
gives a verdict and the notes its tests leave, in the order in which they ran; a conjunction whose
left side fails does not run its right side.

* `Condition.eval` — verdict and notes, left to right with short circuit;
* `Condition.holds` — the verdict alone;
* `Condition.describe` — the text that stands for the condition wherever an automaton is shown.

Design notes: the leaves are distinguished by what they are described as, because the description
is all that a reader of an automaton sees of them.  The notes make the order of evaluation part of
the value of a condition, so that it can be reasoned about.
-/
import ChainAutomata.Inspection

universe u

namespace ChainAutomata

/-- A test of an event: its verdict, and the notes it leaves while it runs. -/
abbrev Probe (ε : Type u) := ε → Bool × List String

/-- A class of events that a pattern element can be narrowed to. -/
structure EventType (ε : Type u) where
  name : String
  includes : ε → Bool

/-- A condition on events of type `ε`. -/
inductive Condition (ε : Type u) where
  /-- Holds of every event. -/
  | always
  /-- Holds of the events of one type. -/
  | ofType (type : EventType ε)
  /-- A function of the event. -/
  | function (probe : Probe ε)
  /-- A test that does not say what it is. -/
  | unnamed (probe : Probe ε)
  /-- A test with a text of its own. -/
  | labelled (label : String) (probe : Probe ε)
  /-- Both conditions, the left one first. -/
  | both (left right : Condition ε)
  /-- The opposite of a condition. -/
  | negation (inner : Condition ε)

namespace Condition

variable {ε : Type u}

/-- Verdict on an event, with the notes of the tests that ran, in order. -/
def eval : Condition ε → ε → Bool × List String
  | always, _ => (true, [])
  | ofType type, e => (type.includes e, [])
  | function probe, e => probe e
  | unnamed probe, e => probe e
  | labelled _ probe, e => probe e
  | both left right, e =>
    let l := left.eval e
    if l.1 then
      let r := right.eval e
      (r.1, l.2 ++ r.2)
    else (false, l.2)
  | negation inner, e =>
    let r := inner.eval e
    (!r.1, r.2)

/-- Whether the condition holds of an event. -/
def holds (c : Condition ε) (e : ε) : Bool := (c.eval e).1

/-- The text that stands for the condition.  Conjunctions are in parentheses, negations are not. -/
def describe : Condition ε → String
  | always => "true"
  | ofType type => "subtype " ++ type.name
  | function _ => "fn"
  | unnamed _ => "condition"
  | labelled label _ => label
  | both left right => "(" ++ left.describe ++ " AND " ++ right.describe ++ ")"
  | negation inner => "NOT " ++ inner.describe

/-- A condition is shown by its description, unquoted. -/
def inspect (c : Condition ε) : Inspection.Tree :=
  .atom ("Condition(" ++ c.describe ++ ")")

@[simp] theorem holds_always (e : ε) : (always : Condition ε).holds e = true := rfl

@[simp] theorem holds_ofType (type : EventType ε) (e : ε) :
    (ofType type).holds e = type.includes e := rfl

@[simp] theorem holds_both (left right : Condition ε) (e : ε) :
    (both left right).holds e = (left.holds e && right.holds e) := by
  simp only [holds, eval]
  cases (left.eval e).1 <;> simp

@[simp] theorem holds_negation (inner : Condition ε) (e : ε) :
    (negation inner).holds e = !inner.holds e := rfl

end Condition

end ChainAutomata
