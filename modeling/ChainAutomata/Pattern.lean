/-
Patterns: chains of named elements that a stream of events is matched against.

An `Element` says how many times which events are wanted.  A `Pattern` is a non-empty chain of
elements, each linked to the one before it either strictly (nothing may come in between) or
relaxed (other events in between are skipped).

* `Pattern.begin`, `Pattern.call` — a chain is built by a first name and a sequence of `Call`s, of
  which two append an element and the others change the last one;
* `Pattern.last`, `Pattern.chains`, `Pattern.steps`, `Pattern.names` — the views of a chain;
* `Step.demand` — what an event must satisfy for an element to take it.

Design notes: the chain grows at its end, so the constructor adds the last element.  The first
element carries no link, hence it cannot be relaxed.
-/
import ChainAutomata.Condition

universe u

namespace ChainAutomata

open Inspection (Tree)

/-- How an element must follow the one before it. -/
inductive Strictness where
  /-- Nothing may come in between. -/
  | strict
  /-- Events that do not fit are skipped. -/
  | relaxed
  deriving DecidableEq, Repr

/-- How many events in a row an element takes. -/
inductive Quantifier where
  | single
  | zeroOrMore
  | oneOrMore
  deriving DecidableEq, Repr

namespace Quantifier

/-- Whether the element may take more than one event. -/
def isLooping : Quantifier → Bool
  | single => false
  | zeroOrMore | oneOrMore => true

/-- Whether the element may be left out. -/
def allowsZero : Quantifier → Bool
  | zeroOrMore => true
  | single | oneOrMore => false

/-- The quantifier in words. -/
def describe : Quantifier → String
  | single => "single"
  | zeroOrMore => "zero-or-more"
  | oneOrMore => "one-or-more"

/-- A looping quantifier is shown with its least number of occurrences. -/
def inspect : Quantifier → Tree
  | single => .atom "Single"
  | zeroOrMore => .tuple "Looping" [.atom "ZeroOrMore"]
  | oneOrMore => .tuple "Looping" [.atom "OneOrMore"]

end Quantifier

/-- The name under which a strictness is shown. -/
def Strictness.label : Strictness → String
  | .strict => "Strict"
  | .relaxed => "Relaxed"

/-- One named element of a pattern. -/
structure Element (ε : Type u) where
  name : String
  condition : Option (Condition ε) := none
  type : Option (EventType ε) := none
  quantifier : Quantifier := .single

namespace Element

variable {ε : Type u}

/-- Adds a condition; conditions added one after the other are checked in that order. -/
def require (x : Element ε) (c : Condition ε) : Element ε :=
  { x with condition := some (match x.condition with
      | none => c
      | some earlier => .both earlier c) }

/-- What an event must satisfy to be taken: the type first, then the conditions.  An element with
neither takes every event. -/
def demand (x : Element ε) : Condition ε :=
  match x.type, x.condition with
  | some type, some c => .both (.ofType type) c
  | some type, none => .ofType type
  | none, some c => c
  | none, none => .always

end Element

/-- An element together with the way it follows the one before it. -/
structure Step (ε : Type u) where
  strictness : Strictness
  element : Element ε

namespace Step

variable {ε : Type u}

def name (s : Step ε) : String := s.element.name

def quantifier (s : Step ε) : Quantifier := s.element.quantifier

/-- The condition on an event that the element takes. -/
def demand (s : Step ε) : Condition ε := s.element.demand

/-- The condition on an event that is skipped while the element waits: any that it would not
take. -/
def refusal (s : Step ε) : Condition ε := .negation s.demand

end Step

/-- A chain of elements, the last one outermost. -/
inductive Pattern (ε : Type u) where
  | head (element : Element ε)
  | link (earlier : Pattern ε) (strictness : Strictness) (element : Element ε)

namespace Pattern

variable {ε : Type u}

/-- The chain whose only element has this name. -/
def begin (name : String) : Pattern ε := .head { name }

/-- The last element; the first element of a chain counts as strict, having nothing before it. -/
def last : Pattern ε → Step ε
  | .head x => ⟨.strict, x⟩
  | .link _ s x => ⟨s, x⟩

/-- The chain before the last element. -/
def earlier? : Pattern ε → Option (Pattern ε)
  | .head _ => none
  | .link p _ _ => some p

def isHead (p : Pattern ε) : Bool := p.earlier?.isNone

/-- Changes the last element. -/
def modifyLast (f : Element ε → Element ε) : Pattern ε → Pattern ε
  | .head x => .head (f x)
  | .link p s x => .link p s (f x)

/-- A chain and every chain it was built from, from the whole to the first element. -/
def chains : Pattern ε → List (Pattern ε)
  | .head x => [.head x]
  | .link p s x => .link p s x :: p.chains

/-- The elements with their links, last element first. -/
def steps (p : Pattern ε) : List (Step ε) := p.chains.map last

/-- The number of elements. -/
def length (p : Pattern ε) : Nat := p.chains.length

/-- The names of the elements in the order in which they were declared. -/
def names : Pattern ε → List String
  | .head x => [x.name]
  | .link p _ x => p.names ++ [x.name]

/-- A call that extends a chain or changes its last element. -/
inductive Call (ε : Type u) where
  /-- Appends an element that must match the very next event. -/
  | next (name : String)
  /-- Appends an element that other events may come before. -/
  | followedBy (name : String)
  /-- Adds a condition to the last element. -/
  | require (condition : Condition ε)
  /-- Narrows the last element to one event type; the last such call counts. -/
  | narrow (type : EventType ε)
  /-- Sets the quantifier of the last element; the last such call counts. -/
  | repeats (quantifier : Quantifier)

/-- The chain after a call. -/
def call (p : Pattern ε) : Call ε → Pattern ε
  | .next name => .link p .strict { name }
  | .followedBy name => .link p .relaxed { name }
  | .require c => p.modifyLast fun x => x.require c
  | .narrow type => p.modifyLast fun x => { x with type := some type }
  | .repeats q => p.modifyLast fun x => { x with quantifier := q }

/-- The chain after a sequence of calls. -/
def calls (p : Pattern ε) (cs : List (Call ε)) : Pattern ε := cs.foldl call p

/-- A chain is shown by its last element and the name of the one before it. -/
def inspect (p : Pattern ε) : Tree :=
  .record "Pattern" [
    ("name", .text p.last.name),
    ("quantifier", p.last.quantifier.inspect),
    ("strictness", .atom p.last.strictness.label),
    ("has_condition", .flag p.last.element.condition.isSome),
    ("has_subtype", .flag p.last.element.type.isSome),
    ("previous", .optional (p.earlier?.map fun q => .text q.last.name))]

theorem chains_eq_cons (p : Pattern ε) : ∃ rest, p.chains = p :: rest := by
  cases p with
  | head x => exact ⟨[], rfl⟩
  | link p s x => exact ⟨p.chains, rfl⟩

@[simp] theorem steps_head (x : Element ε) : (head x).steps = [⟨.strict, x⟩] := rfl

@[simp] theorem steps_link (p : Pattern ε) (s : Strictness) (x : Element ε) :
    (link p s x).steps = ⟨s, x⟩ :: p.steps := rfl

@[simp] theorem length_head (x : Element ε) : (head x).length = 1 := rfl

@[simp] theorem length_link (p : Pattern ε) (s : Strictness) (x : Element ε) :
    (link p s x).length = p.length + 1 := rfl

theorem names_eq_reverse_steps (p : Pattern ε) :
    p.names = (p.steps.map Step.name).reverse := by
  induction p with
  | head x => rfl
  | link p s x ih => simp [names, ih, Step.name]

end Pattern

end ChainAutomata
