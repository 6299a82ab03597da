/-
The audit of an automaton: a check of every invariant that a compiled automaton has.

1. There is exactly one start state, and it is the designated one.
2. There is exactly one final state, it is the designated one, and no transition leaves it.
3. Every state is filed under its position, every transition leads to a state, and a transition
   carries a condition exactly when its action looks at the event.
4. No state reachable from the start, the final one apart, is without transitions.
5. The final state can be reached from every state.

`Automaton.audit` reports the first fault in this order, states in arena order.  Its fault
`outsideArena` says that a lookup of the audit itself failed.
-/
import ChainAutomata.Automaton.Reach
import ChainAutomata.Failure

universe u

namespace ChainAutomata

open Inspection (Tree)

/-- A broken invariant. -/
inductive Fault where
  | starts (expected : StateId) (found : List StateId)
  | finals (expected : StateId) (found : List StateId)
  | finalContinues (name : String) (transitions : Nat)
  | misfiled (name : String) (position id : StateId)
  | unknownTarget (name : String) (action : Action) (target : StateId)
  | misplacedCondition (name : String) (action : Action)
  | deadEnd (name : String)
  | cannotFinish (name : String) (id : StateId)
  /-- A state that the audit looked up is not there. -/
  | outsideArena
  deriving DecidableEq, Repr

namespace Fault

/-- A list of ids as it stands in a message. -/
def idList (ids : List StateId) : String := (Tree.list (ids.map StateId.inspect)).compact

def message : Fault → String
  | starts expected found =>
    "expected exactly one start state " ++ expected.display ++ ", found " ++ idList found
  | finals expected found =>
    "expected exactly one final state " ++ expected.display ++ ", found " ++ idList found
  | finalContinues name transitions =>
    "final state '" ++ name ++ "' has " ++ Text.decimal transitions ++ " outgoing transitions"
  | misfiled name position id =>
    "state '" ++ name ++ "' stored at index " ++ Text.decimal position ++ " has id " ++ id.display
  | unknownTarget name action target =>
    "state '" ++ name ++ "' has a " ++ action.label ++ " transition to unknown state "
      ++ target.display
  | misplacedCondition name action =>
    "state '" ++ name ++ "' has a " ++ action.label ++ " transition with a misplaced condition"
  | deadEnd name => "state '" ++ name ++ "' is a dead end"
  | cannotFinish name id =>
    "state '" ++ name ++ "' (" ++ id.display ++ ") cannot reach the final state"
  | outsideArena => "a state id lies outside the arena"

/-- A broken invariant of a compiled automaton as a failure. -/
def toFailure (f : Fault) : Failure := .inconsistent f.message

end Fault

namespace Automaton

variable {ε : Type u}

/-- The ids under which the states of a role are filed. -/
def idsOf (a : Automaton ε) (role : Role) : List StateId :=
  (a.states.filter fun s => s.role == role).map State.id

def auditStart (a : Automaton ε) : Except Fault Unit :=
  if a.idsOf .start = [a.start] then .ok () else .error (.starts a.start (a.idsOf .start))

def auditFinal (a : Automaton ε) : Except Fault Unit :=
  if a.idsOf .final = [a.final] then
    match a.finalState? with
    | none => .error .outsideArena
    | some s =>
      if s.transitions.isEmpty then .ok ()
      else .error (.finalContinues s.name s.transitions.length)
  else .error (.finals a.final (a.idsOf .final))

/-- The audit of the transitions of a state named `name`. -/
def auditTransitions (a : Automaton ε) (name : String) :
    List (Transition ε) → Except Fault Unit
  | [] => .ok ()
  | t :: ts =>
    if a.holds t.target then
      if t.action.needsCondition = t.condition.isSome then a.auditTransitions name ts
      else .error (.misplacedCondition name t.action)
    else .error (.unknownTarget name t.action t.target)

/-- The audit of the states from a position on. -/
def auditStates (a : Automaton ε) (position : StateId) : List (State ε) → Except Fault Unit
  | [] => .ok ()
  | s :: rest =>
    if s.id = position then
      match a.auditTransitions s.name s.transitions with
      | .error fault => .error fault
      | .ok () => a.auditStates (position + 1) rest
    else .error (.misfiled s.name position s.id)

/-- The audit for dead ends among states, given the ids reachable from the start. -/
def auditDeadEnds (a : Automaton ε) (reached : List StateId) : List (State ε) → Except Fault Unit
  | [] => .ok ()
  | s :: rest =>
    if a.holds s.id then
      if s.id ∈ reached ∧ ¬ s.isFinal ∧ s.transitions.isEmpty then .error (.deadEnd s.name)
      else a.auditDeadEnds reached rest
    else .error .outsideArena

/-- The audit for states that cannot finish, given the ids that can. -/
def auditFinish (a : Automaton ε) (finishing : List StateId) : List (State ε) → Except Fault Unit
  | [] => .ok ()
  | s :: rest =>
    if a.holds s.id then
      if s.id ∈ finishing then a.auditFinish finishing rest
      else .error (.cannotFinish s.name s.id)
    else .error .outsideArena

/-- Reports the first broken invariant. -/
def audit (a : Automaton ε) : Except Fault Unit := do
  a.auditStart
  a.auditFinal
  a.auditStates 0 a.states
  match a.reachable? with
  | none => .error .outsideArena
  | some reached => a.auditDeadEnds reached a.states
  match a.finishing? with
  | none => .error .outsideArena
  | some finishing => a.auditFinish finishing a.states

end Automaton

end ChainAutomata
