/-
Notices: what the compiler reports while it works.

A notice is a value that says what happened; its level and its wording are functions of it.  Lists
of notices are in the order in which they were emitted.
-/
import ChainAutomata.Automaton
import ChainAutomata.Failure
import ChainAutomata.Level

namespace ChainAutomata

/-- An event in the course of a compilation. -/
inductive Notice where
  /-- An edge was added. -/
  | connected (source : StateId) (action : Action) (target : StateId)
  /-- An element was turned into states. -/
  | expanded (name : String) (quantifier : Quantifier) (strictness : Strictness) (created : Nat)
      (entry : StateId)
  /-- A pattern was turned into an automaton. -/
  | compiled (names : List String) (states : Nat)
  /-- The settings are out of range. -/
  | unusable (cause : Failure)
  /-- The pattern with this last element is malformed. -/
  | rejected (lastName : String) (cause : DuplicateName)
  /-- The automaton breaks an invariant. -/
  | faulty (cause : Failure)
  deriving DecidableEq, Repr

namespace Notice

def level : Notice → Level
  | connected .. => .trace
  | expanded .. => .debug
  | compiled .. => .info
  | unusable .. | rejected .. => .warn
  | faulty .. => .error

def message : Notice → String
  | connected source action target =>
    "  " ++ source.display ++ " -[" ++ action.label ++ "]-> " ++ target.display
  | expanded name quantifier strictness created entry =>
    "[NfaCompiler] Expanded '" ++ name ++ "' (" ++ quantifier.describe ++ ", " ++ strictness.label
      ++ ") into " ++ Text.decimal created ++ " state(s), entry " ++ entry.display
  | compiled names states =>
    "[NfaCompiler] Compiled pattern "
      ++ (Inspection.Tree.list (names.map Inspection.Tree.text)).compact
      ++ " into " ++ Text.decimal states ++ " states"
  | unusable cause => "[NfaCompiler] Invalid configuration: " ++ cause.message
  | rejected lastName cause =>
    "[NfaCompiler] Rejecting pattern '" ++ lastName ++ "': " ++ cause.message
  | faulty cause => "[NfaCompiler] " ++ cause.message

/-- The line that a log shows for a notice. -/
def line (n : Notice) : String := n.level.title ++ " " ++ n.message

end Notice

end ChainAutomata
