/-
Levels: how important a notice is, and how talkative a program is set to be.

* `Level.verbosity` — the order of the levels, from errors (least) to traces (most verbose);
* `Level.label`, `Level.title`, `Level.inspect` — the three spellings of a level.
-/
import ChainAutomata.Inspection

namespace ChainAutomata

/-- The importance of a notice, most important first. -/
inductive Level where
  | error
  | warn
  | info
  | debug
  | trace
  deriving DecidableEq, Repr

namespace Level

/-- All levels, least verbose first. -/
def all : List Level := [error, warn, info, debug, trace]

/-- The place of a level in the order from least to most verbose. -/
def verbosity : Level → Nat
  | error => 1
  | warn => 2
  | info => 3
  | debug => 4
  | trace => 5

/-- The spelling in settings. -/
def label : Level → String
  | error => "error"
  | warn => "warn"
  | info => "info"
  | debug => "debug"
  | trace => "trace"

/-- The spelling in front of a notice. -/
def title : Level → String
  | error => "ERROR"
  | warn => "WARN"
  | info => "INFO"
  | debug => "DEBUG"
  | trace => "TRACE"

/-- The spelling in inspection text. -/
def inspect : Level → Inspection.Tree
  | error => .atom "Error"
  | warn => .atom "Warn"
  | info => .atom "Info"
  | debug => .atom "Debug"
  | trace => .atom "Trace"

/-- The level that settings mean by a spelling; `warning` is a second one for `warn`. -/
def ofLabel? (s : String) : Option Level :=
  if s = "trace" then some trace
  else if s = "debug" then some debug
  else if s = "info" then some info
  else if s = "warn" then some warn
  else if s = "warning" then some warn
  else if s = "error" then some error
  else none

@[simp] theorem ofLabel?_label (l : Level) : ofLabel? l.label = some l := by
  cases l <;> rfl

end Level

end ChainAutomata
