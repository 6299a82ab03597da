/-
Settings of the compiler.

* `Settings.check` — the only setting that can be out of range is the name of the final state,
  which must not be blank;
* `Settings.emits` — which notices pass: warnings and errors always, and what is at most as
  verbose as the chosen level.
-/
import ChainAutomata.Failure
import ChainAutomata.Level
import ChainAutomata.Text.Blank

namespace ChainAutomata

open Inspection (Tree)

/-- What a compilation can be told. -/
structure Settings where
  /-- The name of the accepting state. -/
  finalName : String := "$endState$"
  /-- Whether each compiled automaton is audited. -/
  audited : Bool := true
  /-- The most verbose level of notices that are emitted. -/
  level : Level := .warn
  deriving DecidableEq, Repr

namespace Settings

/-- The complaint about a blank name of the final state. -/
def blankFinalName : Failure :=
  .settings "final state name must not be empty" (some "final_state_name")

/-- Refuses settings under which nothing can be compiled. -/
def check (s : Settings) : Except Failure Unit :=
  if Text.isBlank s.finalName then .error blankFinalName else .ok ()

/-- Whether notices of a level are emitted. -/
def emits (s : Settings) (l : Level) : Bool :=
  l.verbosity ≤ Level.warn.verbosity || l.verbosity ≤ s.level.verbosity

def inspect (s : Settings) : Tree :=
  .record "CompilerConfig" [
    ("final_state_name", .text s.finalName),
    ("verify_invariants", .flag s.audited),
    ("log_level", s.level.inspect)]

theorem emits_eq_true_iff {s : Settings} {l : Level} :
    s.emits l = true ↔ l.verbosity ≤ max Level.warn.verbosity s.level.verbosity := by
  simp only [emits, Bool.or_eq_true, decide_eq_true_eq]
  omega

end Settings

end ChainAutomata
