/-
Failures: the reasons for which a pattern is not compiled or settings are not loaded.

* `Failure.message` — the sentence that a person reads;
* `Failure.source?` — the failure underneath, where there is one;
* `Failure.inspect?` — the inspection text, for the failures whose parts are this library's own.
-/
import ChainAutomata.Pattern.Distinct

namespace ChainAutomata

open Inspection (Tree)

/-- Why the content of a settings file could not be had. -/
inductive ReadFault where
  | missing
  | directory
  | malformedText
  deriving DecidableEq, Repr

/-- The wording of the system's own reports. -/
def ReadFault.message : ReadFault → String
  | .missing => "No such file or directory (os error 2)"
  | .directory => "Is a directory (os error 21)"
  | .malformedText => "stream did not contain valid UTF-8"

/-- Why an operation failed. -/
inductive Failure where
  /-- The pattern breaks a rule of its structure. -/
  | malformedPattern (cause : DuplicateName)
  /-- A compiled automaton breaks one of its invariants. -/
  | inconsistent (fault : String)
  /-- A setting is missing, malformed or out of range; the key is given where one is to blame. -/
  | settings (complaint : String) (key : Option String)
  /-- A settings file could not be read. -/
  | unreadable (fault : ReadFault)
  deriving DecidableEq, Repr

namespace Failure

def message : Failure → String
  | malformedPattern cause => "Malformed pattern: " ++ cause.message
  | inconsistent fault => "Internal consistency fault: " ++ fault
  | settings complaint _ => "Configuration error: " ++ complaint
  | unreadable fault => "IO error: " ++ fault.message

/-- The message of the failure underneath. -/
def source? : Failure → Option String
  | malformedPattern cause => some cause.message
  | inconsistent _ | settings _ _ | unreadable _ => none

/-- The name of the pattern element to blame. -/
def patternName? : Failure → Option String
  | malformedPattern cause => some cause.name
  | inconsistent _ | settings _ _ | unreadable _ => none

/-- The layout for inspection; what the system reports has none. -/
def inspect? : Failure → Option Tree
  | malformedPattern cause => some (.record "MalformedPattern" [("source", cause.inspect)])
  | inconsistent fault => some (.record "InternalConsistencyFault" [("message", .text fault)])
  | settings complaint key =>
    some (.record "Configuration" [
      ("message", .text complaint),
      ("config_key", .optional (key.map Tree.text))])
  | unreadable _ => none

end Failure

end ChainAutomata
