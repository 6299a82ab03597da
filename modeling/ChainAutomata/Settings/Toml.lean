/-
Settings written in TOML.

Each key of the document is a setting.  The level is a string or a table whose only key is the word
for the level, with an empty table or list under it.

* `Settings.ofToml` — the settings of a document; what is not given has its default, and the result
  is checked.
-/
import ChainAutomata.Settings
import ChainAutomata.Toml.Reader

namespace ChainAutomata

/-- The level of a value. -/
def Level.ofToml? : Toml.Value → Option Level
  | .text word => Level.ofLabel? word
  | .table _ [(word, .emptyList)] => Level.ofLabel? word
  | .table _ [(word, .table _ [])] => Level.ofLabel? word
  | _ => none

namespace Settings

/-- The settings with the value of one key. -/
def setEntry? (s : Settings) (key : String) (v : Toml.Value) : Option Settings :=
  match key, v with
  | "final_state_name", .text name => some { s with finalName := name }
  | "verify_invariants", .flag b => some { s with audited := b }
  | "log_level", v => (Level.ofToml? v).map fun l => { s with level := l }
  | _, _ => none

/-- The settings with the values of all keys. -/
def setEntries? (s : Settings) (es : Toml.Entries) : Option Settings :=
  es.foldlM (fun s e => s.setEntry? e.1 e.2) s

/-- The settings of a TOML document. -/
def ofToml (text : String) : Except Failure Settings :=
  match (Toml.parse? text).bind (setEntries? {}) with
  | none => .error (.settings "Invalid TOML" none)
  | some s => s.check.map fun _ => s

end Settings

end ChainAutomata
