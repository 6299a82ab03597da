/-
Exchange of settings as JSON values.

Settings are an object, in which every key may be missing, or a list of the first settings in the
order final state name, audit, level.  A level is a word or an object that holds the word as its
only key and nothing under it.

* `Settings.ofJson` — the settings of a value; what is not given has its default;
* `Settings.toJson` — the object of all settings;
* `ShapeFault` — the ways in which a value does not describe settings.

Nothing is checked beyond the form: a blank name is read like any other.
-/
import ChainAutomata.Json
import ChainAutomata.Settings

namespace ChainAutomata

/-- Why a JSON value does not describe settings. -/
inductive ShapeFault where
  | wrongType (found : Json) (expected : String)
  | unknownKey (key : String)
  | unknownLevel (word : String)
  | tooManyItems (count : Nat)
  | notSingleKey

namespace ShapeFault

/-- A value as it stands in a message. -/
def describe : Json → String
  | .null => "null"
  | .bool b => "boolean `" ++ (if b then "true" else "false") ++ "`"
  | .integer n => "integer `" ++ Text.signedDecimal n ++ "`"
  | .float x => "floating point `" ++ Decimal.render x ++ "`"
  | .text s => "string " ++ Text.quoteText s
  | .array _ => "sequence"
  | .object _ => "map"

def message : ShapeFault → String
  | wrongType found expected => "invalid type: " ++ describe found ++ ", expected " ++ expected
  | unknownKey key =>
    "unknown field `" ++ key
      ++ "`, expected one of `final_state_name`, `verify_invariants`, `log_level`"
  | unknownLevel word =>
    "unknown variant `" ++ word
      ++ "`, expected one of `trace`, `debug`, `info`, `warn`, `warning`, `error`"
  | tooManyItems count =>
    "invalid length " ++ Text.decimal count ++ ", expected fewer elements in array"
  | notSingleKey => "invalid value: map, expected map with a single key"

end ShapeFault

/-- The level that a word means. -/
def Level.ofWord (word : String) : Except ShapeFault Level :=
  match Level.ofLabel? word with
  | some l => .ok l
  | none => .error (.unknownLevel word)

/-- The level of a value: a word, or an object with the word as its key and null under it. -/
def Level.ofJson : Json → Except ShapeFault Level
  | .text word => Level.ofWord word
  | .object [(word, x)] =>
    match Level.ofWord word with
    | .error fault => .error fault
    | .ok l =>
      match x with
      | .null => .ok l
      | x => .error (.wrongType x "unit")
  | .object _ => .error .notSingleKey
  | x => .error (.wrongType x "string or map")

namespace Settings

def setFinalName (s : Settings) : Json → Except ShapeFault Settings
  | .text name => .ok { s with finalName := name }
  | x => .error (.wrongType x "a string")

def setAudited (s : Settings) : Json → Except ShapeFault Settings
  | .bool b => .ok { s with audited := b }
  | x => .error (.wrongType x "a boolean")

def setLevel (s : Settings) (x : Json) : Except ShapeFault Settings :=
  match Level.ofJson x with
  | .ok l => .ok { s with level := l }
  | .error fault => .error fault

/-- The settings with the value of one key. -/
def setMember (s : Settings) (key : String) (x : Json) : Except ShapeFault Settings :=
  if key = "final_state_name" then s.setFinalName x
  else if key = "verify_invariants" then s.setAudited x
  else if key = "log_level" then s.setLevel x
  else .error (.unknownKey key)

/-- The settings with the values of an object, key by key. -/
def setMembers : Settings → List (String × Json) → Except ShapeFault Settings
  | s, [] => .ok s
  | s, (key, x) :: rest =>
    match s.setMember key x with
    | .ok s => setMembers s rest
    | .error fault => .error fault

/-- The settings with the values of a list, given what sets each place.  Values past the last place
are too many; `count` is the number of all values. -/
def setItems (count : Nat) : Settings → List (Settings → Json → Except ShapeFault Settings) →
    List Json → Except ShapeFault Settings
  | s, _, [] => .ok s
  | _, [], _ :: _ => .error (.tooManyItems count)
  | s, place :: places, x :: rest =>
    match place s x with
    | .ok s => setItems count s places rest
    | .error fault => .error fault

/-- The settings that a value describes. -/
def ofJson : Json → Except ShapeFault Settings
  | .object members => setMembers {} members
  | .array items => setItems items.length {} [setFinalName, setAudited, setLevel] items
  | x => .error (.wrongType x "struct CompilerConfig")

/-- The object of all settings. -/
def toJson (s : Settings) : Json :=
  .object [
    ("final_state_name", .text s.finalName),
    ("verify_invariants", .bool s.audited),
    ("log_level", .text s.level.label)]

/-- Settings survive the exchange. -/
theorem ofJson_toJson (s : Settings) : ofJson s.toJson = .ok s := by
  simp [ofJson, toJson, setMembers, setMember, setFinalName, setAudited, setLevel, Level.ofJson,
    Level.ofWord]

end Settings

end ChainAutomata
