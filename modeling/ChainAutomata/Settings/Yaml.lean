/-
Settings written in YAML.

The document is a mapping from the names of settings to scalars.  A truth value is a plain word; it
may also be the whole text of a literal block that is tagged as a truth value.  A level is a word,
however it is quoted, or a tag of its own on an empty value.

* `Settings.ofYaml` — the settings of a document; what is not given has its default, and the result
  is checked.
-/
import ChainAutomata.Settings
import ChainAutomata.Yaml.Document

namespace ChainAutomata

/-- The truth value of a word. -/
def truth? (word : String) : Option Bool :=
  if ["true", "True", "TRUE"].contains word then some true
  else if ["false", "False", "FALSE"].contains word then some false
  else none

/-- The truth value of a scalar. -/
def Yaml.Scalar.truth? (s : Yaml.Scalar) : Option Bool :=
  if s.style = .plain ∨ (s.style = .literal ∧ s.tag = some "tag:yaml.org,2002:bool") then
    ChainAutomata.truth? s.text
  else none

/-- The word of a tag of one's own: what follows the exclamation mark, if anything does. -/
def ownTag? (tag : String) : Option String :=
  match tag.toList with
  | ['!'] => some "!"
  | '!' :: rest => some (String.ofList rest)
  | _ => none

/-- Whether a scalar is written as nothing. -/
def Yaml.Scalar.isNull (s : Yaml.Scalar) : Bool :=
  s.style = .plain && ["", "null", "Null", "NULL", "~"].contains s.text

/-- The level of a scalar. -/
def Level.ofYaml? (s : Yaml.Scalar) : Option Level :=
  match s.tag.bind ownTag? with
  | none => Level.ofLabel? s.text
  | some word => if s.isNull then Level.ofLabel? word else none

namespace Settings

/-- The settings with the value of one key. -/
def setScalar? (s : Settings) (key : String) (v : Yaml.Scalar) : Option Settings :=
  match key with
  | "final_state_name" => some { s with finalName := v.text }
  | "verify_invariants" => v.truth?.map fun b => { s with audited := b }
  | "log_level" => (Level.ofYaml? v).map fun l => { s with level := l }
  | _ => none

/-- The settings with the values of all keys, of which none may be given twice. -/
def setScalars? (s : Settings) (entries : List (Yaml.Scalar × Yaml.Scalar)) : Option Settings :=
  if (firstRepeated? [] (entries.map fun e => e.1.text)).isSome then none
  else entries.foldlM (fun s e => s.setScalar? e.1.text e.2) s

/-- The settings of a YAML document. -/
def ofYaml (text : String) : Except Failure Settings :=
  match do setScalars? {} (← (← Yaml.Document.ofMarks? (← Yaml.marks? text)).resolve?) with
  | none => .error (.settings "Invalid YAML" none)
  | some s => s.check.map fun _ => s

end Settings

end ChainAutomata
