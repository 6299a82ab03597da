/-
Settings files.

The extension of a file's name says in which format it is written.  The file is read before its
name is looked at, so a file that cannot be read is reported as such whatever its name.

* `extension?` — what follows the last point of a file's name; a point at the start of the name
  begins no extension;
* `Settings.ofFile` — the settings of a file, given its path and the outcome of reading it.
-/
import ChainAutomata.Settings.Toml
import ChainAutomata.Settings.Yaml

namespace ChainAutomata

open Inspection (Tree)

/-- The last part of a path. -/
def fileName (path : List Char) : List Char :=
  (path.reverse.takeWhile (· ≠ '/')).reverse

/-- What follows the last point of the name of a file. -/
def extension? (path : String) : Option String :=
  let name := fileName path.toList
  if name = ['.', '.'] then none
  else
    let after := (name.reverse.takeWhile (· ≠ '.')).reverse
    let before := (name.reverse.dropWhile (· ≠ '.')).drop 1
    if before.isEmpty then none else some (String.ofList after)

namespace Settings

/-- The complaint about a file in no known format. -/
def unsupported (extension : Option String) (path : String) : Failure :=
  .settings ("Unsupported config file extension "
    ++ (Tree.optional (extension.map Tree.text)).compact ++ " for '" ++ path
    ++ "'. Expected .toml, .yaml or .yml") none

/-- The settings of a file. -/
def ofFile (path : String) (content : Except ReadFault String) : Except Failure Settings :=
  match content with
  | .error fault => .error (.unreadable fault)
  | .ok text =>
    match extension? path with
    | some "toml" => ofToml text
    | some "yaml" => ofYaml text
    | some "yml" => ofYaml text
    | other => .error (unsupported other path)

end Settings

end ChainAutomata
