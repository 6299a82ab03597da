/-
TOML tables.

A document is a table, which grows line by line: a header opens a table and an assignment adds an
entry to the table that was opened last.  Tables know how they came about, because that decides
what may still be added to them.

* `Entries.open?` — opens the table of a header;
* `Entries.assign?` — adds an entry under a dotted key.

Design notes: settings take strings, truth values, tables and, where an empty table will do, empty
lists.  No other value is modelled; a document with one is refused by the reader.
-/

namespace ChainAutomata.Toml

/-- How a table came about. -/
inductive Origin where
  /-- Written between braces; nothing can be added. -/
  | inline
  /-- Opened by a header. -/
  | header
  /-- Named on the way to the table of a header. -/
  | implied
  /-- Named on the way to an entry under a dotted key. -/
  | dotted
  deriving DecidableEq, Repr

/-- A value that settings may take. -/
inductive Value where
  | text (s : String)
  | flag (b : Bool)
  | emptyList
  | table (origin : Origin) (entries : List (String × Value))

/-- The entries of a table, oldest first. -/
abbrev Entries := List (String × Value)

namespace Entries

/-- The value under a key. -/
def find? (es : Entries) (key : String) : Option Value := es.lookup key

/-- The entries with another value under a key that is there. -/
def replace (es : Entries) (key : String) (v : Value) : Entries :=
  es.map fun e => if e.1 = key then (key, v) else e

/-- Changes the table at the end of a path of keys.  A table that is missing on the way is made,
with the origin `made`; one that is there must be of an origin that may be `entered`.  The change
is told the origin of the table it applies to. -/
def within (made : Origin) (entered : Origin → Bool)
    (change : Origin → Entries → Option Entries) :
    (path : List String) → Origin → Entries → Option Entries
  | [], origin, es => change origin es
  | key :: path, _, es =>
    match es.find? key with
    | none =>
      (within made entered change path made []).map fun inner => es ++ [(key, .table made inner)]
    | some (.table origin inner) =>
      if entered origin then
        (within made entered change path origin inner).map fun inner =>
          es.replace key (.table origin inner)
      else none
    | some _ => none

/-- Whether a header can lead through a table. -/
def admitsHeader (o : Origin) : Bool := o ≠ .inline

/-- Whether a dotted key can lead through a table: not through one that a header opened. -/
def admitsDots (o : Origin) : Bool := o = .implied || o = .dotted

/-- Opens the table of a header, which no header may have opened before. -/
def openLast (key : String) (_ : Origin) (es : Entries) : Option Entries :=
  match es.find? key with
  | none => some (es ++ [(key, .table .header [])])
  | some (.table .implied inner) => some (es.replace key (.table .header inner))
  | some _ => none

/-- Opens the table of a header with the given keys. -/
def open? (es : Entries) (path : List String) (key : String) : Option Entries :=
  within .implied admitsHeader (openLast key) path .header es

/-- Adds an entry to a table; a table reached by dots must have been made by dots. -/
def addLast (dotted : Bool) (key : String) (v : Value) (origin : Origin) (es : Entries) :
    Option Entries :=
  if dotted ∧ origin ≠ .dotted then none
  else
    match es.find? key with
    | none => some (es ++ [(key, v)])
    | some _ => none

/-- Adds an entry under a dotted key, counted from these entries. -/
def add? (es : Entries) (dots : List String) (key : String) (v : Value) : Option Entries :=
  within .dotted admitsDots (addLast (!dots.isEmpty) key v) dots .header es

/-- Adds an entry under a dotted key, counted from the table at the end of a path of headers. -/
def assign? (es : Entries) (path dots : List String) (key : String) (v : Value) :
    Option Entries :=
  within .implied admitsHeader (fun _ inner => inner.add? dots key v) path .header es

end Entries

end ChainAutomata.Toml
