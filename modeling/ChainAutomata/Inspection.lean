/-
Inspection text: the form in which a value is shown to a person who debugs it.

A value is first laid out as a `Tree` of named records, tuples and lists, and then printed

* on one line by `Tree.compact`, or
* over several lines by `Tree.indented`, each nested part four spaces further in and each followed
  by a comma.

Design notes: the layout is data so that each type says only which parts it shows.  An atom is
printed as it is, line breaks included, which is why indenting works on the printed text and not on
the tree.
-/
import ChainAutomata.Text.Quoted

namespace ChainAutomata.Inspection

/-- The layout of a value that is shown for inspection. -/
inductive Tree where
  /-- Text that is shown as it is. -/
  | atom (text : String)
  /-- A named list of fields. -/
  | record (name : String) (fields : List (String × Tree))
  /-- Positional parts, under a name or under none. -/
  | tuple (name : String) (items : List Tree)
  /-- A list of any length. -/
  | list (items : List Tree)

namespace Tree

/-- A string is shown quoted. -/
def text (s : String) : Tree := .atom (Text.quoteText s)

/-- A number is shown in decimal. -/
def number (n : Nat) : Tree := .atom (Text.decimal n)

/-- A truth value is shown in lower case. -/
def flag (b : Bool) : Tree := .atom (if b then "true" else "false")

/-- A value that may be absent. -/
def optional : Option Tree → Tree
  | none => .atom "None"
  | some t => .tuple "Some" [t]

mutual

/-- The tree on one line. -/
def compact : Tree → String
  | .atom t => t
  | .record name fields => name ++ " \x7b " ++ ", ".intercalate (compactFields fields) ++ " \x7d"
  | .tuple name items => name ++ "(" ++ ", ".intercalate (compactItems items) ++ ")"
  | .list items => "[" ++ ", ".intercalate (compactItems items) ++ "]"

/-- The parts of a list or tuple, each on one line. -/
def compactItems : List Tree → List String
  | [] => []
  | t :: ts => compact t :: compactItems ts

/-- The fields of a record, each on one line behind its name. -/
def compactFields : List (String × Tree) → List String
  | [] => []
  | (name, t) :: rest => (name ++ ": " ++ compact t) :: compactFields rest

end

/-- Text moved four spaces in, on its first line and after every line break. -/
def shift (s : String) : String :=
  "    " ++ String.ofList (s.toList.flatMap fun c =>
    if c = '\n' then ['\n', ' ', ' ', ' ', ' '] else [c])

/-- Parts over several lines: each is moved in and closed by a comma. -/
def stacked (parts : List String) : String :=
  String.join (parts.map fun p => shift p ++ ",\n")

mutual

/-- The tree over several lines. -/
def indented : Tree → String
  | .atom t => t
  | .record name fields => name ++ " \x7b\n" ++ stacked (indentedFields fields) ++ "\x7d"
  | .tuple name items => name ++ "(\n" ++ stacked (indentedItems items) ++ ")"
  | .list [] => "[]"
  | .list (t :: ts) => "[\n" ++ stacked (indented t :: indentedItems ts) ++ "]"

/-- The parts of a list or tuple, each over several lines. -/
def indentedItems : List Tree → List String
  | [] => []
  | t :: ts => indented t :: indentedItems ts

/-- The fields of a record, each over several lines behind its name. -/
def indentedFields : List (String × Tree) → List String
  | [] => []
  | (name, t) :: rest => (name ++ ": " ++ indented t) :: indentedFields rest

end

end Tree

end ChainAutomata.Inspection
