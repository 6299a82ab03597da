/-
YAML documents that are one mapping of scalars.

Such a mapping is written as a block, one entry per line with the keys in one column, or between
braces.  A stream holds at most one document; a stream without one, and a document without content,
stand for a mapping without entries.

* `Document.ofMarks?` — the document of a stream, absent when the stream is malformed, when it
  holds a second document, or when the document is something else than such a mapping;
* `Document.resolve?` — its entries with every alias replaced by what it stands for.

Design notes: a key on one line with its colon is called simple.  Where a mapping starts, properties
on the lines before the first key belong to the mapping and those on its line to the key.
-/
import ChainAutomata.Yaml.Node

namespace ChainAutomata.Yaml

/-- A mapping of scalars. -/
structure Document where
  /-- The name under which the mapping could be repeated. -/
  anchor : Option String := none
  entries : List (Node × Node) := []
  deriving DecidableEq, Repr

/-! ### Keys -/

/-- The greatest distance from the start of a simple key to its colon. -/
def simpleKeyLimit : Nat := 1024

/-- Whether the colon of a simple key that started at `start` may stand here. -/
def mayBeColon (start m : Mark) : Bool :=
  m.char = ':' && m.line = start.line && m.column ≤ start.column + simpleKeyLimit

/-- The node of a simple key in a block: properties and content, or properties alone before the
colon. -/
def keyNode? (hs : Handles) :
    (count : Nat) → Properties → List Mark → Option (Node × List Mark)
  | count, p, ms =>
    if Properties.starts ms then
      match count with
      | 0 => none
      | count + 1 =>
        match p.next? hs false ms with
        | none => none
        | some (p, rest) => keyNode? hs count p (skip false false false rest).2
    else if !p.isNone && isLone ':' ms then some (p.emptyNode, ms)
    else (Node.content? false 0 p ms).map fun r => (r.1, r.2.2)

/-- A simple key of a block and what follows its colon. -/
def simpleKey? (hs : Handles) (ms : List Mark) : Option (Node × List Mark) :=
  match ms with
  | [] => none
  | start :: _ =>
    match keyNode? hs 2 {} ms with
    | none => none
    | some (key, rest) =>
      match (skip false false false rest).2 with
      | m :: after => if mayBeColon start m ∧ endsWord after then some (key, after) else none
      | [] => none

/-! ### Block mappings -/

/-- The value of a key that was marked by a question mark, if a colon in the same column follows;
the empty scalar otherwise. -/
def explicitValue? (hs : Handles) (indent : Nat) (fresh : Bool) (ms : List Mark) :
    Option (Node × Bool × List Mark) :=
  match skip false fresh false ms with
  | (fresh, m :: rest) =>
    if fresh ∧ m.column = indent ∧ isLone ':' (m :: rest) then Node.block? hs indent true rest
    else some (({} : Properties).emptyNode, fresh, m :: rest)
  | (fresh, []) => some (({} : Properties).emptyNode, fresh, [])

/-- An entry of a block mapping that starts at the first of the marks. -/
def blockEntry? (hs : Handles) (indent : Nat) (ms : List Mark) :
    Option ((Node × Node) × Bool × List Mark) := do
  if isLone '?' ms then
    let (key, fresh, rest) ← Node.block? hs indent true (ms.drop 1)
    let (value, fresh, rest) ← explicitValue? hs indent fresh rest
    some ((key, value), fresh, rest)
  else
    let (key, rest) ← simpleKey? hs ms
    let (value, fresh, rest) ← Node.block? hs indent false rest
    some ((key, value), fresh, rest)

/-- The entries of a block mapping from a place on, and what follows the mapping. -/
def blockEntries? (hs : Handles) (indent : Nat) :
    (count : Nat) → (fresh : Bool) → List Mark → Option (List (Node × Node) × List Mark)
  | 0, _, _ => none
  | n + 1, fresh, ms =>
    match skip false fresh false ms with
    | (_, []) => some ([], [])
    | (fresh, m :: rest) =>
      if m.column < indent ∨ isDivider (m :: rest) then some ([], m :: rest)
      else if m.column = indent ∧ fresh then
        match blockEntry? hs indent (m :: rest) with
        | none => none
        | some (entry, fresh, rest) =>
          (blockEntries? hs indent n fresh rest).map fun r => (entry :: r.1, r.2)
      else none

/-! ### Mappings between braces -/

/-- The value after a key between braces, empty if no colon follows. -/
def flowValue? (hs : Handles) (mayFollow : Mark → Bool) (ms : List Mark) :
    Option (Node × List Mark) :=
  match (skip true false false ms).2 with
  | m :: rest =>
    if m.char = ':' then if mayFollow m then Node.flow? hs rest else none
    else some (({} : Properties).emptyNode, m :: rest)
  | [] => none

/-- An entry between braces that starts at the first of the marks. -/
def flowEntry? (hs : Handles) (ms : List Mark) : Option ((Node × Node) × List Mark) := do
  match ms with
  | [] => none
  | start :: rest =>
    if start.char = '?' then
      let (key, rest) ← Node.flow? hs rest
      let (value, rest) ← flowValue? hs (fun _ => true) rest
      some ((key, value), rest)
    else if Node.isOverFlow ms then none
    else
      let (key, rest) ← Node.flow? hs ms
      let (value, rest) ← flowValue? hs (mayBeColon start) rest
      some ((key, value), rest)

/-- The entries between braces from a place on, and what follows the closing brace.  Entries are
separated by commas, and a comma may follow the last. -/
def flowEntries? (hs : Handles) :
    (count : Nat) → (first : Bool) → List Mark → Option (List (Node × Node) × List Mark)
  | 0, _, _ => none
  | n + 1, first, ms =>
    let entries (ms : List Mark) : Option (List (Node × Node) × List Mark) :=
      match (skip true false false ms).2 with
      | [] => none
      | m :: rest =>
        if m.char = '\x7d' then some ([], rest)
        else
          match flowEntry? hs (m :: rest) with
          | none => none
          | some (entry, rest) => (flowEntries? hs n false rest).map fun r => (entry :: r.1, r.2)
    if first then entries ms
    else
      match (skip true false false ms).2 with
      | ⟨',', _, _⟩ :: rest => entries rest
      | ⟨'\x7d', _, _⟩ :: rest => some ([], rest)
      | _ => none

/-! ### Streams -/

/-- The document of a mapping, whether the place after it is fresh, and what follows it. -/
def mapping (p : Properties) (fresh : Bool) (r : List (Node × Node) × List Mark) :
    Document × Bool × List Mark :=
  (⟨p.anchor, r.1⟩, fresh, r.2)

/-- The document that starts at the first of the marks, given the properties on the lines before
and whether its place is fresh; then whether the place after it is fresh, and what follows it.
`explicit` says that a divider started the document.

A block ends where a line starts that it does not hold, so the place after it is fresh. -/
def rootFrom? (hs : Handles) (explicit : Bool) :
    (count : Nat) → (fresh : Bool) → Properties → List Mark → Option (Document × Bool × List Mark)
  | count, fresh, p, ms =>
    match ms with
    | [] => some ({}, fresh, [])
    | m :: rest =>
      if isDivider ms then if explicit ∨ ¬ p.isNone then some ({}, fresh, ms) else none
      else if m.char = '\x7b' then
        (flowEntries? hs ms.length true rest).map (mapping p false)
      else if fresh ∧ (isLone '?' ms ∨ (simpleKey? hs ms).isSome) then
        (blockEntries? hs m.column (ms.length + 1) true ms).map (mapping p true)
      else if Properties.starts ms then
        match count with
        | 0 => none
        | count + 1 =>
          match p.next? hs false ms with
          | none => none
          | some (p, rest) =>
            let r := skip false false false rest
            rootFrom? hs explicit count r.1 p r.2
      else none

/-- Whether nothing follows a place but dividers that end a document. -/
def isFinished : (count : Nat) → (fresh : Bool) → List Mark → Bool
  | 0, _, _ => false
  | n + 1, fresh, ms =>
    match (skip false fresh false ms).2 with
    | [] => true
    | rest => isTriple '.' rest && isFinished n false (rest.drop 3)

namespace Document

/-- The document of a stream. -/
def ofMarks? (ms : List Mark) : Option Document := do
  let (directives, fresh, rest) ← directives? (ms.length + 1) true {} ms
  let hs := directives.handles ++ Handles.known
  let (document, fresh, rest) ←
    if isTriple '-' rest then
      let r := skip false false false (rest.drop 3)
      rootFrom? hs true 2 r.1 {} r.2
    else if directives.versioned ∨ ¬ directives.handles.isEmpty then none
    else rootFrom? hs false 2 fresh {} rest
  if isFinished (rest.length + 1) fresh rest then some document else none

/-! ### Aliases -/

/-- What anchors stand for.  An anchor names a slot; a slot is numbered by how many names there
are when the anchor is set.  What a slot holds is decided by the last anchor that took it; a mapping
holds no scalar. -/
structure Anchors where
  slots : List (String × Nat) := []
  held : List (Nat × Option Scalar) := []

/-- Sets the slot of a name. -/
def setSlot (name : String) (slot : Nat) : List (String × Nat) → List (String × Nat)
  | [] => [(name, slot)]
  | e :: rest => if e.1 = name then (name, slot) :: rest else e :: setSlot name slot rest

/-- Sets an anchor. -/
def Anchors.set (as : Anchors) (name : Option String) (s : Option Scalar) : Anchors :=
  match name with
  | none => as
  | some name =>
    let slot := as.slots.length
    ⟨setSlot name slot as.slots, (slot, s) :: as.held⟩

/-- A scalar, or the slot of an alias. -/
inductive Reference where
  | scalar (s : Scalar)
  | slot (n : Nat)

/-- The reference of a node, and the anchors after it; an unknown name is an error. -/
def refer? (as : Anchors) (n : Node) : Option (Reference × Anchors) :=
  match n.content with
  | .scalar s => some (.scalar s, as.set n.anchor (some s))
  | .alias name => (as.slots.lookup name).map fun slot => (.slot slot, as)

/-- The references of all entries in order, and the anchors at the end. -/
def references? : Anchors → List (Node × Node) → Option (List (Reference × Reference) × Anchors)
  | as, [] => some ([], as)
  | as, (key, value) :: rest => do
    let (k, as) ← refer? as key
    let (v, as) ← refer? as value
    let (rs, as) ← references? as rest
    some ((k, v) :: rs, as)

/-- The scalar of a reference. -/
def Reference.scalar? (as : Anchors) : Reference → Option Scalar
  | .scalar s => some s
  | .slot n => (as.held.lookup n).join

/-- The entries of a document as scalars. -/
def resolve? (d : Document) : Option (List (Scalar × Scalar)) := do
  let (rs, as) ← references? (({} : Anchors).set d.anchor none) d.entries
  rs.mapM fun r => do some (← r.1.scalar? as, ← r.2.scalar? as)

end Document

end ChainAutomata.Yaml
