/-
YAML nodes: scalars with their properties.

A node may have an anchor, under which later places repeat it, and a tag, in either order; an alias
stands for the node with an anchor.  A node without content is an empty plain scalar.

* `Node.block?` — a node of a block mapping;
* `Node.flow?` — a node between braces.

Design notes: settings are made of scalars, so lists and mappings within a document are refused as
soon as one opens.
-/
import ChainAutomata.Yaml.Scalar
import ChainAutomata.Yaml.Tag

namespace ChainAutomata.Yaml

/-- A scalar with its tag, as far as that is text. -/
structure Scalar where
  text : String
  style : Style
  tag : Option String := none
  deriving DecidableEq, Repr

/-- The scalar of a node without content. -/
def Scalar.empty (tag : Option String) : Scalar := ⟨"", .plain, tag⟩

/-- What is at a place of a document. -/
inductive Content where
  | scalar (s : Scalar)
  | alias (anchor : String)
  deriving DecidableEq, Repr

/-- A place of a document: its content, and the name under which it can be repeated. -/
structure Node where
  anchor : Option String
  content : Content
  deriving DecidableEq, Repr

/-- The properties in front of a node. -/
structure Properties where
  anchor : Option String := none
  tag : Option Tag := none
  deriving DecidableEq, Repr

namespace Properties

def isNone (p : Properties) : Bool := p.anchor.isNone && p.tag.isNone

/-- The node with these properties and no content. -/
def emptyNode (p : Properties) : Node := ⟨p.anchor, .scalar (.empty (p.tag.bind Tag.text?))⟩

/-- The node with these properties and a text. -/
def node (p : Properties) (text : String) (style : Style) : Node :=
  ⟨p.anchor, .scalar ⟨text, style, p.tag.bind Tag.text?⟩⟩

/-- One property and what follows it; a property may not be given twice.  There is no answer at
the start of anything else. -/
def next? (hs : Handles) (flow : Bool) (p : Properties) :
    List Mark → Option (Properties × List Mark)
  | ⟨'&', _, _⟩ :: ms =>
    match anchor? ms with
    | some (name, rest) => if p.anchor.isSome then none else some ({ p with anchor := name }, rest)
    | none => none
  | ⟨'!', _, _⟩ :: ms =>
    match tag? flow ms with
    | none => none
    | some (name, rest) =>
      if p.tag.isSome then none else (hs.resolve? name).map fun t => ({ p with tag := t }, rest)
  | _ => none

/-- Whether a property starts here. -/
def starts : List Mark → Bool
  | [] => false
  | m :: _ => m.char = '&' || m.char = '!'

end Properties

namespace Node

/-- Whether the header of a block of text starts with this character. -/
def isBlockSign (c : Char) : Bool := c = '|' || c = '>'

/-- The content after the properties of a node, whether line breaks have been read behind it, and
what follows. -/
def content? (flow : Bool) (indent : Nat) (p : Properties) (ms : List Mark) :
    Option (Node × Bool × List Mark) :=
  match ms with
  | [] => none
  | m :: rest =>
    if isDivider ms ∨ (m.char = '%' ∧ m.column = 0) then none
    else if m.char = '*' then
      if p.isNone then (anchor? rest).map fun r => (⟨none, .alias r.1⟩, false, r.2) else none
    else if m.char = '\'' ∨ m.char = '"' then
      (quoted? ms).map fun r => (p.node r.1 .quoted, false, r.2)
    else if !flow && isBlockSign m.char then
      (block? indent ms).map fun r => (p.node r.2.1 r.1, true, r.2.2)
    else
      (plain? flow (if flow then 0 else indent + 1) ms).map fun r => (p.node r.1 .plain, r.2.1, r.2.2)

/-- Whether a node within a mapping of the given indentation is over before this place.  In the
column of the keys only a block of text can still belong to the node, since it is never a key. -/
def isOver (indent : Nat) : List Mark → Bool
  | [] => true
  | m :: _ => m.column < indent || (m.column = indent && !isBlockSign m.char)

/-- A node of a block mapping of the given indentation, where it starts at the first of the marks,
the properties read so far, whether the place is fresh, and how many properties can follow.  The
answer holds the freshness of the place behind the node and what follows. -/
def blockFrom? (hs : Handles) (indent : Nat) :
    (count : Nat) → (fresh : Bool) → Properties → List Mark → Option (Node × Bool × List Mark)
  | count, fresh, p, ms =>
    if isOver indent ms then some (p.emptyNode, fresh, ms)
    else if Properties.starts ms then
      match count with
      | 0 => none
      | count + 1 =>
        match p.next? hs false ms with
        | none => none
        | some (p, rest) =>
          let r := skip false false false rest
          blockFrom? hs indent count r.1 p r.2
    else content? false indent p ms

/-- A node of a block mapping of the given indentation; it may start on a later line. -/
def block? (hs : Handles) (indent : Nat) (fresh : Bool) (ms : List Mark) :
    Option (Node × Bool × List Mark) :=
  let r := skip false fresh false ms
  blockFrom? hs indent 2 r.1 {} r.2

/-- Whether a node between braces is over before this place. -/
def isOverFlow : List Mark → Bool
  | [] => true
  | m :: _ => m.char = ',' || m.char = ':' || m.char = '\x7d'

/-- A node between braces that starts at the first of the marks, and what follows it. -/
def flowFrom? (hs : Handles) :
    (count : Nat) → Properties → List Mark → Option (Node × List Mark)
  | count, p, ms =>
    if isOverFlow ms then some (p.emptyNode, ms)
    else if Properties.starts ms then
      match count with
      | 0 => none
      | count + 1 =>
        match p.next? hs true ms with
        | none => none
        | some (p, rest) => flowFrom? hs count p (skip true false false rest).2
    else (content? true 0 p ms).map fun r => (r.1, r.2.2)

/-- A node between braces, and what follows it. -/
def flow? (hs : Handles) (ms : List Mark) : Option (Node × List Mark) :=
  flowFrom? hs 2 {} (skip true false false ms).2

end Node

end ChainAutomata.Yaml
