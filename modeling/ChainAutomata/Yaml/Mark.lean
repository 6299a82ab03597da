/-
Marked text: the characters of a YAML stream with their places.

YAML gives meaning to lines and columns, so a text is first turned into a list of marks, each a
character with the line and the column in which it stands; everything after that is recursion on
lists of marks.  A carriage return, with or without a line feed after it, and the next line control
become line feeds; the two Unicode separators break lines as well but stay what they are.

* `marks?` — the marks of a text, absent when it holds a character that YAML does not allow;
* `skip` — what follows spaces, comments and line breaks;
* `isDivider` — whether three hyphens or three points mark the start or the end of a document.
-/

namespace ChainAutomata.Yaml

/-- A character and its place. -/
structure Mark where
  char : Char
  line : Nat
  column : Nat
  deriving DecidableEq, Repr

namespace Mark

/-- A space or a tab. -/
def isGap (m : Mark) : Bool := m.char = ' ' || m.char = '\t'

/-- A byte order mark in the first column: it is no part of what its line says, but what follows
it stands in the second column. -/
def isByteOrder (m : Mark) : Bool := m.char = '\uFEFF' && m.column = 0

/-- The end of a line. -/
def isBreak (m : Mark) : Bool :=
  m.char = '\n' || m.char = '\u2028' || m.char = '\u2029'

end Mark

/-- Whether a character may occur in a stream at all. -/
def isAllowed (c : Char) : Bool :=
  let n := c.toNat
  n = 0x09 || n = 0x0A || n = 0x0D || (0x20 ≤ n && n ≤ 0x7E) || n = 0x85
    || (0xA0 ≤ n && n ≤ 0xD7FF) || (0xE000 ≤ n && n ≤ 0xFFFD) || 0x10000 ≤ n

/-- The marks of characters that start at a place. -/
def marksFrom (line column : Nat) : List Char → List Mark
  | [] => []
  | '\r' :: '\n' :: rest => ⟨'\n', line, column⟩ :: marksFrom (line + 1) 0 rest
  | c :: rest =>
    let m : Mark := ⟨if c = '\r' ∨ c = '\u0085' then '\n' else c, line, column⟩
    m :: if m.isBreak then marksFrom (line + 1) 0 rest else marksFrom line (column + 1) rest

/-- The marks of a text. -/
def marks? (s : String) : Option (List Mark) :=
  if s.toList.all isAllowed then some (marksFrom 0 0 s.toList) else none

/-- Whether a word ends here: at a gap, at a line break, or at the end of the text. -/
def endsWord : List Mark → Bool
  | [] => true
  | m :: _ => m.isGap || m.isBreak

/-- Whether a token starts with this character and ends with it. -/
def isLone (c : Char) : List Mark → Bool
  | [] => false
  | m :: ms => m.char = c && endsWord ms

/-- Whether three of the character stand alone at the start of a line. -/
def isTriple (c : Char) : List Mark → Bool
  | a :: b :: d :: rest =>
    a.column = 0 && a.char = c && b.char = c && d.char = c && endsWord rest
  | _ => false

/-- Whether a document starts or ends here. -/
def isDivider (ms : List Mark) : Bool := isTriple '-' ms || isTriple '.' ms

/-- What follows spaces, comments, line breaks and byte order marks.  A tab is no space at the place where a block
key may start: `fresh` says that this is such a place, which every line of a block begins with;
`comment` says that a comment is being read.  The answer tells whether its place is fresh. -/
def skip (flow : Bool) : (fresh comment : Bool) → List Mark → Bool × List Mark
  | fresh, _, [] => (fresh, [])
  | fresh, comment, m :: ms =>
    if m.isBreak then skip flow (fresh || !flow) false ms
    else if comment then skip flow fresh true ms
    else if m.isByteOrder ∨ m.char = ' ' ∨ (m.char = '\t' ∧ (flow ∨ ¬ fresh)) then
      skip flow fresh false ms
    else if m.char = '#' then skip flow fresh true ms
    else (fresh, m :: ms)

end ChainAutomata.Yaml
