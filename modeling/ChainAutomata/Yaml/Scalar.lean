/-
YAML scalars: the four ways to write a text.

* `plain?` — without quotes, up to what may not stand in it;
* `quoted?` — between single or double quotes;
* `block?` — as a block of lines, kept or folded.

Over a line break, a plain or quoted text is folded: a single break becomes a space, and of several
the first is dropped.

Design notes: blanks between words are only known to belong to the text once another word follows,
so they are held back as a `Between`.
-/
import ChainAutomata.Text.Numeral
import ChainAutomata.Yaml.Mark

namespace ChainAutomata.Yaml

/-- How a scalar is written. -/
inductive Style where
  | plain
  | quoted
  | literal
  | folded
  deriving DecidableEq, Repr

/-- Blanks held back since the last word. -/
inductive Between where
  /-- Gaps on one line. -/
  | gaps (held : List Char)
  /-- A line break and the breaks of empty lines after it. -/
  | lines (first : Char) (more : List Char)
  /-- An escaped line break and the breaks of empty lines after it. -/
  | joined (more : List Char)
  deriving DecidableEq, Repr

namespace Between

/-- Nothing held back. -/
def none : Between := gaps []

def add (c : Char) : Between → Between
  | gaps held => gaps (held ++ [c])
  | lines first more => lines first more
  | joined more => joined more

def addBreak (c : Char) : Between → Between
  | gaps _ => lines c []
  | lines first more => lines first (more ++ [c])
  | joined more => joined (more ++ [c])

/-- Whether nothing is held back. -/
def isNone : Between → Bool
  | gaps held => held.isEmpty
  | lines _ _ | joined _ => false

/-- Whether a line break is held back. -/
def spansLines : Between → Bool
  | gaps _ => false
  | lines _ _ | joined _ => true

/-- What the blanks contribute to a text that goes on. -/
def folded : Between → List Char
  | gaps held => held
  | joined more => more
  | lines first more =>
    if first = '\n' then if more.isEmpty then [' '] else more else first :: more

end Between

/-! ### Plain scalars -/

/-- The characters that close a plain scalar within braces. -/
def isFlowMark (c : Char) : Bool :=
  c = ',' || c = '[' || c = ']' || c = '\x7b' || c = '\x7d'

/-- Whether a colon within braces stands right before a mark of the flow style. -/
def colonMisplaced : List Mark → Bool
  | [] => false
  | m :: _ => m.char = '?' || isFlowMark m.char

/-- The text of a plain scalar, given what was read of it, with the blanks held back after it and
what follows them.  In a block, the text goes on in lines indented by at least `indent`. -/
def plainText (flow : Bool) (indent : Nat) :
    Between → (text : List Char) → List Mark → Option (List Char × Between × List Mark)
  | between, text, [] => some (text, between, [])
  | between, text, m :: ms =>
    if m.isGap then
      if between.spansLines ∧ m.char = '\t' ∧ m.column < indent then none
      else plainText flow indent (between.add m.char) text ms
    else if m.isBreak then plainText flow indent (between.addBreak m.char) text ms
    else if !between.isNone
        && ((!flow && m.column < indent) || isDivider (m :: ms) || m.char = '#') then
      some (text, between, m :: ms)
    else if flow ∧ m.char = ':' ∧ colonMisplaced ms then none
    else if (m.char = ':' ∧ endsWord ms) ∨ (flow ∧ isFlowMark m.char) then
      some (text, between, m :: ms)
    else plainText flow indent .none (text ++ between.folded ++ [m.char]) ms

/-- The characters that no plain scalar starts with, unless a word goes on after it. -/
def indicators : List Char :=
  ['-', '?', ':', ',', '[', ']', '\x7b', '\x7d', '#', '&', '*', '!', '|', '>', '\'', '"', '%', '@',
   '\x60']

/-- Whether a plain scalar can start here. -/
def startsPlain (flow : Bool) : List Mark → Bool
  | [] => false
  | m :: ms =>
    if indicators.contains m.char then
      (m.char = '-' || (!flow && (m.char = '?' || m.char = ':'))) && !endsWord ms
    else !(m.isGap || m.isBreak)

/-- The text of a plain scalar, whether line breaks follow it, and what comes after those. -/
def plain? (flow : Bool) (indent : Nat) (ms : List Mark) :
    Option (String × Bool × List Mark) :=
  if startsPlain flow ms then
    (plainText flow indent .none [] ms).map fun r => (String.ofList r.1, r.2.1.spansLines, r.2.2)
  else none

/-! ### Quoted scalars -/

/-- The character of an escape with one letter. -/
def escape? (c : Char) : Option Char :=
  match c with
  | '0' => some '\x00'
  | 'a' => some '\x07'
  | 'b' => some '\x08'
  | 't' | '\t' => some '\t'
  | 'n' => some '\n'
  | 'v' => some '\x0b'
  | 'f' => some '\x0c'
  | 'r' => some '\r'
  | 'e' => some '\x1b'
  | ' ' => some ' '
  | '"' => some '"'
  | '/' => some '/'
  | '\\' => some '\\'
  | 'N' => some '\u0085'
  | '_' => some '\u00a0'
  | 'L' => some '\u2028'
  | 'P' => some '\u2029'
  | _ => none

/-- The character with a code written in hexadecimal digits. -/
def charOf? (code : List Mark) : Option Char := do
  let values ← code.mapM fun m => Text.digitValue? m.char
  let n := values.foldl (fun n v => n * 16 + v) 0
  if n < 0xD800 ∨ (0xDFFF < n ∧ n < 0x110000) then some (Char.ofNat n) else none

/-- The characters up to a closing single quote; a quote written twice stands for one. -/
def singleText : Between → (text : List Char) → List Mark → Option (List Char × List Mark)
  | _, _, [] => none
  | between, text, m :: ms =>
    if m.isGap then singleText (between.add m.char) text ms
    else if m.isBreak then singleText (between.addBreak m.char) text ms
    else if isDivider (m :: ms) then none
    else if m.char = '\'' then
      match ms with
      | ⟨'\'', _, _⟩ :: ms => singleText .none (text ++ between.folded ++ ['\'']) ms
      | _ => some (text ++ between.folded, ms)
    else singleText .none (text ++ between.folded ++ [m.char]) ms

/-- The characters up to a closing double quote, escapes resolved. -/
def doubleText : Between → (text : List Char) → List Mark → Option (List Char × List Mark)
  | _, _, [] => none
  | between, text, m :: ms =>
    if m.isGap then doubleText (between.add m.char) text ms
    else if m.isBreak then doubleText (between.addBreak m.char) text ms
    else if isDivider (m :: ms) then none
    else if m.char = '"' then some (text ++ between.folded, ms)
    else if m.char = '\\' then
      let text := text ++ between.folded
      match ms with
      | ⟨'x', _, _⟩ :: a :: b :: ms =>
        match charOf? [a, b] with
        | none => none
        | some c => doubleText .none (text ++ [c]) ms
      | ⟨'u', _, _⟩ :: a :: b :: c :: d :: ms =>
        match charOf? [a, b, c, d] with
        | none => none
        | some c => doubleText .none (text ++ [c]) ms
      | ⟨'U', _, _⟩ :: a :: b :: c :: d :: e :: f :: g :: h :: ms =>
        match charOf? [a, b, c, d, e, f, g, h] with
        | none => none
        | some c => doubleText .none (text ++ [c]) ms
      | n :: ms =>
        if n.isBreak then doubleText (.joined []) text ms
        else
          match escape? n.char with
          | none => none
          | some c => doubleText .none (text ++ [c]) ms
      | [] => none
    else doubleText .none (text ++ between.folded ++ [m.char]) ms

/-- The text of a quoted scalar and what follows its closing quote. -/
def quoted? : List Mark → Option (String × List Mark)
  | ⟨'\'', _, _⟩ :: ms => (singleText .none [] ms).map fun r => (String.ofList r.1, r.2)
  | ⟨'"', _, _⟩ :: ms => (doubleText .none [] ms).map fun r => (String.ofList r.1, r.2)
  | _ => none

/-! ### Block scalars -/

/-- What becomes of the line breaks at the end of a block. -/
inductive Chomping where
  | strip
  | clip
  | keep
  deriving DecidableEq, Repr

/-- The header of a block scalar: its chomping and the indentation it states, zero for none. -/
structure BlockHeader where
  chomping : Chomping := .clip
  increment : Nat := 0

/-- The chomping that a sign asks for. -/
def chomping? (c : Char) : Option Chomping :=
  if c = '+' then some .keep else if c = '-' then some .strip else none

/-- The header of a block scalar and what follows it; an indentation of zero is an error. -/
def blockHeader? (ms : List Mark) : Option (BlockHeader × List Mark) :=
  let digit? (m : Mark) : Option Nat := if m.char.isDigit then some (m.char.toNat - 48) else none
  let sized (h : BlockHeader) (ms : List Mark) : Option (BlockHeader × List Mark) :=
    match ms with
    | [] => some (h, [])
    | m :: rest =>
      match digit? m with
      | none => some (h, m :: rest)
      | some 0 => none
      | some n => some ({ h with increment := n }, rest)
  match ms with
  | [] => some ({}, [])
  | m :: rest =>
    match chomping? m.char with
    | some c => sized { chomping := c } rest
    | none =>
      match sized {} (m :: rest) with
      | none => none
      | some (h, rest) =>
        match rest with
        | [] => some (h, [])
        | m :: after =>
          match chomping? m.char with
          | some c => if h.increment = 0 then some (h, m :: after)
            else some ({ h with chomping := c }, after)
          | none => some (h, m :: after)

/-- What follows the rest of a line that holds only blanks and a comment. -/
def finishLine? (ms : List Mark) : Option (List Mark) :=
  let rest := ms.dropWhile Mark.isGap
  let rest := match rest with
    | ⟨'#', _, _⟩ :: _ => rest.dropWhile fun m : Mark => !m.isBreak
    | _ => rest
  match rest with
  | [] => some []
  | m :: after => if m.isBreak then some after else none

/-- The line breaks at the start of a block whose indentation is not stated, the greatest column
up to the first word, and what follows. -/
def leadingBreaks : (greatest : Nat) → (breaks : List Char) → List Mark →
    Option (Nat × List Char × List Mark)
  | greatest, breaks, [] => some (greatest, breaks, [])
  | greatest, breaks, m :: ms =>
    if m.char = ' ' then leadingBreaks greatest breaks ms
    else if m.char = '\t' then none
    else if m.isBreak then leadingBreaks (max greatest m.column) (breaks ++ [m.char]) ms
    else some (max greatest m.column, breaks, m :: ms)

/-- The progress of reading a block: the text, the break of its last line, the breaks of the empty
lines after that, and whether the last line started with a blank. -/
structure BlockText where
  text : List Char := []
  last : List Char := []
  empty : List Char := []
  startedBlank : Bool := false

/-- The text at the start of another line, which starts with a blank or not. -/
def BlockText.resume (folds : Bool) (t : BlockText) (blank : Bool) : BlockText :=
  let last :=
    if folds && t.last == ['\n'] && !t.startedBlank && !blank then
      if t.empty.isEmpty then [' '] else []
    else t.last
  { text := t.text ++ last ++ t.empty, startedBlank := blank }

/-- The text when the block is over. -/
def BlockText.close (c : Chomping) (t : BlockText) : List Char :=
  match c with
  | .strip => t.text
  | .clip => t.text ++ t.last
  | .keep => t.text ++ t.last ++ t.empty

/-- The lines of a block with a known indentation, and what follows them.  `inLine` says that a
line is being read; otherwise the place is before a line's first word. -/
def blockLines (folds : Bool) (indent : Nat) :
    (inLine : Bool) → BlockText → List Mark → Option (BlockText × List Mark)
  | _, t, [] => some (t, [])
  | true, t, m :: ms =>
    if m.isBreak then blockLines folds indent false { t with last := [m.char] } ms
    else blockLines folds indent true { t with text := t.text ++ [m.char] } ms
  | false, t, m :: ms =>
    if m.column < indent ∧ m.char = ' ' then blockLines folds indent false t ms
    else if m.column < indent ∧ m.char = '\t' then none
    else if m.isBreak then
      blockLines folds indent false { t with empty := t.empty ++ [m.char] } ms
    else if m.column = indent then
      let t := t.resume folds m.isGap
      blockLines folds indent true { t with text := t.text ++ [m.char] } ms
    else some (t, m :: ms)

/-- The style and text of a block scalar and what follows it.  `parent` is the indentation of the
mapping that the block is in. -/
def block? (parent : Nat) (ms : List Mark) : Option (Style × String × List Mark) := do
  let (style, ms) ← match ms with
    | ⟨'|', _, _⟩ :: ms => some (Style.literal, ms)
    | ⟨'>', _, _⟩ :: ms => some (Style.folded, ms)
    | _ => none
  let (header, ms) ← blockHeader? ms
  let ms ← finishLine? ms
  let (indent, breaks, ms) ←
    if header.increment = 0 then do
      let (greatest, breaks, ms) ← leadingBreaks 0 [] ms
      some (max greatest (parent + 1), breaks, ms)
    else some (parent + header.increment, [], ms)
  let (t, ms) ← blockLines (style = .folded) indent false { empty := breaks } ms
  some (style, String.ofList (t.close header.chomping), ms)

end ChainAutomata.Yaml
