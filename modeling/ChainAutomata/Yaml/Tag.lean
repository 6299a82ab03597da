/-
YAML names: anchors, tags and the directives in front of a document.

A tag is written in full between angle brackets, or as a handle and a suffix; a handle stands for
the start of a tag.  Two handles are known everywhere, and a directive can define more or change
those.

* `anchor?` — a name after `&` or `*`;
* `tag?` — a tag as it is written;
* `Handles.resolve?` — the tag that is meant;
* `Tag.text?` — its text, absent when some of it encodes no character;
* `directives?` — the directives in front of a document.

Design notes: octets of a tag may be written by number.  Those that encode no character (a form
longer than needed, a surrogate, a number past the last character) make a tag that nobody can name,
which is no error; the octet zero ends the part of the tag in which it stands.
-/
import ChainAutomata.Text.Numeral
import ChainAutomata.Yaml.Mark

namespace ChainAutomata.Yaml

/-- A character of an anchor or of a handle. -/
def isWord (m : Mark) : Bool := m.char.isAlphanum || m.char = '-' || m.char = '_'

/-- The text of marks. -/
def textOf (ms : List Mark) : String := String.ofList (ms.map Mark.char)

/-- The name of an anchor or alias, after its sign, and what follows it. -/
def anchor? (ms : List Mark) : Option (String × List Mark) :=
  let name := ms.takeWhile isWord
  let rest := ms.dropWhile isWord
  let ended := endsWord rest || match rest with
    | m :: _ => ['?', ':', ',', ']', '\x7d', '%', '@', '\x60'].contains m.char
    | [] => true
  if name.isEmpty || !ended then none else some (textOf name, rest)

/-! ### Tags as written -/

/-- Whether a character may stand in a tag; commas and brackets only in one written in full or in a
directive. -/
def isTagChar (full : Bool) (c : Char) : Bool :=
  c.isAlphanum
    || ['-', '_', ';', '/', '?', ':', '@', '&', '=', '+', '$', '.', '!', '~', '*', '\'', '(', ')',
        '%'].contains c
    || (full && [',', '[', ']'].contains c)

/-- The number of further octets that an octet announces. -/
def further? (octet : Nat) : Option Nat :=
  if octet < 0x80 then some 0
  else if 0xC0 ≤ octet ∧ octet < 0xE0 then some 1
  else if 0xE0 ≤ octet ∧ octet < 0xF0 then some 2
  else if 0xF0 ≤ octet ∧ octet < 0xF8 then some 3
  else none

/-- The number of further octets that a character needs. -/
def furtherOf (code : Nat) : Nat :=
  if code < 0x80 then 0 else if code < 0x800 then 1 else if code < 0x10000 then 2 else 3

/-- The character of a number that was written with so many further octets, which must be as few as
it needs. -/
def encoded? (further code : Nat) : Option Char :=
  if code.isValidChar ∧ furtherOf code = further then some (Char.ofNat code) else none

/-- The characters of a tag or of a part of it, absent where octets encode none. -/
abbrev Tag := List (Option Char)

/-- The text of a tag. -/
def Tag.text? (t : Tag) : Option String := (t.mapM id).map String.ofList

/-- The characters of a part of a tag, in which octets may be written by a percent sign and two
hexadecimal digits.  `further` is the number of further octets that a first one announced,
`pending` the number of those still to come, and `code` the number of the character so far. -/
def unescape? : (further pending code : Nat) → List Mark → Option Tag
  | _, 0, _, [] => some []
  | _, _ + 1, _, [] => none
  | _, 0, _, ⟨'%', _, _⟩ :: a :: b :: ms => do
    let octet := (← Text.digitValue? a.char) * 16 + (← Text.digitValue? b.char)
    match ← further? octet with
    | 0 => return encoded? 0 octet :: (← unescape? 0 0 0 ms)
    | n + 1 => unescape? (n + 1) (n + 1) (octet % Nat.pow 2 (5 - n)) ms
  | further, pending + 1, code, ⟨'%', _, _⟩ :: a :: b :: ms => do
    let octet := (← Text.digitValue? a.char) * 16 + (← Text.digitValue? b.char)
    if octet / 64 ≠ 2 then none
    else
      let code := code * 64 + octet % 64
      if pending = 0 then return encoded? further code :: (← unescape? 0 0 0 ms)
      else unescape? further pending code ms
  | _, 0, _, m :: ms => if m.char = '%' then none else (unescape? 0 0 0 ms).map (some m.char :: ·)
  | _, _ + 1, _, _ :: _ => none

/-- Whether a part of a tag starts here. -/
def startsPart (full : Bool) : List Mark → Bool
  | [] => false
  | m :: _ => isTagChar full m.char

/-- A part of a tag, up to an octet zero, and what follows it. -/
def tagPart? (full : Bool) (ms : List Mark) : Option (Tag × List Mark) :=
  (unescape? 0 0 0 (ms.takeWhile fun m => isTagChar full m.char)).map fun part =>
    (part.takeWhile (· ≠ some '\x00'), ms.dropWhile fun m => isTagChar full m.char)

/-- A tag as it is written: a handle, empty for a tag written in full, and the rest. -/
structure TagName where
  handle : String
  suffix : Tag
  deriving DecidableEq, Repr

/-- A tag after its exclamation mark, and what follows it. -/
def tagName? (ms : List Mark) : Option (TagName × List Mark) :=
  match ms with
  | ⟨'<', _, _⟩ :: ms =>
    match tagPart? true ms with
    | some (suffix, ⟨'>', _, _⟩ :: rest) =>
      if startsPart true ms then some (⟨"", suffix⟩, rest) else none
    | _ => none
  | ms =>
    let word := ms.takeWhile isWord
    match ms.dropWhile isWord with
    | ⟨'!', _, _⟩ :: rest =>
      match tagPart? false rest with
      | some (suffix, after) =>
        if startsPart false rest then some (⟨"!" ++ textOf word ++ "!", suffix⟩, after) else none
      | none => none
    | rest =>
      match tagPart? false rest with
      | some (suffix, rest) =>
        let suffix := word.map (fun m => some m.char) ++ suffix
        some (if suffix.isEmpty then ⟨"", [some '!']⟩ else ⟨"!", suffix⟩, rest)
      | none => none

/-- A tag, which must end where a word ends or, within braces, at a comma. -/
def tag? (flow : Bool) (ms : List Mark) : Option (TagName × List Mark) :=
  match tagName? ms with
  | none => none
  | some (t, rest) =>
    let ended := endsWord rest || match rest with
      | m :: _ => flow && m.char = ','
      | [] => true
    if ended then some (t, rest) else none

/-! ### Handles -/

/-- What handles stand for; the first entry of a handle counts. -/
abbrev Handles := List (String × Tag)

/-- The handles that are known everywhere. -/
def Handles.known : Handles :=
  [("!", [some '!']), ("!!", "tag:yaml.org,2002:".toList.map some)]

/-- The tag that a written tag means; an unknown handle is an error. -/
def Handles.resolve? (hs : Handles) (t : TagName) : Option Tag :=
  if t.handle = "" then some t.suffix
  else (hs.lookup t.handle).map fun start => start ++ t.suffix

/-! ### Directives -/

/-- What the directives in front of a document say. -/
structure Directives where
  versioned : Bool := false
  handles : Handles := []

/-- A number of a version, at most nine digits long, and what follows it. -/
def versionPart? (ms : List Mark) : Option (Nat × List Mark) :=
  let ds := ms.takeWhile fun m => m.char.isDigit
  if ds.isEmpty || 9 < ds.length then none
  else some (ds.foldl (fun n m => n * 10 + (m.char.toNat - 48)) 0,
    ms.dropWhile fun m => m.char.isDigit)

/-- The version directive: the version must be 1.1 or 1.2 and may be given once. -/
def version? (d : Directives) (ms : List Mark) : Option (Directives × List Mark) := do
  let (major, ms) ← versionPart? (ms.dropWhile Mark.isGap)
  match ms with
  | ⟨'.', _, _⟩ :: ms =>
    let (minor, ms) ← versionPart? ms
    if d.versioned ∨ major ≠ 1 ∨ (minor ≠ 1 ∧ minor ≠ 2) then none
    else some ({ d with versioned := true }, ms)
  | _ => none

/-- A directive that defines a handle; each handle may be defined once. -/
def handle? (d : Directives) (ms : List Mark) : Option (Directives × List Mark) :=
  match ms.dropWhile Mark.isGap with
  | ⟨'!', _, _⟩ :: ms =>
    let word := ms.takeWhile isWord
    let handle? : Option (String × List Mark) :=
      match ms.dropWhile isWord with
      | ⟨'!', _, _⟩ :: rest => some ("!" ++ textOf word ++ "!", rest)
      | rest => if word.isEmpty then some ("!", rest) else none
    match handle? with
    | none => none
    | some (handle, rest) =>
      match rest with
      | [] => none
      | m :: _ =>
        if m.isGap then
          let rest := rest.dropWhile Mark.isGap
          match tagPart? true rest with
          | some (start, after) =>
            if !startsPart true rest ∨ !endsWord after ∨ (d.handles.lookup handle).isSome then none
            else some ({ d with handles := d.handles ++ [(handle, start)] }, after)
          | none => none
        else none
  | _ => none

/-- What follows the rest of a line that holds only blanks and a comment. -/
def finishDirective? (ms : List Mark) : Option (List Mark) :=
  match ms.dropWhile Mark.isGap with
  | [] => some []
  | m :: rest =>
    if m.isBreak then some rest
    else if m.char = '#' then some ((rest.dropWhile fun m => !m.isBreak).drop 1)
    else none

/-- A directive after its percent sign, and what follows its line. -/
def directive? (d : Directives) (ms : List Mark) : Option (Directives × List Mark) := do
  let rest := ms.dropWhile isWord
  if !endsWord rest then none
  else
    let (d, rest) ← match textOf (ms.takeWhile isWord) with
      | "YAML" => version? d rest
      | "TAG" => handle? d rest
      | _ => none
    some (d, ← finishDirective? rest)

/-- The directives at the start of a stream, what follows them, and whether its place is fresh.
Any number is read; `count` bounds it by the length of the stream. -/
def directives? : (count : Nat) → (fresh : Bool) → Directives → List Mark →
    Option (Directives × Bool × List Mark)
  | 0, _, _, _ => none
  | n + 1, fresh, d, ms =>
    match skip false fresh false ms with
    | (fresh, m :: rest) =>
      if m.char = '%' ∧ m.column = 0 then
        match directive? d rest with
        | none => none
        | some (d, rest) => directives? n false d rest
      else some (d, fresh, m :: rest)
    | (fresh, []) => some (d, fresh, [])

end ChainAutomata.Yaml
