/-
Reading TOML documents.

* `parse?` — the entries of a document, absent when the document is malformed, when a key is
  defined twice, or when it holds a value that no setting takes: a number, a date, a list with
  items, or a list of tables.

Design notes: a reader works on the list of the characters that are left and returns what it did
not use.  Lines end in a line feed, with or without a carriage return before it; in a string of
several lines both count as a line feed.  Nesting and the number of lines are bounded by the length
of the text.
-/
import ChainAutomata.Text.Numeral
import ChainAutomata.Toml.Table

namespace ChainAutomata.Toml

/-! ### Spaces, comments and the ends of lines -/

/-- A space within a line. -/
def isGap (c : Char) : Bool := c = ' ' || c = '\t'

def skipGaps (cs : List Char) : List Char := cs.dropWhile isGap

/-- A character that may stand in a comment or, quotes and backslash apart, in a string. -/
def isPlain (c : Char) : Bool :=
  c = '\t' || (0x20 ≤ c.toNat && c.toNat ≤ 0x7E) || 0x80 ≤ c.toNat

/-- What follows a line break at the front. -/
def afterBreak? : List Char → Option (List Char)
  | '\n' :: rest => some rest
  | '\r' :: '\n' :: rest => some rest
  | _ => none

/-- What follows a line break, or nothing at the end of the text. -/
def afterLine? : List Char → Option (List Char)
  | [] => some []
  | cs => afterBreak? cs

/-- What follows the rest of a line that holds nothing but spaces and a comment. -/
def finishLine? (cs : List Char) : Option (List Char) :=
  match skipGaps cs with
  | '#' :: rest => afterLine? (rest.dropWhile isPlain)
  | rest => afterLine? rest

/-- What follows spaces, comments and line breaks; `within` says that a comment is being read. -/
def skipLines (within : Bool) : List Char → List Char
  | [] => []
  | '\n' :: rest => skipLines false rest
  | '\r' :: '\n' :: rest => skipLines false rest
  | c :: rest =>
    if within then if isPlain c then skipLines true rest else c :: rest
    else if isGap c then skipLines false rest
    else if c = '#' then skipLines true rest
    else c :: rest

/-! ### Strings -/

/-- The character of a short escape. -/
def escape? (c : Char) : Option Char :=
  if c = 'b' then some '\x08'
  else if c = 't' then some '\t'
  else if c = 'n' then some '\n'
  else if c = 'f' then some '\x0c'
  else if c = 'r' then some '\r'
  else if c = '"' then some '"'
  else if c = '\\' then some '\\'
  else none

/-- The character with a code written in hexadecimal digits. -/
def charOf? (code : List Char) : Option Char := do
  let values ← code.mapM Text.digitValue?
  let n := values.foldl (fun n v => n * 16 + v) 0
  if n < 0xD800 ∨ (0xDFFF < n ∧ n < 0x110000) then some (Char.ofNat n) else none

/-- Puts a character in front of a string that was read. -/
def push (c : Char) (r : List Char × List Char) : List Char × List Char := (c :: r.1, r.2)

/-- The characters up to a closing single quote, taken literally. -/
def literalBody : List Char → Option (List Char × List Char)
  | [] => none
  | c :: rest =>
    if c = '\'' then some ([], rest)
    else if isPlain c then (literalBody rest).map (push c)
    else none

/-- The characters up to a closing double quote, escapes resolved. -/
def basicBody : List Char → Option (List Char × List Char)
  | [] => none
  | '\\' :: 'u' :: a :: b :: c :: d :: rest =>
    match charOf? [a, b, c, d] with
    | none => none
    | some e => (basicBody rest).map (push e)
  | '\\' :: 'U' :: a :: b :: c :: d :: e :: f :: g :: h :: rest =>
    match charOf? [a, b, c, d, e, f, g, h] with
    | none => none
    | some e => (basicBody rest).map (push e)
  | '\\' :: c :: rest =>
    match escape? c with
    | none => none
    | some e => (basicBody rest).map (push e)
  | c :: rest =>
    if c = '"' then some ([], rest)
    else if isPlain c then (basicBody rest).map (push c)
    else none

/-- The characters of several lines up to three single quotes, taken literally.  One or two more
quotes before the closing ones belong to the text. -/
def literalLines : List Char → Option (List Char × List Char)
  | [] => none
  | '\'' :: '\'' :: '\'' :: '\'' :: '\'' :: rest => some (['\'', '\''], rest)
  | '\'' :: '\'' :: '\'' :: '\'' :: rest => some (['\''], rest)
  | '\'' :: '\'' :: '\'' :: rest => some ([], rest)
  | '\n' :: rest => (literalLines rest).map (push '\n')
  | '\r' :: '\n' :: rest => (literalLines rest).map (push '\n')
  | c :: rest => if isPlain c then (literalLines rest).map (push c) else none

/-- The characters of several lines up to three double quotes, escapes resolved.  A backslash at
the end of a line joins it to the next text: `joining` says that spaces and line breaks are being
dropped. -/
def basicLines (joining : Bool) : List Char → Option (List Char × List Char)
  | [] => none
  | '\n' :: rest =>
    if joining then basicLines true rest else (basicLines false rest).map (push '\n')
  | '\r' :: '\n' :: rest =>
    if joining then basicLines true rest else (basicLines false rest).map (push '\n')
  | '"' :: '"' :: '"' :: '"' :: '"' :: rest => some (['"', '"'], rest)
  | '"' :: '"' :: '"' :: '"' :: rest => some (['"'], rest)
  | '"' :: '"' :: '"' :: rest => some ([], rest)
  | '\\' :: 'u' :: a :: b :: c :: d :: rest =>
    match charOf? [a, b, c, d] with
    | none => none
    | some e => (basicLines false rest).map (push e)
  | '\\' :: 'U' :: a :: b :: c :: d :: e :: f :: g :: h :: rest =>
    match charOf? [a, b, c, d, e, f, g, h] with
    | none => none
    | some e => (basicLines false rest).map (push e)
  | '\\' :: c :: rest =>
    match escape? c with
    | some e => (basicLines false rest).map (push e)
    | none =>
      if (afterBreak? (skipGaps (c :: rest))).isSome then basicLines true (c :: rest) else none
  | c :: rest =>
    if joining && isGap c then basicLines true rest
    else if isPlain c then (basicLines false rest).map (push c)
    else none

/-- The text without the line break that may follow an opening delimiter. -/
def dropBreak (cs : List Char) : List Char := (afterBreak? cs).getD cs

/-- A string on one line and what follows it. -/
def shortString? : List Char → Option (List Char × List Char)
  | '"' :: rest => basicBody rest
  | '\'' :: rest => literalBody rest
  | _ => none

/-- A string of either kind and what follows it. -/
def string? : List Char → Option (List Char × List Char)
  | '"' :: '"' :: '"' :: rest => basicLines false (dropBreak rest)
  | '\'' :: '\'' :: '\'' :: rest => literalLines (dropBreak rest)
  | cs => shortString? cs

/-! ### Keys -/

/-- A character of a key without quotes. -/
def isBare (c : Char) : Bool := c.isAlphanum || c = '-' || c = '_'

/-- One part of a key and what follows it. -/
def keyPart? (cs : List Char) : Option (String × List Char) :=
  match cs with
  | '"' :: _ => (shortString? cs).map fun r => (String.ofList r.1, r.2)
  | '\'' :: _ => (shortString? cs).map fun r => (String.ofList r.1, r.2)
  | _ =>
    let name := cs.takeWhile isBare
    if name.isEmpty then none else some (String.ofList name, cs.dropWhile isBare)

/-- The parts of a dotted key, all but the last and the last, and what follows the key. -/
def key? : (count : Nat) → List Char → Option (List String × String × List Char)
  | 0, _ => none
  | n + 1, cs =>
    match keyPart? cs with
    | none => none
    | some (part, rest) =>
      match skipGaps rest with
      | '.' :: rest => (key? n (skipGaps rest)).map fun r => (part :: r.1, r.2)
      | _ => some ([], part, rest)

/-! ### Values -/

mutual

/-- A value and what follows it. -/
def value? : (depth : Nat) → List Char → Option (Value × List Char)
  | 0, _ => none
  | n + 1, cs =>
    match cs with
    | 't' :: 'r' :: 'u' :: 'e' :: rest => some (.flag true, rest)
    | 'f' :: 'a' :: 'l' :: 's' :: 'e' :: rest => some (.flag false, rest)
    | '[' :: rest =>
      match skipLines false rest with
      | ']' :: rest => some (.emptyList, rest)
      | _ => none
    | '\x7b' :: rest =>
      match skipGaps rest with
      | '\x7d' :: rest => some (.table .inline [], rest)
      | rest => (inline? n [] rest).map fun r => (.table .inline r.1, r.2)
    | _ => (string? cs).map fun r => (.text (String.ofList r.1), r.2)

/-- The entries of a table between braces from a key on, added to those before, and what follows
the closing brace. -/
def inline? : (depth : Nat) → Entries → List Char → Option (Entries × List Char)
  | 0, _, _ => none
  | n + 1, before, cs =>
    match assignment? n cs with
    | none => none
    | some (dots, key, v, rest) =>
      match before.add? dots key v with
      | none => none
      | some es =>
        match skipGaps rest with
        | ',' :: rest => inline? n es (skipGaps rest)
        | '\x7d' :: rest => some (es, rest)
        | _ => none

/-- A key, its value and what follows. -/
def assignment? : (depth : Nat) → List Char →
    Option (List String × String × Value × List Char)
  | 0, _ => none
  | n + 1, cs =>
    match key? cs.length cs with
    | none => none
    | some (dots, key, rest) =>
      match skipGaps rest with
      | '=' :: rest => (value? n (skipGaps rest)).map fun r => (dots, key, r)
      | _ => none

end

/-! ### Documents -/

/-- What was read of a document: its entries, and the path of the table that was opened last. -/
structure Progress where
  entries : Entries := []
  path : List String := []

/-- The header of a table, after its opening bracket, and what follows its line. -/
def header? (p : Progress) (cs : List Char) : Option (Progress × List Char) := do
  let (path, key, rest) ← key? cs.length (skipGaps cs)
  match skipGaps rest with
  | ']' :: rest =>
    let rest ← finishLine? rest
    let entries ← p.entries.open? path key
    some ({ entries, path := path ++ [key] }, rest)
  | _ => none

/-- An assignment and what follows its line. -/
def entry? (p : Progress) (cs : List Char) : Option (Progress × List Char) := do
  let (dots, key, v, rest) ← assignment? (cs.length + 1) cs
  let rest ← finishLine? rest
  let entries ← p.entries.assign? p.path dots key v
  some ({ p with entries }, rest)

/-- The lines of a document. -/
def lines? : (count : Nat) → Progress → List Char → Option Entries
  | 0, _, _ => none
  | n + 1, p, cs =>
    match skipGaps cs with
    | [] => some p.entries
    | '[' :: rest =>
      match header? p rest with
      | none => none
      | some (p, rest) => lines? n p rest
    | c :: rest =>
      if c = '#' ∨ c = '\n' ∨ c = '\r' then
        match finishLine? (c :: rest) with
        | none => none
        | some rest => lines? n p rest
      else
        match entry? p (c :: rest) with
        | none => none
        | some (p, rest) => lines? n p rest

/-- The entries of a document; a byte order mark at its start is skipped. -/
def parse? (s : String) : Option Entries :=
  let cs := match s.toList with
    | '\uFEFF' :: rest => rest
    | cs => cs
  lines? (cs.length + 1) {} cs

end ChainAutomata.Toml
