/-
Reading JSON.

* `Json.parse?` — the value of a text, absent when the text is not JSON;
* `Json.parseWith?` — the same for a given way of reading numbers.

A key that occurs twice in an object keeps its first place and takes its last value.  A number with
neither point nor exponent is an integer if it fits a signed or unsigned word of 64 bits, except
that `-0` is a floating point number; any other number is a floating point number.

Design notes: the reader works on lists of characters and returns what it did not use.  Nesting is
bounded by a count that starts at the length of the text, so it is never the reason for a refusal.
What a number denotes is no matter of its place in a text, so the reader of numbers is a parameter.
-/
import ChainAutomata.Decimal.Scaling
import ChainAutomata.Json

namespace ChainAutomata.Json.Reader

/-- Whether a character may stand between tokens. -/
def isSpace (c : Char) : Bool := c = ' ' || c = '\t' || c = '\n' || c = '\r'

/-- What follows the spaces at the front. -/
def skipSpaces (cs : List Char) : List Char := cs.dropWhile isSpace

/-- The rest of a text that starts with the given word. -/
def after? : (word : List Char) → List Char → Option (List Char)
  | [], cs => some cs
  | w :: ws, c :: cs => if w = c then after? ws cs else none
  | _ :: _, [] => none

/-- The number written by four hexadecimal digits. -/
def unit? (a b c d : Char) : Option Nat := do
  let a ← Text.digitValue? a
  let b ← Text.digitValue? b
  let c ← Text.digitValue? c
  let d ← Text.digitValue? d
  some (((a * 16 + b) * 16 + c) * 16 + d)

/-- The character of a short escape. -/
def shortEscape? (c : Char) : Option Char :=
  if c = '"' ∨ c = '\\' ∨ c = '/' then some c
  else if c = 'b' then some '\x08'
  else if c = 'f' then some '\x0c'
  else if c = 'n' then some '\n'
  else if c = 'r' then some '\r'
  else if c = 't' then some '\t'
  else none

/-- Puts a character in front of a string that was read. -/
def push (c : Char) (r : List Char × List Char) : List Char × List Char := (c :: r.1, r.2)

/-- The characters of a string up to its closing quote, and what follows the quote. -/
def stringBody : List Char → Option (List Char × List Char)
  | [] => none
  | '"' :: rest => some ([], rest)
  | '\\' :: 'u' :: a :: b :: c :: d :: rest =>
    match unit? a b c d with
    | none => none
    | some high =>
      if high < 0xD800 ∨ 0xDFFF < high then
        (stringBody rest).map (push (Char.ofNat high))
      else if high < 0xDC00 then
        match rest with
        | '\\' :: 'u' :: e :: f :: g :: h :: rest =>
          match unit? e f g h with
          | none => none
          | some low =>
            if 0xDC00 ≤ low ∧ low ≤ 0xDFFF then
              (stringBody rest).map
                (push (Char.ofNat (0x10000 + (high - 0xD800) * 0x400 + (low - 0xDC00))))
            else none
        | _ => none
      else none
  | '\\' :: c :: rest =>
    match shortEscape? c with
    | none => none
    | some e => (stringBody rest).map (push e)
  | c :: rest => if c.toNat < 0x20 then none else (stringBody rest).map (push c)

/-- The digits at the front and what follows them. -/
def spanDigits : List Char → List Char × List Char
  | [] => ([], [])
  | c :: cs =>
    if c.isDigit then
      let r := spanDigits cs
      (c :: r.1, r.2)
    else ([], c :: cs)

/-- The value of a digit. -/
def digitOf (c : Char) : Nat := c.toNat - 48

/-- The largest significand that is kept. -/
def largestSignificand : Nat := Nat.pow 2 64 - 1

/-- The significand of the digits before the point, and how many digits were too many for it. -/
def wholePart : (significand : Nat) → List Char → Nat × Nat
  | n, [] => (n, 0)
  | n, c :: cs =>
    if n * 10 + digitOf c ≤ largestSignificand then wholePart (n * 10 + digitOf c) cs
    else (n, cs.length + 1)

/-- The significand after the digits behind the point, and how many digits it took in. -/
def fractionPart : (significand : Nat) → (taken : Nat) → List Char → Nat × Nat
  | n, taken, [] => (n, taken)
  | n, taken, c :: cs =>
    if n * 10 + digitOf c ≤ largestSignificand then
      fractionPart (n * 10 + digitOf c) (taken + 1) cs
    else (n, taken)

/-- The number written by decimal digits. -/
def natOf (ds : List Char) : Nat := ds.foldl (fun n c => n * 10 + digitOf c) 0

/-- The digits of a whole part: a zero stands alone. -/
def whole? (cs : List Char) : Option (List Char × List Char) :=
  match spanDigits cs with
  | ([], _) => none
  | ('0' :: _ :: _, _) => none
  | r => some r

/-- The digits behind a point, if there is one. -/
def fraction? (cs : List Char) : Option (Option (List Char) × List Char) :=
  match cs with
  | '.' :: rest =>
    match spanDigits rest with
    | ([], _) => none
    | (ds, rest) => some (some ds, rest)
  | rest => some (none, rest)

/-- The exponent, if there is one. -/
def exponent? (cs : List Char) : Option (Option Int × List Char) :=
  let signed (negative : Bool) (cs : List Char) : Option (Option Int × List Char) :=
    match spanDigits cs with
    | ([], _) => none
    | (ds, rest) => some (some (if negative then -(natOf ds : Int) else natOf ds), rest)
  match cs with
  | c :: rest =>
    if c = 'e' ∨ c = 'E' then
      match rest with
      | '-' :: rest => signed true rest
      | '+' :: rest => signed false rest
      | rest => signed false rest
    else some (none, c :: rest)
  | [] => some (none, [])

/-- The number that the parts of its text make up. -/
def number? (negative : Bool) (whole : List Char) (fraction : Option (List Char))
    (exponent : Option Int) : Option Json :=
  let w := wholePart 0 whole
  if fraction.isNone ∧ exponent.isNone ∧ w.2 = 0 ∧ ¬ (negative ∧ (w.1 = 0 ∨ Nat.pow 2 63 < w.1)) then
    some (integer (if negative then -(w.1 : Int) else w.1))
  else
    let f := fractionPart w.1 0 (fraction.getD [])
    let e := exponent.getD 0 + w.2 - f.2
    (Decimal.double? f.1 e).map fun x => float (if negative then -x else x)

/-- A number and what follows it. -/
def number (cs : List Char) : Option (Json × List Char) := do
  let (negative, cs) := match cs with
    | '-' :: rest => (true, rest)
    | rest => (false, rest)
  let (whole, cs) ← whole? cs
  let (fraction, cs) ← fraction? cs
  let (exponent, cs) ← exponent? cs
  let n ← number? negative whole fraction exponent
  some (n, cs)

/-- Sets the value of a key: in its place if it is there, at the end otherwise. -/
def put (key : String) (value : Json) : List (String × Json) → List (String × Json)
  | [] => [(key, value)]
  | (k, v) :: rest => if k = key then (k, value) :: rest else (k, v) :: put key value rest

section Values

variable (readNumber : List Char → Option (Json × List Char))

mutual

/-- A value and what follows it; the text starts with no spaces. -/
def value : (depth : Nat) → List Char → Option (Json × List Char)
  | 0, _ => none
  | _ + 1, [] => none
  | n + 1, c :: cs =>
    if c = 'n' then (after? "ull".toList cs).map fun r => (null, r)
    else if c = 't' then (after? "rue".toList cs).map fun r => (bool true, r)
    else if c = 'f' then (after? "alse".toList cs).map fun r => (bool false, r)
    else if c = '"' then (stringBody cs).map fun r => (text (String.ofList r.1), r.2)
    else if c = '[' then
      match skipSpaces cs with
      | ']' :: rest => some (array [], rest)
      | rest => (items n rest).map fun r => (array r.1, r.2)
    else if c = '\x7b' then
      match skipSpaces cs with
      | '\x7d' :: rest => some (object [], rest)
      | rest => (members n [] rest).map fun r => (object r.1, r.2)
    else readNumber (c :: cs)

/-- The items of an array from a value on, and what follows the closing bracket. -/
def items : (depth : Nat) → List Char → Option (List Json × List Char)
  | 0, _ => none
  | n + 1, cs =>
    match value n cs with
    | none => none
    | some (x, rest) =>
      match skipSpaces rest with
      | ',' :: rest => (items n (skipSpaces rest)).map fun r => (x :: r.1, r.2)
      | ']' :: rest => some ([x], rest)
      | _ => none

/-- The members of an object from a key on, added to those before, and what follows the closing
bracket. -/
def members : (depth : Nat) → List (String × Json) → List Char →
    Option (List (String × Json) × List Char)
  | 0, _, _ => none
  | n + 1, before, '"' :: cs =>
    match stringBody cs with
    | none => none
    | some (key, rest) =>
      match skipSpaces rest with
      | ':' :: rest =>
        match value n (skipSpaces rest) with
        | none => none
        | some (x, rest) =>
          match skipSpaces rest with
          | ',' :: rest => members n (put (String.ofList key) x before) (skipSpaces rest)
          | '\x7d' :: rest => some (put (String.ofList key) x before, rest)
          | _ => none
      | _ => none
  | _ + 1, _, _ => none

end

end Values

end Reader

/-- The value of a text that is one JSON value with spaces around it, given how numbers are read. -/
def parseWith? (readNumber : List Char → Option (Json × List Char)) (s : String) : Option Json :=
  let cs := s.toList
  match Reader.value readNumber (cs.length + 1) (Reader.skipSpaces cs) with
  | none => none
  | some (x, rest) => if (Reader.skipSpaces rest).isEmpty then some x else none

/-- The value of a text that is one JSON value with spaces around it. -/
def parse? (s : String) : Option Json := parseWith? Reader.number s

end ChainAutomata.Json
