/-
Shortest decimals: the fewest digits that read back as a given binary floating point number.

A positive number `m · 2 ^ q` owns the interval of reals that round to it, its ends included when
`m` is even.  For one, two, … seventeen digits in turn, the two neighbours of the number on the grid
of decimals with so many digits are tried; the first that lies in the interval is the answer, the
nearer one if both do, the even one if both are equally near.

* `Binary.ofBits` — the parts of a double;
* `shortest` — the digits and the exponent of the shortest decimal;
* `render` — the text: positional while the leading digit stands between 10 ^ -5 and 10 ^ 15, with
  a signed exponent otherwise.
-/
import ChainAutomata.Text.Numeral

namespace ChainAutomata.Decimal

/-- A positive number `significand · 2 ^ exponent`; on a binade's first number the gap to the number
below is half the gap to the number above. -/
structure Binary where
  significand : Nat
  exponent : Int
  firstOfBinade : Bool

/-- The magnitude of a finite double from its bits. -/
def Binary.ofBits (bits : Nat) : Binary :=
  let fraction : Nat := bits % Nat.pow 2 52
  let biased : Nat := bits / Nat.pow 2 52 % Nat.pow 2 11
  if biased = 0 then ⟨fraction, -1074, false⟩
  else ⟨fraction + Nat.pow 2 52, (biased : Int) - 1075, fraction = 0 && 1 < biased⟩

/-- A decimal `digits · 10 ^ exponent`. -/
structure Scientific where
  digits : Nat
  exponent : Int

/-- Numerators, over one denominator, of a number and of the ends of its interval. -/
structure Interval where
  low : Nat
  value : Nat
  high : Nat
  denominator : Nat
  /-- Whether the ends round to the number. -/
  closed : Bool

/-- The interval of the reals that round to a number. -/
def Binary.interval (b : Binary) : Interval :=
  let q := b.exponent - 2
  let scale := Nat.pow 2 q.toNat
  let value := 4 * b.significand
  ⟨(value - if b.firstOfBinade then 1 else 2) * scale, value * scale, (value + 2) * scale,
    Nat.pow 2 (-q).toNat, b.significand % 2 = 0⟩

namespace Interval

/-- Numerator and denominator of the number over `10 ^ exponent`. -/
def scaled (i : Interval) (numerator : Nat) (exponent : Int) : Nat × Nat :=
  (numerator * Nat.pow 10 (-exponent).toNat, i.denominator * Nat.pow 10 exponent.toNat)

/-- Whether `digits · 10 ^ exponent` rounds to the number. -/
def holds (i : Interval) (digits : Nat) (exponent : Int) : Bool :=
  let low := i.scaled i.low exponent
  let high := i.scaled i.high exponent
  if i.closed then low.1 ≤ digits * low.2 && digits * high.2 ≤ high.1
  else low.1 < digits * low.2 && digits * high.2 < high.1

/-- The exponent of the leading digit. -/
def leading (i : Interval) : Int :=
  ((Text.digits 10 (i.value * Nat.pow 10 340 / i.denominator)).length : Int) - 341

/-- The neighbour of the number on the grid `10 ^ exponent` that rounds to it, if one does. -/
def neighbour? (i : Interval) (exponent : Int) : Option Nat :=
  let v := i.scaled i.value exponent
  let below := v.1 / v.2
  let double := 2 * (v.1 % v.2)
  let nearer := if double < v.2 then below
    else if double = v.2 then below + below % 2
    else below + 1
  let farther := if nearer = below then below + 1 else below
  if i.holds nearer exponent then some nearer
  else if i.holds farther exponent then some farther
  else none

/-- Tries more and more digits. -/
def search (i : Interval) : (attempts : Nat) → (exponent : Int) → Scientific
  | 0, exponent => ⟨(i.scaled i.value exponent).1 / (i.scaled i.value exponent).2, exponent⟩
  | n + 1, exponent =>
    match i.neighbour? exponent with
    | some digits => ⟨digits, exponent⟩
    | none => search i n (exponent - 1)

end Interval

/-- The shortest decimal that reads back as a positive number. -/
def shortest (b : Binary) : Scientific :=
  let i := b.interval
  i.search 17 i.leading

/-- Drops zeros from the end of the digits. -/
def dropZeros : List Char → Nat × List Char
  | [] => (0, [])
  | c :: cs =>
    let rest := dropZeros cs
    if rest.2.isEmpty && c = '0' then (rest.1 + 1, []) else (rest.1, c :: rest.2)

/-- Digits with a point `place` digits from the left. -/
def layout (digits : List Char) (place : Int) : List Char :=
  let zeros := fun n : Nat => List.replicate n '0'
  let length : Int := digits.length
  if length ≤ place ∧ place ≤ 16 then
    digits ++ zeros (place - length).toNat ++ ['.', '0']
  else if 0 < place ∧ place ≤ 16 then
    digits.take place.toNat ++ ['.'] ++ digits.drop place.toNat
  else if -5 < place ∧ place ≤ 0 then
    ['0', '.'] ++ zeros (-place).toNat ++ digits
  else
    let tail := if length = 1 then [] else '.' :: digits.drop 1
    let sign := if place < 1 then [] else ['+']
    digits.take 1 ++ tail ++ ['e'] ++ sign ++ (Text.signedDecimal (place - 1)).toList

/-- The text of a finite double. -/
def render (x : Float) : String :=
  let bits := x.toBits.toNat
  let sign := if bits / Nat.pow 2 63 = 1 then ['-'] else []
  let b := Binary.ofBits bits
  if b.significand = 0 then String.ofList (sign ++ ['0', '.', '0'])
  else
    let s := shortest b
    let stripped := dropZeros (Text.digits 10 s.digits)
    String.ofList (sign ++ layout stripped.2 (stripped.2.length + stripped.1 + s.exponent))

end ChainAutomata.Decimal
