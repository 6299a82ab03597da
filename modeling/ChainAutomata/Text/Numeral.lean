/-
Numerals: a natural number written in a base, and the value of a digit.

* `digits` — the digits of a number in a base, most significant first, lower case past nine;
* `digitValue?` — the value of a digit character, either case.

The base is a parameter because decimal numbers and hexadecimal code points share the rule.
-/

namespace ChainAutomata.Text

/-- The digit character of a value below sixteen. -/
def digitChar (d : Nat) : Char :=
  if d < 10 then Char.ofNat (48 + d) else Char.ofNat (87 + d)

/-- The value of a digit character up to `f`, in either case. -/
def digitValue? (c : Char) : Option Nat :=
  let n := c.toNat
  if 48 ≤ n ∧ n ≤ 57 then some (n - 48)
  else if 97 ≤ n ∧ n ≤ 102 then some (n - 87)
  else if 65 ≤ n ∧ n ≤ 70 then some (n - 55)
  else none

/-- The digits of `n` in `base`, most significant first; a base below two yields one digit. -/
def digits (base n : Nat) : List Char :=
  if _h : n < base ∨ base < 2 then [digitChar n]
  else digits base (n / base) ++ [digitChar (n % base)]
termination_by n
decreasing_by
  have hb : 1 < base := by omega
  exact Nat.div_lt_self (by omega) hb

theorem digits_of_lt {base n : Nat} (h : n < base) : digits base n = [digitChar n] := by
  rw [digits, dif_pos (Or.inl h)]

theorem digits_ne_nil (base n : Nat) : digits base n ≠ [] := by
  rw [digits]
  split <;> simp

/-- The decimal text of a number. -/
def decimal (n : Nat) : String := String.ofList (digits 10 n)

/-- The decimal text of an integer: a minus sign goes before the digits of a negative one. -/
def signedDecimal (n : Int) : String :=
  if n < 0 then "-" ++ decimal n.natAbs else decimal n.natAbs

end ChainAutomata.Text
