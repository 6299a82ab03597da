/-
Blank text: the characters of the Unicode property `White_Space`, and the strings made of nothing
else.

Main statement: `isBlank_eq_true_iff`, a string is blank when each of its characters is white
space; the empty string is.
-/

namespace ChainAutomata.Text

/-- Code points with the property `White_Space`. -/
def whiteSpace : List Nat :=
  [0x09, 0x0A, 0x0B, 0x0C, 0x0D, 0x20, 0x85, 0xA0, 0x1680, 0x2000, 0x2001, 0x2002, 0x2003, 0x2004,
   0x2005, 0x2006, 0x2007, 0x2008, 0x2009, 0x200A, 0x2028, 0x2029, 0x202F, 0x205F, 0x3000]

/-- Whether the character is white space. -/
def isWhiteSpace (c : Char) : Bool := whiteSpace.contains c.toNat

/-- Whether the string holds white space only. -/
def isBlank (s : String) : Bool := s.toList.all isWhiteSpace

theorem isBlank_eq_true_iff {s : String} :
    isBlank s = true ↔ ∀ c ∈ s.toList, c.toNat ∈ whiteSpace := by
  simp [isBlank, isWhiteSpace]

end ChainAutomata.Text
