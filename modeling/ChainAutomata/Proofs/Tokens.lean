/-
The tokens of JSON texts.

The text of a string or a number is read back.  A string ends with a quote, so what comes behind it
does not matter.  A number ends where its digits do, so no digit may come behind it.

* `Text.digits_induction` — decimal digits by their last one;
* `Reader.stringBody_escaped` — a character is read back from its written form;
* `Reader.stringBody_quoted` — a string is read back from its written form;
* `Reader.Keeps` — a reader of numbers gives back the numbers of a kind;
* `Reader.keeps_number` — those that a word can hold are given back;
* `Reader.keeps_wholeNumber` — all of them are by a reader that knows no bound.
-/
import ChainAutomata.Json.Reader
import Mathlib.Data.List.Basic

namespace ChainAutomata

/-! ### Digits -/

namespace Text

/-- Decimal digits are one digit, or those of a positive number and one more. -/
theorem digits_induction {motive : Nat → List Char → Prop}
    (digit : ∀ d < 10, motive d [digitChar d])
    (snoc : ∀ n d, 0 < n → d < 10 → motive n (digits 10 n) →
      motive (n * 10 + d) (digits 10 n ++ [digitChar d]))
    (n : Nat) : motive n (digits 10 n) := by
  induction n using Nat.strongRecOn with
  | ind n ih =>
    rcases Nat.lt_or_ge n 10 with h | h
    · rw [digits_of_lt h]
      exact digit n h
    · have hlast : n % 10 < 10 := Nat.mod_lt n (by omega)
      have hstep := snoc (n / 10) (n % 10) (by omega) hlast (ih (n / 10) (by omega))
      rw [Nat.div_add_mod'] at hstep
      rwa [digits, dif_neg (by omega)]

theorem isDigit_digitChar : ∀ d < 10, (digitChar d).isDigit = true := by decide

theorem digitChar_ne_zero : ∀ d < 10, 0 < d → digitChar d ≠ '0' := by decide

theorem digitValue?_digitChar : ∀ d < 16, digitValue? (digitChar d) = some d := by decide

theorem isDigit_of_mem_digits (n : Nat) : ∀ c ∈ digits 10 n, c.isDigit = true := by
  refine digits_induction (motive := fun _ ds => ∀ c ∈ ds, c.isDigit = true) ?_ ?_ n
  · intro d hd c hc
    exact List.mem_singleton.mp hc ▸ isDigit_digitChar d hd
  · intro n d _ hd ih c hc
    rcases List.mem_append.mp hc with hc | hc
    · exact ih c hc
    · exact List.mem_singleton.mp hc ▸ isDigit_digitChar d hd

theorem exists_digits_eq_cons (n : Nat) : ∃ d ds, digits 10 n = d :: ds ∧ d ≠ '-' := by
  cases hds : digits 10 n with
  | nil => exact absurd hds (digits_ne_nil 10 n)
  | cons d ds =>
    refine ⟨d, ds, rfl, ?_⟩
    rintro rfl
    exact absurd (isDigit_of_mem_digits n '-' (hds ▸ List.mem_cons_self)) (by decide)

/-- Only the number zero is written with a zero in front. -/
theorem head?_digits_ne_zero {n : Nat} : 0 < n → (digits 10 n).head? ≠ some '0' := by
  refine digits_induction (motive := fun n ds => 0 < n → ds.head? ≠ some '0') ?_ ?_ n
  · intro d hd hpos
    rw [List.head?_cons, ne_eq, Option.some_inj]
    exact digitChar_ne_zero d hd hpos
  · intro n d hn _ ih _
    rw [List.head?_append_of_ne_nil _ (digits_ne_nil 10 n)]
    exact ih hn

end Text

namespace Json

open Text

namespace Reader

/-! ### Strings -/

/-- A character is written by a short escape, by its code point, or as itself. -/
theorem escaped_cases (c : Char) :
    (∃ d, d ≠ 'u' ∧ shortEscape? d = some c ∧ escaped c = ['\\', d]) ∨
    (c.toNat < 0x20 ∧
      escaped c = ['\\', 'u', '0', '0', digitChar (c.toNat / 16), digitChar (c.toNat % 16)]) ∨
    (c ≠ '"' ∧ c ≠ '\\' ∧ ¬ c.toNat < 0x20 ∧ escaped c = [c]) := by
  have hshort : ∀ d e, d ≠ 'u' → shortEscape? d = some e → escaped e = ['\\', d] → c = e →
      ∃ d, d ≠ 'u' ∧ shortEscape? d = some c ∧ escaped c = ['\\', d] := by
    rintro d e hd he hescaped rfl
    exact ⟨d, hd, he, hescaped⟩
  -- the tests of the writer in turn: seven short escapes, and then the controls that are left
  by_cases hquote : c = '"'
  · exact Or.inl (hshort '"' '"' (by decide) rfl rfl hquote)
  by_cases hbackslash : c = '\\'
  · exact Or.inl (hshort '\\' '\\' (by decide) rfl rfl hbackslash)
  by_cases hbackspace : c = '\x08'
  · exact Or.inl (hshort 'b' '\x08' (by decide) rfl rfl hbackspace)
  by_cases hfeed : c = '\x0c'
  · exact Or.inl (hshort 'f' '\x0c' (by decide) rfl rfl hfeed)
  by_cases hline : c = '\n'
  · exact Or.inl (hshort 'n' '\n' (by decide) rfl rfl hline)
  by_cases hreturn : c = '\r'
  · exact Or.inl (hshort 'r' '\r' (by decide) rfl rfl hreturn)
  by_cases htab : c = '\t'
  · exact Or.inl (hshort 't' '\t' (by decide) rfl rfl htab)
  rw [escaped, if_neg hquote, if_neg hbackslash, if_neg hbackspace, if_neg hfeed, if_neg hline,
    if_neg hreturn, if_neg htab]
  by_cases hcontrol : c.toNat < 0x20
  · exact Or.inr (Or.inl ⟨hcontrol, if_pos hcontrol⟩)
  · exact Or.inr (Or.inr ⟨hquote, hbackslash, hcontrol, if_neg hcontrol⟩)

theorem unit?_of_control {n : Nat} (h : n < 0x20) :
    unit? '0' '0' (digitChar (n / 16)) (digitChar (n % 16)) = some n := by
  have hzero : digitValue? '0' = some 0 := by decide
  rw [unit?, hzero, digitValue?_digitChar _ (by omega), digitValue?_digitChar _ (by omega)]
  show some ((0 * 16 + n / 16) * 16 + n % 16) = some n
  rw [Option.some_inj]
  omega

theorem stringBody_of_short {c e : Char} (hc : c ≠ 'u') (h : shortEscape? c = some e)
    (rest : List Char) : stringBody ('\\' :: c :: rest) = (stringBody rest).map (push e) := by
  rw [stringBody, h]
  exact fun _ _ _ _ _ hu _ => hc hu

theorem stringBody_of_plain {c : Char} (hquote : c ≠ '"') (hbackslash : c ≠ '\\')
    (hcontrol : ¬ c.toNat < 0x20) (rest : List Char) :
    stringBody (c :: rest) = (stringBody rest).map (push c) := by
  rw [stringBody, if_neg hcontrol]
  -- what is left are the rows before this one: a closing quote and the two kinds of escapes
  · exact hquote
  · exact fun _ _ _ _ _ h _ => hbackslash h
  · exact fun _ _ h _ => hbackslash h

/-- A character is read back from its written form. -/
theorem stringBody_escaped (c : Char) (rest : List Char) :
    stringBody (escaped c ++ rest) = (stringBody rest).map (push c) := by
  rcases escaped_cases c with ⟨d, hd, hshort, h⟩ | ⟨hcontrol, h⟩ | ⟨hquote, hslash, hcontrol, h⟩
  · rw [h]
    exact stringBody_of_short hd hshort rest
  · rw [h]
    simp only [List.cons_append, List.nil_append]
    rw [stringBody, unit?_of_control hcontrol]
    simp only
    rw [if_pos (Or.inl (by omega)), Char.ofNat_toNat]
  · rw [h]
    exact stringBody_of_plain hquote hslash hcontrol rest

theorem stringBody_flatMap_escaped (cs rest : List Char) :
    stringBody (cs.flatMap escaped ++ '"' :: rest) = some (cs, rest) := by
  induction cs with
  | nil => rw [List.flatMap_nil, List.nil_append, stringBody]
  | cons c cs ih =>
    rw [List.flatMap_cons, List.append_assoc, stringBody_escaped, ih]
    rfl

/-- A string is read back from its written form. -/
theorem stringBody_quoted (s : String) (rest : List Char) :
    ∃ cs, quoted s ++ rest = '"' :: cs ∧ stringBody cs = some (s.toList, rest) := by
  refine ⟨s.toList.flatMap escaped ++ '"' :: rest, ?_, stringBody_flatMap_escaped _ _⟩
  rw [quoted, List.cons_append, List.append_assoc, List.singleton_append]

/-! ### Numbers -/

/-- What can come behind a value: nothing, a comma or a line break. -/
def Delimited (rest : List Char) : Prop := ∀ c ∈ rest.head?, c = ',' ∨ c = '\n'

theorem spanDigits_append {ds rest : List Char} (hds : ∀ c ∈ ds, c.isDigit = true)
    (hrest : Delimited rest) : spanDigits (ds ++ rest) = (ds, rest) := by
  induction ds with
  | nil =>
    cases rest with
    | nil => rfl
    | cons c rest =>
      have hc : c.isDigit = false := by
        rcases hrest c rfl with rfl | rfl <;> rfl
      rw [List.nil_append, spanDigits, hc]
      rfl
  | cons d ds ih =>
    rw [List.cons_append, spanDigits, if_pos (hds d List.mem_cons_self),
      ih fun c hc => hds c (List.mem_cons_of_mem d hc)]

theorem digitOf_digitChar : ∀ d < 10, digitOf (digitChar d) = d := by decide

/-- If all digits were kept, the significand goes on from their number. -/
theorem wholePart_append {ds : List Char} {n m : Nat} (h : wholePart n ds = (m, 0))
    (es : List Char) : wholePart n (ds ++ es) = wholePart m es := by
  induction ds generalizing n with
  | nil =>
    obtain rfl : n = m := congrArg Prod.fst h
    rfl
  | cons d ds ih =>
    rw [wholePart] at h
    rw [List.cons_append, wholePart]
    split at h
    case isTrue hfits => rw [if_pos hfits, ih h]
    case isFalse => exact absurd (congrArg Prod.snd h) (Nat.succ_ne_zero _)

theorem wholePart_digits {n : Nat} :
    n ≤ largestSignificand → wholePart 0 (digits 10 n) = (n, 0) := by
  have hlast : ∀ m d, d < 10 → m * 10 + d ≤ largestSignificand →
      wholePart m [digitChar d] = (m * 10 + d, 0) := by
    intro m d hd hle
    rw [wholePart, digitOf_digitChar d hd, if_pos hle, wholePart]
  refine digits_induction
    (motive := fun n ds => n ≤ largestSignificand → wholePart 0 ds = (n, 0)) ?_ ?_ n
  · intro d hd hle
    rw [hlast 0 d hd (by omega), Nat.zero_mul, Nat.zero_add]
  · intro n d _ hd ih hle
    rw [wholePart_append (ih (by omega)), hlast n d hd hle]

theorem whole?_digits (n : Nat) {rest : List Char} (hrest : Delimited rest) :
    whole? (digits 10 n ++ rest) = some (digits 10 n, rest) := by
  rw [whole?, spanDigits_append (isDigit_of_mem_digits n) hrest]
  rcases Nat.eq_zero_or_pos n with rfl | hn
  · rw [digits_of_lt (by omega)]
    rfl
  · cases hds : digits 10 n with
    | nil => exact absurd hds (digits_ne_nil 10 n)
    | cons d ds =>
      have hd : d ≠ '0' := by
        rintro rfl
        exact head?_digits_ne_zero hn (by rw [hds, List.head?_cons])
      split
      case h_1 h => simp at h
      case h_2 h => simp [hd] at h
      case h_3 => rfl

theorem fraction?_of_delimited {rest : List Char} (hrest : Delimited rest) :
    fraction? rest = some (none, rest) := by
  cases rest with
  | nil => rfl
  | cons c rest => rcases hrest c rfl with rfl | rfl <;> rfl

theorem exponent?_of_delimited {rest : List Char} (hrest : Delimited rest) :
    exponent? rest = some (none, rest) := by
  cases rest with
  | nil => rfl
  | cons c rest => rcases hrest c rfl with rfl | rfl <;> rfl

/-- A whole number with a sign, as a word can hold it. -/
def Fits (negative : Bool) (n : Nat) : Prop :=
  n ≤ largestSignificand ∧ ¬ (negative ∧ (n = 0 ∨ Nat.pow 2 63 < n))

theorem number?_digits {negative : Bool} {n : Nat} (hn : Fits negative n) :
    number? negative (digits 10 n) none none =
      some (integer (if negative then -(n : Int) else n)) := by
  obtain ⟨hle, hsign⟩ := hn
  rw [number?, wholePart_digits hle, if_pos ⟨rfl, rfl, rfl, hsign⟩]

theorem number_minus_digits {n : Nat} (hn : Fits true n) {rest : List Char}
    (hrest : Delimited rest) :
    number ('-' :: (digits 10 n ++ rest)) = some (integer (-(n : Int)), rest) := by
  simp only [number, whole?_digits n hrest, fraction?_of_delimited hrest,
    exponent?_of_delimited hrest, number?_digits hn, Option.bind_eq_bind, Option.bind_some, if_true]

theorem number_digits {n : Nat} (hn : Fits false n) {rest : List Char} (hrest : Delimited rest) :
    number (digits 10 n ++ rest) = some (integer n, rest) := by
  obtain ⟨d, ds, hds, hd⟩ := exists_digits_eq_cons n
  have hwhole : whole? (d :: (ds ++ rest)) = some (d :: ds, rest) := by
    rw [← List.cons_append, ← hds]
    exact whole?_digits n hrest
  have hnumber := hds ▸ number?_digits hn
  simp [hds, number, hd, hwhole, fraction?_of_delimited hrest, exponent?_of_delimited hrest,
    hnumber]

/-- A reader of numbers gives back the whole numbers of a kind from their digits. -/
def Keeps (readNumber : List Char → Option (Json × List Char)) (kind : Int → Prop) : Prop :=
  ∀ n, kind n → ∀ rest, Delimited rest →
    readNumber ((signedDecimal n).toList ++ rest) = some (integer n, rest)

theorem signedDecimal_of_neg {n : Int} (hn : n < 0) :
    (signedDecimal n).toList = '-' :: digits 10 n.natAbs := by
  rw [signedDecimal, decimal, if_pos hn, String.toList_append,
    @String.toList_ofList (digits 10 n.natAbs)]
  rfl

theorem signedDecimal_of_nonneg {n : Int} (hn : ¬ n < 0) :
    (signedDecimal n).toList = digits 10 n.natAbs := by
  rw [signedDecimal, decimal, if_neg hn, String.toList_ofList]

/-- A number that a word of 64 bits can hold, with a sign or without. -/
def InWord (n : Int) : Prop := -(Nat.pow 2 63 : Int) ≤ n ∧ n < Nat.pow 2 64

theorem keeps_number : Keeps number InWord := by
  intro n hn rest hrest
  obtain ⟨hlow, hhigh⟩ := hn
  have hlargest : largestSignificand + 1 = Nat.pow 2 64 := rfl
  have hhalf : Nat.pow 2 63 < Nat.pow 2 64 := by decide
  by_cases hsign : n < 0
  · have hfits : Fits true n.natAbs := by
      rw [Fits]
      omega
    have hvalue : -(n.natAbs : Int) = n := by omega
    rw [signedDecimal_of_neg hsign, List.cons_append, number_minus_digits hfits hrest, hvalue]
  · have hfits : Fits false n.natAbs := by
      rw [Fits]
      exact ⟨by omega, by simp⟩
    have hvalue : (n.natAbs : Int) = n := by omega
    rw [signedDecimal_of_nonneg hsign, number_digits hfits hrest, hvalue]

/-- A whole number of any size, and what follows it. -/
def wholeNumber : List Char → Option (Json × List Char)
  | '-' :: cs => (whole? cs).map fun r => (integer (-(natOf r.1 : Int)), r.2)
  | cs => (whole? cs).map fun r => (integer (natOf r.1), r.2)

theorem natOf_digits (n : Nat) : natOf (digits 10 n) = n := by
  refine digits_induction (motive := fun n ds => natOf ds = n) ?_ ?_ n
  · intro d hd
    rw [natOf, List.foldl_cons, List.foldl_nil, digitOf_digitChar d hd, Nat.zero_mul, Nat.zero_add]
  · intro n d _ hd ih
    rw [natOf] at ih
    rw [natOf, List.foldl_append, ih, List.foldl_cons, List.foldl_nil, digitOf_digitChar d hd]

theorem keeps_wholeNumber : Keeps wholeNumber fun _ => True := by
  intro n _ rest hrest
  by_cases hsign : n < 0
  · have hvalue : -(n.natAbs : Int) = n := by omega
    rw [signedDecimal_of_neg hsign, List.cons_append, wholeNumber, whole?_digits _ hrest,
      Option.map_some, natOf_digits, hvalue]
  · have hvalue : (n.natAbs : Int) = n := by omega
    obtain ⟨d, ds, hds, hd⟩ := exists_digits_eq_cons n.natAbs
    have hwhole := whole?_digits n.natAbs hrest
    rw [hds, List.cons_append] at hwhole
    rw [signedDecimal_of_nonneg hsign, hds, List.cons_append, wholeNumber, hwhole, Option.map_some,
      ← hds, natOf_digits, hvalue]
    exact fun _ h => hd (List.cons_eq_cons.mp h).1

/-- A character that a number can start with. -/
def OpensNumber (c : Char) : Prop := c = '-' ∨ c.isDigit = true

instance : DecidablePred OpensNumber := fun _ => inferInstanceAs (Decidable (_ ∨ _))

theorem OpensNumber.ne {c d : Char} (hc : OpensNumber c) (hd : ¬ OpensNumber d) : c ≠ d :=
  fun h => hd (h ▸ hc)

theorem exists_signedDecimal_eq_cons (n : Int) :
    ∃ c cs, (signedDecimal n).toList = c :: cs ∧ OpensNumber c := by
  by_cases hsign : n < 0
  · exact ⟨'-', _, signedDecimal_of_neg hsign, Or.inl rfl⟩
  · obtain ⟨d, ds, hds, -⟩ := exists_digits_eq_cons n.natAbs
    rw [signedDecimal_of_nonneg hsign, hds]
    exact ⟨d, ds, rfl, Or.inr (isDigit_of_mem_digits n.natAbs d (hds ▸ List.mem_cons_self))⟩

/-! ### Spaces -/

theorem skipSpaces_cons {c : Char} (h : isSpace c = false) (cs : List Char) :
    skipSpaces (c :: cs) = c :: cs :=
  List.dropWhile_cons_of_neg (by simp [h])

theorem skipSpaces_newline (level : Nat) (cs : List Char) :
    skipSpaces (newline level ++ cs) = skipSpaces cs := by
  refine List.dropWhile_append_of_pos fun c hc => ?_
  rcases List.mem_cons.mp hc with rfl | hc
  · rfl
  · rw [List.eq_of_mem_replicate hc]
    rfl

theorem skipSpaces_space (cs : List Char) : skipSpaces (' ' :: cs) = skipSpaces cs := rfl

theorem skipSpaces_quoted (s : String) (rest : List Char) :
    skipSpaces (quoted s ++ rest) = quoted s ++ rest :=
  skipSpaces_cons rfl _

end Reader

end Json

end ChainAutomata
