/-
Which repeated name is reported.

Several names of a pattern may be repeated, and in several ways.  The check walks from the last element
to the first and reports the first name that it meets again:

* `firstRepeated?_eq_some_iff` — the walk ends at the first entry that was met before;
* `SharedName` — a name and two places of a list that hold it;
* `Pattern.checkNames_eq_error_iff_nearest` — in the order of declaration, the pair whose first member
  comes last decides;
* `repeated_name_reported` — which patterns are refused, and with which name.

Design notes: the names met so far grow along the walk, so a place in the list is compared with the
entries before it together with the names that were met before the walk began.
-/
import ChainAutomata.Proofs.Outcome

universe u

namespace ChainAutomata

variable {ε : Type u}

/-! ### The walk -/

/-- The name is among `seen` or stands before the place `k`. -/
def MetBefore (seen names : List String) (k : Nat) (n : String) : Prop := n ∈ seen ∨ n ∈ names.take k

/-- From the second entry on, the first counts among the names that were met. -/
theorem metBefore_cons_succ {seen rest : List String} {name n : String} {k : Nat} :
    MetBefore seen (name :: rest) (k + 1) n ↔ MetBefore (name :: seen) rest k n := by
  rw [MetBefore, MetBefore, List.take_succ_cons, List.mem_cons, List.mem_cons]
  exact or_left_comm.trans or_assoc.symm

/-- The walk ends at the first entry that was met before. -/
theorem firstRepeated?_eq_some_iff {seen names : List String} {n : String} :
    firstRepeated? seen names = some n ↔
      ∃ k, names[k]? = some n ∧ MetBefore seen names k n ∧
        ∀ j < k, ∀ m, names[j]? = some m → ¬ MetBefore seen names j m := by
  induction names generalizing seen with
  | nil => simp [firstRepeated?]
  | cons name rest ih =>
    have hfirst : MetBefore seen (name :: rest) 0 name ↔ name ∈ seen := by simp [MetBefore]
    by_cases hname : name ∈ seen
    · -- The walk ends at once, and no later place has only new names before it.
      rw [firstRepeated?, if_pos hname, Option.some_inj]
      constructor
      · rintro rfl
        exact ⟨0, rfl, hfirst.mpr hname, fun j hj => absurd hj (Nat.not_lt_zero j)⟩
      · rintro ⟨k, hk, -, hbefore⟩
        rcases k with _ | k
        · exact Option.some_inj.mp hk
        · exact absurd (hfirst.mpr hname) (hbefore 0 (Nat.succ_pos k) name rfl)
    · -- The walk goes on.  A place of the rest is one further on here, and the first entry is new.
      rw [firstRepeated?, if_neg hname, ih]
      constructor
      · rintro ⟨k, hk, hmet, hbefore⟩
        refine ⟨k + 1, hk, metBefore_cons_succ.mpr hmet, fun j hj m hm => ?_⟩
        rcases j with _ | j
        · obtain rfl := Option.some_inj.mp hm
          exact fun h => hname (hfirst.mp h)
        · exact fun h => hbefore j (Nat.lt_of_succ_lt_succ hj) m hm (metBefore_cons_succ.mp h)
      · rintro ⟨k, hk, hmet, hbefore⟩
        rcases k with _ | k
        · obtain rfl := Option.some_inj.mp hk
          exact absurd (hfirst.mp hmet) hname
        · refine ⟨k, hk, metBefore_cons_succ.mp hmet, fun j hj m hm h => ?_⟩
          exact hbefore (j + 1) (Nat.succ_lt_succ hj) m hm (metBefore_cons_succ.mpr h)

/-! ### Pairs of places -/

/-- The name stands at two places of the list, `i` being the one before. -/
structure SharedName (names : List String) (i j : Nat) (n : String) : Prop where
  lt : i < j
  left : names[i]? = some n
  right : names[j]? = some n

theorem exists_sharedName_iff {names : List String} {k : Nat} {n : String} :
    (∃ i, SharedName names i k n) ↔ names[k]? = some n ∧ MetBefore [] names k n := by
  rw [MetBefore, or_iff_right List.not_mem_nil, List.mem_iff_getElem?]
  constructor
  · rintro ⟨i, hlt, hi, hk⟩
    exact ⟨hk, i, by rw [List.getElem?_take_of_lt hlt, hi]⟩
  · rintro ⟨hk, i, hi⟩
    by_cases hlt : i < k
    · rw [List.getElem?_take_of_lt hlt] at hi
      exact ⟨i, hlt, hi, hk⟩
    · rw [List.getElem?_take, if_neg hlt] at hi
      exact absurd hi (by simp)

/-- The walk ends at the pair that is complete first. -/
theorem firstRepeated?_eq_some_iff_sharedName {names : List String} {n : String} :
    firstRepeated? [] names = some n ↔
      ∃ i k, SharedName names i k n ∧ ∀ i' k' m, SharedName names i' k' m → k ≤ k' := by
  rw [firstRepeated?_eq_some_iff]
  constructor
  · rintro ⟨k, hk, hmet, hbefore⟩
    obtain ⟨i, hi⟩ := exists_sharedName_iff.mpr ⟨hk, hmet⟩
    refine ⟨i, k, hi, fun i' k' m h => ?_⟩
    obtain ⟨hk', hmet'⟩ := exists_sharedName_iff.mp ⟨i', h⟩
    by_contra hlt
    exact hbefore k' (Nat.lt_of_not_le hlt) m hk' hmet'
  · rintro ⟨i, k, hi, hleast⟩
    obtain ⟨hk, hmet⟩ := exists_sharedName_iff.mp ⟨i, hi⟩
    refine ⟨k, hk, hmet, fun j hj m hm hmetj => ?_⟩
    obtain ⟨i', hi'⟩ := exists_sharedName_iff.mpr ⟨hm, hmetj⟩
    exact absurd (hleast i' j m hi') (Nat.not_le_of_lt hj)

/-- Read from the other end, the members of a pair change places. -/
theorem SharedName.of_reverse {names : List String} {i j : Nat} {n : String}
    (h : SharedName names.reverse i j n) :
    j < names.length ∧ SharedName names (names.length - 1 - j) (names.length - 1 - i) n := by
  have hj : j < names.length := by
    have := (List.getElem?_eq_some_iff.mp h.right).1
    rwa [List.length_reverse] at this
  have hlt := h.lt
  refine ⟨hj, by omega, ?_, ?_⟩
  · rw [← List.getElem?_reverse hj]
    exact h.right
  · rw [← List.getElem?_reverse (Nat.lt_trans hlt hj)]
    exact h.left

theorem SharedName.reverse {names : List String} {i j : Nat} {n : String}
    (h : SharedName names i j n) :
    j < names.length ∧ SharedName names.reverse (names.length - 1 - j) (names.length - 1 - i) n := by
  rw [← names.reverse_reverse] at h
  have := h.of_reverse
  rwa [List.length_reverse] at this

/-- The pair that is complete first when a list is read from its end is the one whose first member comes
last. -/
theorem firstRepeated?_reverse_eq_some_iff {names : List String} {n : String} :
    firstRepeated? [] names.reverse = some n ↔
      ∃ i j, SharedName names i j n ∧ ∀ i' j' m, SharedName names i' j' m → i' ≤ i := by
  rw [firstRepeated?_eq_some_iff_sharedName]
  -- A pair is complete at its second member; from the other end that is the first member, and the least
  -- place there is the greatest here.
  constructor
  · rintro ⟨i, k, h, hleast⟩
    obtain ⟨hk, hshared⟩ := h.of_reverse
    refine ⟨_, _, hshared, fun i' j' m h' => ?_⟩
    obtain ⟨hj', hshared'⟩ := h'.reverse
    have := hleast _ _ _ hshared'
    have := h'.lt
    omega
  · rintro ⟨i, j, h, hlast⟩
    obtain ⟨hj, hshared⟩ := h.reverse
    refine ⟨_, _, hshared, fun i' k' m h' => ?_⟩
    obtain ⟨hk', hshared'⟩ := h'.of_reverse
    have := hlast _ _ _ hshared'
    have := h.lt
    omega

/-! ### Patterns -/

namespace Pattern

variable {p : Pattern ε} {n : String}

theorem checkNames_eq_error_iff :
    p.checkNames = .error ⟨n⟩ ↔ firstRepeated? [] (p.steps.map Step.name) = some n := by
  rw [checkNames]
  cases firstRepeated? [] (p.steps.map Step.name) <;> simp

/-- On the way from the last element to the first, the first name that was met before is reported. -/
theorem checkNames_eq_error_iff_metBefore :
    p.checkNames = .error ⟨n⟩ ↔
      ∃ k, (p.steps.map Step.name)[k]? = some n ∧ n ∈ (p.steps.map Step.name).take k ∧
        ∀ j < k, ∀ m, (p.steps.map Step.name)[j]? = some m → m ∉ (p.steps.map Step.name).take j := by
  rw [checkNames_eq_error_iff, firstRepeated?_eq_some_iff]
  simp only [MetBefore, List.not_mem_nil, false_or]

/-- Of all pairs of elements with one name, the one whose first member is nearest to the last element
decides. -/
theorem checkNames_eq_error_iff_nearest :
    p.checkNames = .error ⟨n⟩ ↔
      ∃ i j, SharedName p.names i j n ∧ ∀ i' j' m, SharedName p.names i' j' m → i' ≤ i := by
  rw [checkNames_eq_error_iff, ← firstRepeated?_reverse_eq_some_iff, p.names_eq_reverse_steps,
    List.reverse_reverse]

end Pattern

/-- With a usable final name, a compilation is refused for the name that the check reports. -/
theorem compile_eq_malformedPattern_iff {settings : Settings} {p : Pattern ε} {cause : DuplicateName}
    (hfinal : ¬ settings.BlankFinalName) :
    (compile settings p).1 = .error (.malformedPattern cause) ↔ p.checkNames = .error cause := by
  by_cases hrepeats : p.RepeatsName
  · obtain ⟨found, hfound⟩ := Pattern.checkNames_of_repeatsName hrepeats
    rw [compile_fst, Settings.check_of_not_blank hfinal, hfound]
    simp
  · rw [compile_of_distinct hfinal hrepeats, Pattern.checkNames_eq_ok_iff.mpr hrepeats]
    simp

/-- **Which repeated name is reported.**  The check accepts the patterns whose names are all different.
Of any other it reports the first name that it meets again on the way from the last element to the
first; in the order of declaration that is the name of the pair whose first member comes last.  A
compilation with a usable final name is refused for the same name. -/
theorem repeated_name_reported {settings : Settings} (hfinal : ¬ settings.BlankFinalName)
    (p : Pattern ε) :
    (p.checkNames = .ok () ↔ p.names.Nodup) ∧
    (¬ p.names.Nodup → ∃ n, p.checkNames = .error ⟨n⟩) ∧
    ∀ n, (p.checkNames = .error ⟨n⟩ ↔
        ∃ k, (p.steps.map Step.name)[k]? = some n ∧ n ∈ (p.steps.map Step.name).take k ∧
          ∀ j < k, ∀ m, (p.steps.map Step.name)[j]? = some m →
            m ∉ (p.steps.map Step.name).take j) ∧
      (p.checkNames = .error ⟨n⟩ ↔
        ∃ i j, SharedName p.names i j n ∧ ∀ i' j' m, SharedName p.names i' j' m → i' ≤ i) ∧
      ((compile settings p).1 = .error (.malformedPattern ⟨n⟩) ↔ p.checkNames = .error ⟨n⟩) := by
  refine ⟨?_, ?_, fun n => ⟨Pattern.checkNames_eq_error_iff_metBefore,
    Pattern.checkNames_eq_error_iff_nearest, ?_⟩⟩
  · rw [Pattern.checkNames_eq_ok_iff, Pattern.not_repeatsName_iff]
  · intro hnodup
    obtain ⟨⟨n⟩, hn⟩ := Pattern.checkNames_of_repeatsName
      (not_not.mp (mt Pattern.not_repeatsName_iff.mp hnodup))
    exact ⟨n, hn⟩
  · exact compile_eq_malformedPattern_iff hfinal

/-- Two names that take turns. -/
def turns : Pattern Nat := (Pattern.begin "a").calls [.next "b", .followedBy "a", .next "b"]

/-- The pair of the name declared first is complete before the other pair, but it is the other one that
is reported. -/
theorem compile_turns :
    ¬ Settings.BlankFinalName {} ∧ ¬ turns.names.Nodup ∧
      SharedName turns.names 0 2 "a" ∧ SharedName turns.names 1 3 "b" ∧
      (compile {} turns).1 = .error (.malformedPattern ⟨"b"⟩) := by
  obtain ⟨hok, -, hname⟩ := repeated_name_reported Settings.not_blankFinalName_default turns
  obtain ⟨hwalk, -, hcompile⟩ := hname "b"
  have hreported : turns.checkNames = .error ⟨"b"⟩ := by
    refine hwalk.mpr ⟨2, rfl, by decide, fun j hj m hm => ?_⟩
    rcases j with _ | _ | j
    · exact List.not_mem_nil
    · obtain rfl := Option.some_inj.mp hm
      decide
    · omega
  have hrepeated : ¬ turns.names.Nodup := fun hnodup => by
    rw [hok.mpr hnodup] at hreported
    exact absurd hreported (by simp)
  exact ⟨Settings.not_blankFinalName_default, hrepeated, ⟨by decide, rfl, rfl⟩, ⟨by decide, rfl, rfl⟩,
    hcompile.mpr hreported⟩

end ChainAutomata
