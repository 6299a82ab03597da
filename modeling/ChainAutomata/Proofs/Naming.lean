/-
What the names of states tell.

Every state that is made for an element has its name, and a repeated element has two of them.  The
names of elements are distinct, so a name leads back to its element, but for one case: the name of
the final state is checked against nothing, and an element may have the same one.

* `Pattern.statesNamed_automaton` — the states with a name, whatever the names are;
* `names_identify_elements_iff` — names tell elements apart exactly when no element has the name of
  the final state, and then each name leads to one state, to two, or to none.
-/
import ChainAutomata.Proofs.Placement

universe u

namespace ChainAutomata

variable {ε : Type u}

/-! ### The states with a name -/

theorem Placed.filter_name_states (x : Placed ε) (n : String) :
    x.states.filter (fun s => s.name == n) = if x.step.name == n then x.states else [] := by
  have hname : ∀ s ∈ x.states, s.name = x.step.name := fun s hs => Step.name_of_mem_block hs
  split
  case isTrue h =>
    rw [List.filter_eq_self]
    intro s hs
    rw [hname s hs, h]
  case isFalse h =>
    rw [List.filter_eq_nil_iff]
    intro s hs
    rw [hname s hs]
    exact h

namespace Pattern

variable {p : Pattern ε} {finalName : String} {x : Placed ε}

/-- The states with a name are the final state, if it has it, and the blocks of the elements that
have it. -/
theorem statesNamed_automaton (p : Pattern ε) (finalName n : String) :
    (p.automaton finalName).statesNamed n =
      (if finalName == n then [⟨0, finalName, .final, []⟩] else []) ++
        (p.placed.filter fun x => x.step.name == n).flatMap Placed.states := by
  -- all states of a block have one name, so a block is kept whole or not at all
  have hblocks : ∀ xs : List (Placed ε),
      (xs.flatMap Placed.states).filter (fun s => s.name == n) =
        (xs.filter fun x => x.step.name == n).flatMap Placed.states := by
    intro xs
    induction xs with
    | nil => rfl
    | cons x xs ih =>
      rw [List.flatMap_cons, List.filter_append, ih, x.filter_name_states, List.filter_cons]
      split <;> simp
  rw [Automaton.statesNamed, automaton, List.filter_cons, layout_eq_flatMap]
  show (if finalName == n then _ else _) = _
  rw [hblocks]
  split <;> rfl

theorem filter_name_placed (hdistinct : ¬ p.RepeatsName) (hx : x ∈ p.placed) :
    (p.placed.filter fun y => y.step.name == x.step.name) = [x] := by
  have hnodup : p.placed.Nodup := (nodup_name_placed hdistinct).of_map
  refine List.perm_singleton.mp ?_
  rw [List.perm_ext_iff_of_nodup (hnodup.filter _) (List.nodup_singleton x)]
  intro y
  rw [List.mem_filter, List.mem_singleton, beq_iff_eq]
  constructor
  · rintro ⟨hy, hname⟩
    exact eq_of_name_eq hdistinct hy hx hname
  · rintro rfl
    exact ⟨hx, rfl⟩

/-- The name of an element leads to its block, if the final state does not have it too. -/
theorem statesNamed_of_mem_placed (hdistinct : ¬ p.RepeatsName) (hfinal : finalName ∉ p.names)
    (hx : x ∈ p.placed) : (p.automaton finalName).statesNamed x.step.name = x.states := by
  have hne : finalName ≠ x.step.name := fun h => hfinal (mem_names_iff.mpr ⟨x, hx, h.symm⟩)
  rw [statesNamed_automaton, if_neg (by simpa using hne), filter_name_placed hdistinct hx]
  simp

theorem statesNamed_of_notMem_names {n : String} (hn : n ∉ p.names) :
    (p.automaton finalName).statesNamed n =
      if finalName == n then [⟨0, finalName, .final, []⟩] else [] := by
  have hnone : (p.placed.filter fun x => x.step.name == n) = [] := by
    rw [List.filter_eq_nil_iff]
    intro x hx hname
    exact hn (mem_names_iff.mpr ⟨x, hx, beq_iff_eq.mp hname⟩)
  rw [statesNamed_automaton, hnone]
  simp

/-! ### States with the same name -/

/-- Two states of the automaton have the same name only if they are the two halves of one repeated
element of the pattern. -/
def NamesIdentify (p : Pattern ε) (a : Automaton ε) : Prop :=
  ∀ i j s s', i ≠ j → a.state? i = some s → a.state? j = some s' → s.name = s'.name →
    ∃ x ∈ p.placed, x.Halves i j

/-- Two positions of one block are its two halves. -/
theorem halves_of_owns {i j : Nat} (hne : i ≠ j) (hi : x.Owns i) (hj : x.Owns j) :
    x.Halves i j := by
  obtain ⟨hile, hilt⟩ := hi
  obtain ⟨hjle, hjlt⟩ := hj
  rcases x.single_or_looping with hq | hq
  · rw [Placed.width_of_single hq] at hilt hjlt
    omega
  · rw [Placed.width_of_looping hq] at hilt hjlt
    refine ⟨hq, ?_⟩
    omega

/-- Names tell elements apart exactly when no element has the name of the final state. -/
theorem namesIdentify_iff (hdistinct : ¬ p.RepeatsName) :
    p.NamesIdentify (p.automaton finalName) ↔ finalName ∉ p.names := by
  constructor
  · intro h hmem
    obtain ⟨x, hx, hname⟩ := mem_names_iff.mp hmem
    obtain ⟨s, hs⟩ := exists_state?_of_owns finalName hx x.owns_entry
    have hsname : s.name = finalName := by
      rw [← hname]
      exact Step.name_of_mem_block (mem_states_of_owns hx x.owns_entry hs)
    -- the final state lies below every block, so it is no half of anything
    have hpos : 0 < x.entry := Nat.lt_of_lt_of_le (position_pos hx) x.owns_entry.1
    obtain ⟨y, hy, -, hhalves⟩ := h 0 x.entry _ s (Nat.ne_of_lt hpos) rfl hs hsname.symm
    have hypos := position_pos hy
    omega
  · intro hfinal i j s s' hne hs hs' hname
    have hout : ∀ x ∈ p.placed, x.step.name ≠ finalName :=
      fun x hx h => hfinal (mem_names_iff.mpr ⟨x, hx, h⟩)
    rcases owner_cases hs with ⟨rfl, hsname⟩ | ⟨x, hx, hxi, hsname⟩
    · rcases owner_cases hs' with ⟨rfl, -⟩ | ⟨y, hy, -, hsname'⟩
      · exact absurd rfl hne
      · exact absurd (hsname'.symm.trans (hname.symm.trans hsname)) (hout y hy)
    · rcases owner_cases hs' with ⟨-, hsname'⟩ | ⟨y, hy, hyj, hsname'⟩
      · exact absurd (hsname.symm.trans (hname.trans hsname')) (hout x hx)
      · obtain rfl := eq_of_name_eq hdistinct hx hy (hsname.symm.trans (hname.trans hsname'))
        exact ⟨x, hx, halves_of_owns hne hxi hyj⟩

end Pattern

/-! ### Compiled patterns -/

section Compiled

/-- **When names tell elements apart.**  In a compiled automaton two different states have the same
name only as the two halves of one repeated element, unless some element has the name of the final
state.  Then the name of an element leads to exactly its one state or its two, the name of the final
state to that state alone, and any other string to none.  An element that does have the name of the
final state shares it with that state. -/
theorem names_identify_elements_iff {settings : Settings} {p : Pattern ε} {a : Automaton ε}
    (h : (compile settings p).1 = .ok a) :
    (p.NamesIdentify a ↔ settings.finalName ∉ p.names) ∧
    (settings.finalName ∉ p.names →
      (∀ x ∈ p.placed, x.step.quantifier = .single →
        ∃ s, a.state? x.position = some s ∧ a.statesNamed x.step.name = [s]) ∧
      (∀ x ∈ p.placed, x.step.quantifier.isLooping →
        ∃ s s', a.state? x.position = some s ∧ a.state? (x.position + 1) = some s' ∧
          a.statesNamed x.step.name = [s, s']) ∧
      (∃ s, a.finalState? = some s ∧ a.statesNamed settings.finalName = [s]) ∧
      ∀ n, n ≠ settings.finalName → n ∉ p.names → a.statesNamed n = []) ∧
    ∀ x ∈ p.placed, x.step.name = settings.finalName →
      ∃ s, a.finalState? = some s ∧ a.statesNamed settings.finalName = s :: x.states := by
  obtain ⟨-, hdistinct, rfl⟩ := compile_eq_ok_iff.mp h
  refine ⟨Pattern.namesIdentify_iff hdistinct, ?_, ?_⟩
  case refine_2 =>
    intro x hx hname
    refine ⟨_, rfl, ?_⟩
    rw [Pattern.statesNamed_automaton, ← hname, Pattern.filter_name_placed hdistinct hx]
    simp
  intro hfinal
  refine ⟨?_, ?_, ?_, ?_⟩
  · intro x hx hq
    have hstates := Placed.states_of_single hq
    have hspans := Pattern.spans_placed settings.finalName hx
    rw [hstates] at hspans
    refine ⟨_, hspans.head, ?_⟩
    rw [Pattern.statesNamed_of_mem_placed hdistinct hfinal hx, hstates]
  · intro x hx hq
    obtain ⟨r, r', hstates⟩ := Placed.states_of_looping hq
    have hspans := Pattern.spans_placed settings.finalName hx
    rw [hstates] at hspans
    refine ⟨_, _, hspans.head, hspans 1 _ rfl, ?_⟩
    rw [Pattern.statesNamed_of_mem_placed hdistinct hfinal hx, hstates]
  · refine ⟨_, rfl, ?_⟩
    rw [Pattern.statesNamed_of_notMem_names hfinal]
    simp
  · intro n hne hn
    rw [Pattern.statesNamed_of_notMem_names hn]
    simp [hne.symm]

/-- A login and then any number of retries. -/
def loginThenRetries : Pattern Nat :=
  .link (.head { name := "login" }) .relaxed { name := "retry", quantifier := .zeroOrMore }

/-- A repeated element has two states of its name, and no name is shared otherwise. -/
theorem statesNamed_loginThenRetries :
    (compile {} loginThenRetries).1 = .ok (loginThenRetries.automaton "$endState$") ∧
      "$endState$" ∉ loginThenRetries.names ∧
      loginThenRetries.NamesIdentify (loginThenRetries.automaton "$endState$") ∧
      ((loginThenRetries.automaton "$endState$").statesNamed "retry").map State.id = [1, 2] := by
  have hcompiles : (compile {} loginThenRetries).1 =
      .ok (loginThenRetries.automaton "$endState$") :=
    compile_of_nodup (by decide)
  have hfinal : "$endState$" ∉ loginThenRetries.names := by decide
  obtain ⟨hidentify, hnames, -⟩ := names_identify_elements_iff hcompiles
  obtain ⟨s, s', hs, hs', hretry⟩ :=
    (hnames hfinal).2.1 ⟨loginThenRetries.last, .normal, 1, 0⟩ List.mem_cons_self rfl
  refine ⟨hcompiles, hfinal, hidentify.mpr hfinal, ?_⟩
  have hid := (loginThenRetries.wellFormed_automaton "$endState$").filed
  show ((loginThenRetries.automaton "$endState$").statesNamed loginThenRetries.last.name).map
    State.id = [1, 2]
  rw [hretry, List.map_cons, List.map_cons, List.map_nil, hid 1 s hs, hid 2 s' hs']

/-- The name of the final state is not kept from elements: an element that takes one event shares
it. -/
theorem exists_final_name_shared :
    ∃ a s s', (compile {} (.begin "$endState$" : Pattern Nat)).1 = .ok a ∧
      a.finalState? = some s ∧ a.startState? = some s' ∧ s.role ≠ s'.role ∧
      a.statesNamed "$endState$" = [s, s'] ∧
      ¬ (.begin "$endState$" : Pattern Nat).NamesIdentify a := by
  have hnames : (.begin "$endState$" : Pattern Nat).names.Nodup := by decide
  refine ⟨_, _, _, compile_of_nodup hnames, rfl, rfl, by decide, rfl, ?_⟩
  rw [Pattern.namesIdentify_iff (Pattern.not_repeatsName_iff.mpr hnames)]
  decide

end Compiled

end ChainAutomata
