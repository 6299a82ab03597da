/-
Audits of automata that were built by hand.

All that is asked of a call on a draft is that the state it is about is there.  Conditions may be
missing or misplaced, targets may not exist, roles may be changed, and any two ids may be designated
in the end.

* `Automaton.Filed.audit_ne_outsideArena` — no lookup of an audit fails, if states are filed under
  their positions;
* `audit_stays_in_arena` — whatever was built by calls, no lookup of its audit fails.

Design notes: the audit makes its lookups behind checks that justify them.  That the order of the
checks is right has been shown once, by `Automaton.Filed.audit_eq_report`: the list of faults has no
entry for a failed lookup.
-/
import ChainAutomata.Automaton.Draft
import ChainAutomata.Proofs.FirstFault

universe u

namespace ChainAutomata

variable {ε : Type u}

namespace Draft

variable {d : Draft ε}

theorem Filed.build (hfiled : d.Filed) (start final : StateId) : (d.build start final).Filed := by
  intro i s hs
  have hid : (d.states.map State.id)[i]? = some s.id := by
    rw [List.getElem?_map]
    exact congrArg _ hs
  have hi : i < d.states.length := Automaton.lt_size_of_state? hs
  rw [hfiled, List.getElem?_range hi, Option.some_inj] at hid
  exact hid.symm

end Draft

/-! ### Lookups of the audit -/

namespace Automaton

variable {a : Automaton ε}

/-- If states are filed under their positions, no lookup of the audit fails. -/
theorem Filed.audit_ne_outsideArena (hfiled : a.Filed) : a.audit ≠ .error .outsideArena := by
  rw [hfiled.audit_eq_report, faults]
  intro h
  rcases report_append_eq_error_iff.mp h with hlocal | ⟨-, hsearch⟩
  · exact report_localFaults_ne id hlocal
  · rcases report_append_eq_error_iff.mp hsearch with hdead | ⟨-, hfinish⟩
    · exact absurd hdead (report_map_ne _ (by simp))
    · exact absurd hfinish (report_map_ne _ (by simp))

end Automaton

/-- **The audit of a draft never leaves the arena.**  Calls about states that are there succeed, and
whichever start and end are designated after them, states are filed under their positions, and the
audit accepts the automaton or finds a fault of it. -/
theorem audit_stays_in_arena (traced : Bool) {cs : List (Draft.Call ε)}
    (h : Draft.Call.InOrder 0 cs) :
    ∃ d, ({ traced } : Draft ε).calls? cs = some d ∧ ∀ start final,
      (d.build start final).Filed ∧
      ((d.build start final).audit = .ok () ∨
        ∃ fault, fault ≠ .outsideArena ∧ (d.build start final).audit = .error fault) := by
  have hsome : (({ traced } : Draft ε).calls? cs).isSome := Draft.isSome_calls?_iff.mpr h
  obtain ⟨d, hd⟩ := Option.isSome_iff_exists.mp hsome
  refine ⟨d, hd, fun start final => ?_⟩
  have hfiled := ((Draft.filed_empty traced).calls hd).build start final
  refine ⟨hfiled, ?_⟩
  cases haudit : (d.build start final).audit with
  | ok u => exact Or.inl rfl
  | error fault =>
    refine Or.inr ⟨fault, ?_, rfl⟩
    rintro rfl
    exact hfiled.audit_ne_outsideArena haudit

/-- Calls that lead nowhere, put conditions in the wrong places and let the final state go on. -/
def carelessCalls : List (Draft.Call Nat) :=
  [.addState "a" .start, .connect 0 ⟨.take, 9, none⟩, .connect 0 ⟨.proceed, 0, some .always⟩,
    .addState "b" .start, .setRole 1 .final, .proceed 1 7]

theorem exists_draft_carelessCalls :
    Draft.Call.InOrder 0 carelessCalls ∧
    ∃ d, ({} : Draft Nat).calls? carelessCalls = some d ∧ (d.build 5 3).Filed ∧
      (d.build 5 3).audit = .error (.starts 5 [0]) ∧
      (d.build 0 3).audit = .error (.finals 3 [1]) ∧
      (d.build 0 1).audit = .error (.finalContinues "b" 1) := by
  have horder : Draft.Call.InOrder 0 carelessCalls := by
    simp [carelessCalls, Draft.Call.InOrder, Draft.Call.subject?, Draft.Call.added]
  obtain ⟨d, hd, hall⟩ := audit_stays_in_arena true horder
  refine ⟨horder, d, hd, (hall 5 3).1, ?_⟩
  obtain rfl := Option.some_inj.mp hd
  exact ⟨rfl, rfl, rfl⟩

end ChainAutomata
