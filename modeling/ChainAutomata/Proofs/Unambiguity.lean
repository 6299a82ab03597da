/-
Compiled patterns are matched unambiguously.

The labels of an accepting run say which element took or skipped each event.  They also say which
transitions the run followed, those that consume nothing included:

* `Pattern.legible_automaton` — in the automaton of a pattern every run can be read back;
* `accepting_hops_unique` — two accepting runs with the same labels are the same run.

Design notes: the two states of a repeated element have one name, so a label does not say in which
of them an event was consumed.  But it says that the element had not been left yet, because its name
does not come back below its block; and in a state the action decides what is followed.
-/
import ChainAutomata.Proofs.Language
import ChainAutomata.Proofs.Placement
import ChainAutomata.Proofs.Trail

universe u

namespace ChainAutomata

open Automaton

variable {ε : Type u}

namespace Pattern

variable {p : Pattern ε} {finalName : String} {x : Placed ε}

/-- Below the block of an element no event is consumed under its name, even if the final state has
the same one. -/
theorem name_ne_of_reads_below (hdistinct : ¬ p.RepeatsName) (hx : x ∈ p.placed)
    {hops : List (Hop ε)} : ∀ {i j : StateId} {u : List (ε × Label)}, i < x.position →
      (p.automaton finalName).Trail i hops j → (p.automaton finalName).Reads hops u →
      ∀ y ∈ u, y.2.1 ≠ x.step.name := by
  induction hops with
  | nil =>
    intro i j u _ _ hreads y hy
    rw [show u = [] from hreads] at hy
    simp at hy
  | cons h hops ih =>
    intro i j u hi htrail hreads
    obtain ⟨rfl, ⟨s, hs, hplace⟩, hrest⟩ := htrail
    have hmem := List.mem_of_getElem? hplace
    -- the trail stays below the block from here on
    have hbelow : h.target < x.position := target_lt_position hx hi hs _ hmem
    rcases hreads with ⟨-, hreads⟩ | ⟨-, s', c, e, v, hs', -, -, rfl, hreads⟩
    · exact ih hbelow hrest hreads
    · intro y hy
      rcases List.mem_cons.mp hy with rfl | hy
      · obtain rfl : s' = s := Option.some_inj.mp (hs'.symm.trans hs)
        rcases owner_of_state? hs with ⟨-, rfl⟩ | ⟨z, hz, k, hk, hzk⟩
        · -- nothing leaves the final state
          simp at hmem
        · have hzname : s'.name = z.step.name :=
            Step.name_of_mem_block (List.mem_of_getElem? hzk)
          have hne : z ≠ x := by
            rintro rfl
            exact absurd (hk ▸ hi) (Nat.not_lt.mpr (Nat.le_add_right _ _))
          intro hname
          exact hne (eq_of_name_eq hdistinct hz hx (hzname.symm.trans hname))
      · exact ih hbelow hrest hreads y hy

theorem legible_automaton (hdistinct : ¬ p.RepeatsName) (finalName : String) :
    (p.automaton finalName).Legible := by
  constructor
  case actions =>
    intro i s hs
    rcases owner_of_state? hs with ⟨-, rfl⟩ | ⟨x, -, j, -, hj⟩
    · exact List.nodup_nil
    · exact Step.nodup_actions_of_mem_block (List.mem_of_getElem? hj)
  case stops =>
    exact (p.wellFormed_automaton finalName).final_stops
  case onward =>
    rintro h s ⟨s', hs', hplace⟩ haction hs hops u htrail hreads
    obtain rfl : s' = s := Option.some_inj.mp (hs'.symm.trans hs)
    have hmem := List.mem_of_getElem? hplace
    rcases owner_of_state? hs with ⟨-, rfl⟩ | ⟨x, hx, j, -, hj⟩
    · simp at hmem
    · have hstate := List.mem_of_getElem? hj
      have htarget : h.target = x.next := Step.target_of_proceed hstate hmem haction
      have hbelow : h.target < x.position := htarget ▸ next_lt_position hx
      rw [Step.name_of_mem_block hstate]
      exact name_ne_of_reads_below hdistinct hx hbelow htrail hreads

end Pattern

/-- **Which element took or skipped each event determines the whole run.**  Accepting runs of a
compiled automaton that give their events the same labels follow the same transitions, even if the
events themselves differ. -/
theorem accepting_hops_unique {settings : Settings} {p : Pattern ε} {a : Automaton ε}
    (h : (compile settings p).1 = .ok a) {hops hops' : List (Hop ε)} {u u' : List (ε × Label)}
    (htrail : a.Trail a.start hops a.final) (hreads : a.Reads hops u)
    (htrail' : a.Trail a.start hops' a.final) (hreads' : a.Reads hops' u')
    (hlabels : u.map Prod.snd = u'.map Prod.snd) : hops = hops' := by
  obtain ⟨-, hdistinct, rfl⟩ := compile_eq_ok_iff.mp h
  exact (Pattern.legible_automaton hdistinct settings.finalName).eq_of_labels htrail htrail'
    hreads hreads' hlabels

/-- The hops over `[1, 2, 5, 7, 5]`: a first event, then a five after the two and another one after
the seven. -/
def hopsOverFives : List (Hop Nat) :=
  let five := anyThenFives.last
  [⟨3, 0, .take, 1, some .always⟩, ⟨1, 1, .ignore, 1, some five.refusal⟩,
    ⟨1, 0, .take, 2, some five.demand⟩, ⟨2, 1, .ignore, 1, some five.refusal⟩,
    ⟨1, 0, .take, 2, some five.demand⟩, ⟨2, 2, .proceed, 0, none⟩]

/-- The two skipped events have one label although they are consumed in different states, and yet
there is only one such run. -/
theorem existsUnique_hops_over_fives :
    ∃ a, (compile {} anyThenFives).1 = .ok a ∧
      ∃! hops, ∃ u, a.Trail a.start hops a.final ∧ a.Reads hops u ∧
        u.map Prod.fst = [1, 2, 5, 7, 5] ∧
        u.map Prod.snd = [("any", .take), ("fives", .ignore), ("fives", .take),
          ("fives", .ignore), ("fives", .take)] := by
  have hcompiles : (compile {} anyThenFives).1 = .ok (anyThenFives.automaton "$endState$") :=
    compile_of_nodup (by decide)
  have htrail : (anyThenFives.automaton "$endState$").Trail 3 hopsOverFives 0 :=
    ⟨rfl, ⟨_, rfl, rfl⟩, rfl, ⟨_, rfl, rfl⟩, rfl, ⟨_, rfl, rfl⟩, rfl, ⟨_, rfl, rfl⟩, rfl,
      ⟨_, rfl, rfl⟩, rfl, ⟨_, rfl, rfl⟩, rfl⟩
  have hreads : (anyThenFives.automaton "$endState$").Reads hopsOverFives
      [(1, "any", .take), (2, "fives", .ignore), (5, "fives", .take), (7, "fives", .ignore),
        (5, "fives", .take)] :=
    Or.inr ⟨by decide, _, _, 1, _, rfl, rfl, rfl, rfl,
      Or.inr ⟨by decide, _, _, 2, _, rfl, rfl, rfl, rfl,
        Or.inr ⟨by decide, _, _, 5, _, rfl, rfl, rfl, rfl,
          Or.inr ⟨by decide, _, _, 7, _, rfl, rfl, rfl, rfl,
            Or.inr ⟨by decide, _, _, 5, _, rfl, rfl, rfl, rfl, Or.inl ⟨rfl, rfl⟩⟩⟩⟩⟩⟩
  refine ⟨_, hcompiles, hopsOverFives, ⟨_, htrail, hreads, rfl, rfl⟩, ?_⟩
  rintro hops ⟨u, htrail', hreads', -, hlabels⟩
  exact accepting_hops_unique hcompiles htrail' hreads' htrail hreads hlabels

end ChainAutomata
