/-
Outlines are canonical.

The edges of a state and the states of an outline are sorted by comparisons that take their parts
one after the other.  Each comparison is a total order in which only equal entries tie, so sorting
forgets exactly the order of a list:

* `Edge.sort_eq_sort_iff` — two lists of edges have the same sorted form exactly when one is a
  permutation of the other;
* `Automaton.outline_eq_iff_perm` — two automata have the same outline exactly when the outlines of
  their states are permutations of each other.
-/
import ChainAutomata.Outline

universe u v

namespace ChainAutomata

/-! ### Sorting -/

section Sorting

variable {α : Type u} (cmp : α → α → Ordering) [Std.TransCmp cmp]

theorem pairwise_mergeSort_isLE (xs : List α) :
    (xs.mergeSort fun x y => (cmp x y).isLE).Pairwise fun x y => (cmp x y).isLE = true := by
  refine List.pairwise_mergeSort ?_ ?_ xs
  · intro x y z hxy hyz
    exact Std.TransCmp.isLE_trans hxy hyz
  · intro x y
    have hswap : cmp y x = (cmp x y).swap := Std.OrientedCmp.eq_swap
    rw [hswap]
    cases cmp x y <;> rfl

/-- Sorting by an order in which only equal entries tie forgets exactly the order of a list. -/
theorem mergeSort_eq_mergeSort_iff [Std.LawfulEqCmp cmp] {xs ys : List α} :
    xs.mergeSort (fun x y => (cmp x y).isLE) = ys.mergeSort (fun x y => (cmp x y).isLE) ↔
      xs.Perm ys := by
  have hxs : (xs.mergeSort fun x y => (cmp x y).isLE).Perm xs := List.mergeSort_perm xs _
  have hys : (ys.mergeSort fun x y => (cmp x y).isLE).Perm ys := List.mergeSort_perm ys _
  constructor
  · intro h
    rw [h] at hxs
    exact hxs.symm.trans hys
  · intro h
    refine List.Perm.eq_of_pairwise ?_ (pairwise_mergeSort_isLE cmp xs)
      (pairwise_mergeSort_isLE cmp ys) (hxs.trans (h.trans hys.symm))
    intro x y _ _ hxy hyx
    exact Std.LawfulEqCmp.eq_of_compare (Std.OrientedCmp.isLE_antisymm hxy hyx)

end Sorting

/-! ### Edges -/

theorem Role.rank_inj {r r' : Role} (h : r.rank = r'.rank) : r = r' := by
  cases r <;> cases r' <;> simp_all [rank]

theorem Action.rank_inj {x y : Action} (h : x.rank = y.rank) : x = y := by
  cases x <;> cases y <;> simp_all [rank]

namespace Edge

instance : Std.TransCmp Edge.compare :=
  inferInstanceAs (Std.TransCmp
    (compareLex (compareOn fun x : Edge => x.1.rank) (compareOn fun x : Edge => x.2)))

instance : Std.LawfulEqCmp Edge.compare where
  eq_of_compare {x y} h := by
    obtain ⟨haction, htarget⟩ := Ordering.then_eq_eq.mp h
    exact Prod.ext (Action.rank_inj (Std.LawfulEqOrd.eq_of_compare haction))
      (Std.LawfulEqOrd.eq_of_compare htarget)

theorem compareLists_eq_compareLex : compareLists = List.compareLex Edge.compare := by
  funext xs ys
  induction xs generalizing ys with
  | nil => cases ys <;> rfl
  | cons x xs ih =>
    cases ys with
    | nil => rfl
    | cons y ys =>
      rw [compareLists, ih, List.compareLex_cons_cons]

instance : Std.TransCmp compareLists := compareLists_eq_compareLex ▸ inferInstance

instance : Std.LawfulEqCmp compareLists := compareLists_eq_compareLex ▸ inferInstance

theorem sort_eq_sort_iff {xs ys : List Edge} : sort xs = sort ys ↔ xs.Perm ys :=
  mergeSort_eq_mergeSort_iff Edge.compare

theorem sort_perm (xs : List Edge) : (sort xs).Perm xs :=
  List.mergeSort_perm xs le

end Edge

/-! ### States -/

namespace StateOutline

instance : Std.TransCmp fun x y : StateOutline => Edge.compareLists x.edges y.edges where
  eq_swap := Std.OrientedCmp.eq_swap
  isLE_trans := Std.TransCmp.isLE_trans

instance : Std.TransCmp StateOutline.compare :=
  inferInstanceAs (Std.TransCmp
    (compareLex (compareOn fun x : StateOutline => x.role.rank)
      (compareLex (compareOn fun x : StateOutline => x.name)
        fun x y : StateOutline => Edge.compareLists x.edges y.edges)))

instance : Std.LawfulEqCmp StateOutline.compare where
  eq_of_compare {x y} h := by
    obtain ⟨hrole, h⟩ := Ordering.then_eq_eq.mp h
    obtain ⟨hname, hedges⟩ := Ordering.then_eq_eq.mp h
    have hrole : x.role = y.role := Role.rank_inj (Std.LawfulEqOrd.eq_of_compare hrole)
    have hname : x.name = y.name := Std.LawfulEqOrd.eq_of_compare hname
    have hedges : x.edges = y.edges := Std.LawfulEqCmp.eq_of_compare hedges
    cases x
    cases y
    simp_all

end StateOutline

namespace Automaton

variable {ε : Type u} {δ : Type v}

/-- Equal outlines are equal collections of states. -/
theorem outline_eq_iff_perm {a : Automaton ε} {b : Automaton δ} :
    a.outline = b.outline ↔
      (a.states.map a.outlineState).Perm (b.states.map b.outlineState) := by
  rw [outline, outline, Outline.mk.injEq]
  exact mergeSort_eq_mergeSort_iff StateOutline.compare

end Automaton

end ChainAutomata
