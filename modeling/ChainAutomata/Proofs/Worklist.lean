/-
The searches as loops over a queue.

`explore` visits a queue by recursion.  Here it is taken apart into the turns of a loop, which keep
what is unmarked, what is queued and everything that was queued before, so that it can be said how
long the loop runs and what it puts on its queue:

* `Worklist.turn?`, `Worklist.turns?` — one turn, which takes an id off the queue, and several;
* `Worklist.perm_of_turns?` — no turn loses an id or gets a second one of it;
* `turns?_of_explore` — the loop does what the recursion does, in one turn for each id visited;
* `Automaton.searches_end_exact` — both searches of an automaton end and mark what they should.

Design notes: all that is said about marks and repetitions follows from one invariant, that what was
ever queued and what is unmarked are together the ids of the arena.
-/
import ChainAutomata.Proofs.Search

universe u

namespace ChainAutomata

/-- What a search holds between two turns of its loop. -/
structure Worklist where
  unmarked : List Nat
  queue : List Nat
  /-- Everything that was ever put on the queue, in order. -/
  queued : List Nat

namespace Worklist

variable {successors? : Nat → Option (List Nat)} {x y z : Worklist} {m n : Nat}

/-- A search that is about to begin at an id, among the ids below `size`. -/
def initial (size origin : Nat) : Worklist :=
  ⟨(List.range size).erase origin, [origin], [origin]⟩

/-- The first id leaves the queue, and its unmarked successors are marked and put on it.  There is
no turn if the queue is empty, or if the successors of the id cannot be looked up. -/
def turn? (successors? : Nat → Option (List Nat)) (x : Worklist) : Option Worklist :=
  match x.queue with
  | [] => none
  | id :: queue =>
    (successors? id).map fun targets =>
      let found := claim x.unmarked targets
      ⟨found.2, queue ++ found.1, x.queued ++ found.1⟩

/-- What is held after a number of turns. -/
def turns? (successors? : Nat → Option (List Nat)) : Nat → Worklist → Option Worklist
  | 0, x => some x
  | n + 1, x => x.turn? successors? >>= turns? successors? n

theorem turn?_cons (unmarked queue queued : List Nat) (id : Nat) :
    turn? successors? ⟨unmarked, id :: queue, queued⟩ = (successors? id).map fun targets =>
      ⟨(claim unmarked targets).2, queue ++ (claim unmarked targets).1,
        queued ++ (claim unmarked targets).1⟩ := rfl

/-! ### What turns keep -/

/-- A turn moves ids from the unmarked to the queued. -/
theorem perm_of_turn? (h : x.turn? successors? = some y) :
    (y.queued ++ y.unmarked).Perm (x.queued ++ x.unmarked) := by
  rw [turn?] at h
  split at h
  · simp at h
  · obtain ⟨targets, -, rfl⟩ := Option.map_eq_some_iff.mp h
    rw [List.append_assoc]
    exact (perm_claim x.unmarked targets).append_left x.queued

theorem perm_of_turns? (h : turns? successors? n x = some y) :
    (y.queued ++ y.unmarked).Perm (x.queued ++ x.unmarked) := by
  induction n generalizing x with
  | zero =>
    rw [turns?, Option.some_inj] at h
    rw [h]
  | succ n ih =>
    obtain ⟨z, hturn, hturns⟩ := Option.bind_eq_some_iff.mp h
    exact (ih hturns).trans (perm_of_turn? hturn)

theorem turns?_add (m n : Nat) (x : Worklist) :
    turns? successors? (m + n) x = turns? successors? m x >>= turns? successors? n := by
  induction m generalizing x with
  | zero => rw [Nat.zero_add, turns?, Option.bind_eq_bind, Option.bind_some]
  | succ m ih =>
    rw [Nat.succ_add, turns?, turns?]
    simp only [Option.bind_eq_bind, Option.bind_assoc]
    exact Option.bind_congr fun y _ => ih y

/-- Once the queue is empty there are no more turns. -/
theorem le_of_turns? (hx : turns? successors? m x = some y) (hy : y.queue = [])
    (hz : turns? successors? n x = some z) : n ≤ m := by
  refine Nat.le_of_not_lt fun hlt => ?_
  obtain ⟨k, rfl⟩ : ∃ k, n = m + (k + 1) := ⟨n - m - 1, by omega⟩
  have hturn : y.turn? successors? = none := by
    rw [turn?, hy]
  rw [turns?_add, hx, Option.bind_eq_bind, Option.bind_some, turns?, hturn] at hz
  simp at hz

/-! ### From the recursion to the loop -/

/-- The loop visits what the recursion visits, one id a turn; and ids leave the queue in the order
in which they were put on it. -/
theorem turns?_of_explore {unmarked queue visited : List Nat}
    (h : explore successors? unmarked queue = some visited) (gone : List Nat) :
    ∃ rest, turns? successors? visited.length ⟨unmarked, queue, gone ++ queue⟩ =
      some ⟨rest, [], gone ++ visited⟩ := by
  induction unmarked, queue using explore.induct successors? generalizing visited gone with
  | case1 unmarked =>
    rw [explore, Option.some_inj] at h
    subst h
    exact ⟨unmarked, rfl⟩
  | case2 unmarked id queue hnone => simp [explore, hnone] at h
  | case3 unmarked id queue targets hsome found =>
    rename_i ih
    rw [explore, hsome] at h
    obtain ⟨visited, hrest, rfl⟩ := Option.map_eq_some_iff.mp h
    obtain ⟨rest, hturns⟩ := ih hrest (gone ++ [id])
    refine ⟨rest, ?_⟩
    rw [List.length_cons, turns?, turn?_cons, hsome]
    simpa [found] using hturns

/-- The search from an id ends with what it found, and whatever the number of turns, nothing has
been queued twice. -/
structure Settles (successors? : Nat → Option (List Nat)) (size origin : Nat)
    (found : List Nat) : Prop where
  /-- After one turn for each id found, the queue is empty, these are the ids that were queued, and
  the marked ones. -/
  ends : ∃ rest, turns? successors? found.length (initial size origin) = some ⟨rest, [], found⟩ ∧
    ∀ i < size, i ∈ found ↔ i ∉ rest
  /-- There are no other turns, and in none of them is an id queued that was queued before. -/
  once : ∀ n x, turns? successors? n (initial size origin) = some x →
    n ≤ found.length ∧ x.queued.Nodup
  length_le : found.length ≤ size

theorem perm_range_of_turns? {size origin : Nat} (horigin : origin < size)
    (h : turns? successors? n (initial size origin) = some x) :
    (x.queued ++ x.unmarked).Perm (List.range size) :=
  (perm_of_turns? h).trans (List.perm_cons_erase (List.mem_range.mpr horigin)).symm

theorem settles_of_explore {size origin : Nat} (horigin : origin < size) {found : List Nat}
    (h : explore successors? ((List.range size).erase origin) [origin] = some found) :
    Settles successors? size origin found := by
  obtain ⟨rest, hends⟩ := turns?_of_explore h []
  have hperm : (found ++ rest).Perm (List.range size) := perm_range_of_turns? horigin hends
  have hnodup := hperm.nodup_iff.mpr List.nodup_range
  constructor
  case ends =>
    refine ⟨rest, hends, fun i hi => ⟨fun hfound hrest => ?_, fun hrest => ?_⟩⟩
    · exact (List.nodup_append.mp hnodup).2.2 i hfound i hrest rfl
    · have hmem := hperm.mem_iff.mpr (List.mem_range.mpr hi)
      exact (List.mem_append.mp hmem).resolve_right hrest
  case once =>
    intro n x hx
    have hx' := (perm_range_of_turns? horigin hx).nodup_iff.mpr List.nodup_range
    exact ⟨le_of_turns? hends rfl hx, (List.nodup_append.mp hx').1⟩
  case length_le =>
    have hlength := hperm.length_eq
    rw [List.length_append, List.length_range] at hlength
    omega

end Worklist

/-! ### The searches of an automaton -/

namespace Automaton

open Worklist (Settles)

variable {ε : Type u} {a : Automaton ε}

/-- **Both searches end, and are exact.**  Each takes one turn for each state that it finds, no
state is queued twice, and what is found and marked are the states that have a path from the start,
or to the final state.  So one search finds the final state exactly when the other finds the
start. -/
theorem searches_end_exact (hfiled : a.Filed) (hclosed : a.Closed) (hstart : a.start < a.size)
    (hfinal : a.final < a.size) :
    ∃ reached finishing, a.reachable? = some reached ∧ a.finishing? = some finishing ∧
      Settles a.successors? a.size a.start reached ∧ (∀ i, i ∈ reached ↔ a.Path a.start i) ∧
      Settles a.predecessors? a.size a.final finishing ∧
      (∀ i, i ∈ finishing ↔ a.Path i a.final) ∧
      (a.final ∈ reached ↔ a.start ∈ finishing) := by
  obtain ⟨reached, hreached⟩ := exists_reachable hclosed hstart
  obtain ⟨finishing, hfinishing⟩ := exists_finishing hfiled hclosed hfinal
  have hforward := hreached
  have hbackward := hfinishing
  rw [reachable?, Option.ite_none_right_eq_some] at hforward
  rw [finishing?, Option.ite_none_right_eq_some] at hbackward
  refine ⟨reached, finishing, hreached, hfinishing, ?_, ?_, ?_, ?_, ?_⟩
  · exact Worklist.settles_of_explore hstart hforward.2
  · exact fun i => mem_reachable_iff hclosed hreached
  · exact Worklist.settles_of_explore hfinal hbackward.2
  · exact fun i => mem_finishing_iff hfiled hfinishing
  · rw [mem_reachable_iff hclosed hreached, mem_finishing_iff hfiled hfinishing]

/-- A cycle with a loop, two transitions for one, and a state that nothing leads to. -/
def tangled : Automaton Nat where
  states := [⟨0, "end", .final, []⟩,
    ⟨1, "go", .start, [⟨.take, 2, some .always⟩, ⟨.ignore, 2, some .always⟩]⟩,
    ⟨2, "on", .normal, [⟨.take, 1, some .always⟩, ⟨.ignore, 2, some .always⟩, ⟨.proceed, 0, none⟩]⟩,
    ⟨3, "aside", .normal, [⟨.proceed, 2, none⟩]⟩]
  start := 1
  final := 0

theorem filed_tangled : tangled.Filed := by
  rintro (_ | _ | _ | _ | i) s hs
  case succ.succ.succ.succ => exact absurd (lt_size_of_state? hs) (by simp [size, tangled])
  all_goals exact Option.some_inj.mp hs ▸ rfl

theorem closed_tangled : tangled.Closed := by
  have hall : ∀ s ∈ tangled.states, ∀ t ∈ s.transitions, t.target < tangled.size := by decide
  exact fun i s hs => hall s (mem_states_iff.mpr ⟨i, hs⟩)

theorem exists_searches_tangled :
    tangled.Filed ∧ tangled.Closed ∧ ∃ reached finishing,
      tangled.reachable? = some reached ∧ tangled.finishing? = some finishing ∧
      2 ∈ reached ∧ 3 ∉ reached ∧ 3 ∈ finishing ∧ finishing.length ≤ 4 := by
  obtain ⟨reached, finishing, hreached, hfinishing, -, hforward, hsettles, hbackward, -⟩ :=
    searches_end_exact filed_tangled closed_tangled (by decide) (by decide)
  refine ⟨filed_tangled, closed_tangled, reached, finishing, hreached, hfinishing, ?_⟩
  have hlinked : ∀ i, ¬ tangled.Linked i 3 := by
    rintro i ⟨s, hs, t, ht, htarget⟩
    have hall : ∀ s ∈ tangled.states, ∀ t ∈ s.transitions, t.target ≠ 3 := by decide
    exact hall s (mem_states_iff.mpr ⟨i, hs⟩) t ht htarget
  have hon : tangled.Linked 2 0 := ⟨_, rfl, ⟨.proceed, 0, none⟩, by simp, rfl⟩
  refine ⟨?_, ?_, ?_, hsettles.length_le⟩
  · rw [hforward]
    exact .single ⟨_, rfl, _, List.mem_cons_self, rfl⟩
  · rw [hforward]
    intro hpath
    -- nothing leads there, so the path would have to begin there
    rcases Relation.ReflTransGen.cases_tail hpath with hstart | ⟨i, -, hlast⟩
    · exact absurd hstart (by decide)
    · exact hlinked i hlast
  · rw [hbackward]
    exact .head ⟨_, rfl, _, List.mem_cons_self, rfl⟩ (.single hon)

end Automaton

end ChainAutomata
