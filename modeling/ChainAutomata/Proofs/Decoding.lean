/-
Reading a plan back from portraits.

The portraits of a plan give away its first slot, by the role of the start, and of every later one
its strictness, whether it is repeated, and what is seen of its entry.

* `Slot.blockPortraits_inj` — what the portraits of one block tell;
* `chainPortraits_inj` — plans that are entered alike and have the same portraits agree in what can
  be told of their slots;
* `chainPortraits_start_inj` — with the first entry as the start, the first slots are the same.

Design notes: names are distinct, so the portraits with the name of the first slot are those of its
block.  The block tells what it leads into, which is how the next slot is found; the rest has the
same portraits again.
-/
import ChainAutomata.Proofs.Portraits

universe w

namespace ChainAutomata

variable {φ : Type w} {look : String → Bool → φ} {role : Role} {u v z : φ}
variable {x y : Slot} {xs ys : List Slot}

/-! ### One block -/

/-- Some of the portraits shows an edge. -/
def Shows (ps : List (Portrait φ)) (e : Action × φ) : Prop := ∃ p ∈ ps, e ∈ p.edges

theorem shows_iff_of_perm {ps qs : List (Portrait φ)} (h : ps.Perm qs) (e : Action × φ) :
    Shows ps e ↔ Shows qs e :=
  exists_congr fun _ => and_congr_left' h.mem_iff

theorem Quantifier.eq_of_flags {q q' : Quantifier} (hzero : q.allowsZero = q'.allowsZero)
    (hlooping : q.isLooping = q'.isLooping) : q = q' := by
  cases q <;> cases q' <;> simp_all [allowsZero, isLooping]

namespace Slot

/-- A portrait of a block is that of a waiting or of a resting state. -/
theorem eq_of_mem_blockPortraits {p : Portrait φ} (h : p ∈ x.blockPortraits look role u) :
    ∃ r t, (r = role ∨ r = .normal) ∧
      (p = x.waitingPortrait look r t ∨ p = x.restingPortrait look r u) := by
  rw [blockPortraits] at h
  cases hq : x.quantifier with
  | single =>
    rw [hq] at h
    exact ⟨role, u, Or.inl rfl, Or.inl (List.mem_singleton.mp h)⟩
  | zeroOrMore =>
    rw [hq] at h
    rcases List.mem_pair.mp h with h | h
    · exact ⟨.normal, _, Or.inr rfl, Or.inl h⟩
    · exact ⟨role, u, Or.inl rfl, Or.inr h⟩
  | oneOrMore =>
    rw [hq] at h
    rcases List.mem_pair.mp h with h | h
    · exact ⟨role, _, Or.inl rfl, Or.inl h⟩
    · exact ⟨.normal, u, Or.inr rfl, Or.inr h⟩

theorem name_of_mem_blockPortraits {p : Portrait φ} (h : p ∈ x.blockPortraits look role u) :
    p.name = x.name := by
  obtain ⟨r, t, -, rfl | rfl⟩ := eq_of_mem_blockPortraits h <;> rfl

theorem role_of_mem_blockPortraits {p : Portrait φ} (h : p ∈ x.blockPortraits look role u) :
    p.role = role ∨ p.role = .normal := by
  obtain ⟨r, t, hr, rfl | rfl⟩ := eq_of_mem_blockPortraits h <;> exact hr

theorem mem_skipSights_iff {e : Action × φ} :
    e ∈ x.skipSights look ↔ x.strictness = .relaxed ∧ e = (.ignore, look x.name false) := by
  cases hs : x.strictness <;> simp [skipSights, hs]

/-- Only relaxed elements ignore events. -/
theorem shows_ignore_iff :
    (∃ z, Shows (x.blockPortraits look role u) (.ignore, z)) ↔ x.strictness = .relaxed := by
  cases hq : x.quantifier <;>
    simp [Shows, blockPortraits, hq, waitingPortrait, restingPortrait, mem_skipSights_iff]

/-- Only repeated elements are left without an event, for what comes next. -/
theorem shows_proceed_iff :
    Shows (x.blockPortraits look role u) (.proceed, z) ↔ x.quantifier.isLooping ∧ z = u := by
  cases hq : x.quantifier <;> simp [Shows, blockPortraits, hq, waitingPortrait, restingPortrait,
    mem_skipSights_iff, Quantifier.isLooping]

/-- An element that takes one event leads on by taking it. -/
theorem shows_take_iff (hq : x.quantifier.isLooping = false) :
    Shows (x.blockPortraits look role u) (.take, z) ↔ z = u := by
  have hsingle : x.quantifier = .single := by
    cases h : x.quantifier <;> simp_all [Quantifier.isLooping]
  simp [Shows, blockPortraits, hsingle, waitingPortrait, mem_skipSights_iff]

/-- A block tells the strictness of its element, whether it is repeated and what it leads into. -/
theorem blockPortraits_inj
    (h : (x.blockPortraits look role u).Perm (y.blockPortraits look role v)) :
    x.strictness = y.strictness ∧ x.quantifier.isLooping = y.quantifier.isLooping ∧ u = v := by
  have hignore : x.strictness = .relaxed ↔ y.strictness = .relaxed := by
    rw [← shows_ignore_iff, ← shows_ignore_iff]
    exact exists_congr fun z => shows_iff_of_perm h _
  have hproceed : ∀ z, (x.quantifier.isLooping ∧ z = u) ↔ (y.quantifier.isLooping ∧ z = v) := by
    intro z
    rw [← shows_proceed_iff, ← shows_proceed_iff]
    exact shows_iff_of_perm h _
  have hlooping : x.quantifier.isLooping = y.quantifier.isLooping := by
    rw [Bool.eq_iff_iff]
    exact ⟨fun hq => ((hproceed u).mp ⟨hq, rfl⟩).1, fun hq => ((hproceed v).mpr ⟨hq, rfl⟩).1⟩
  refine ⟨?_, hlooping, ?_⟩
  · cases hs : x.strictness <;> cases hs' : y.strictness <;> simp_all
  · -- what comes next is where a repeated element proceeds to, and where another one takes to
    cases hq : x.quantifier.isLooping with
    | true => exact ((hproceed u).mp ⟨hq, rfl⟩).2
    | false =>
      have htake := shows_iff_of_perm h (.take, u)
      rw [shows_take_iff hq, shows_take_iff (hlooping ▸ hq)] at htake
      exact htake.mp rfl

/-- The portrait of the start can be left without an event exactly when the element may be
missing. -/
theorem proceed_mem_edges_iff {p : Portrait φ} (h : p ∈ x.blockPortraits look .start u)
    (hp : p.role = .start) :
    (∃ z, (Action.proceed, z) ∈ p.edges) ↔ x.quantifier.allowsZero := by
  rw [blockPortraits] at h
  cases hq : x.quantifier with
  | single =>
    rw [hq] at h
    rw [List.mem_singleton.mp h]
    simp [waitingPortrait, mem_skipSights_iff, Quantifier.allowsZero]
  | zeroOrMore =>
    rw [hq] at h
    rcases List.mem_pair.mp h with rfl | rfl
    · exact absurd hp (by simp [waitingPortrait])
    · simp [restingPortrait, Quantifier.allowsZero]
  | oneOrMore =>
    rw [hq] at h
    rcases List.mem_pair.mp h with rfl | rfl
    · simp [waitingPortrait, mem_skipSights_iff, Quantifier.allowsZero]
    · exact absurd hp (by simp [restingPortrait])

theorem exists_start_mem_blockPortraits (look : String → Bool → φ) (x : Slot) (u : φ) :
    ∃ p ∈ x.blockPortraits look .start u, p.role = .start := by
  rw [blockPortraits]
  cases x.quantifier <;> simp [waitingPortrait, restingPortrait]

/-- What can be told of a slot that is not the first. -/
def visible (look : String → Bool → φ) (x : Slot) : φ × Strictness × Bool :=
  (x.face look, x.strictness, x.quantifier.isLooping)

end Slot

/-! ### Chains -/

theorem chainPortraits_eq_nil_iff : chainPortraits look role u xs = [] ↔ xs = [] := by
  cases xs with
  | nil => simp [chainPortraits]
  | cons x xs => cases hq : x.quantifier <;> simp [chainPortraits, Slot.blockPortraits, hq]

theorem name_mem_of_mem_chainPortraits {p : Portrait φ}
    (h : p ∈ chainPortraits look role u xs) : p.name ∈ xs.map Slot.name := by
  induction xs generalizing role with
  | nil => simp [chainPortraits] at h
  | cons x xs ih =>
    rw [List.map_cons, List.mem_cons]
    rcases List.mem_append.mp h with h | h
    · exact Or.inl (Slot.name_of_mem_blockPortraits h)
    · exact Or.inr (ih h)

theorem role_of_mem_chainPortraits {p : Portrait φ}
    (h : p ∈ chainPortraits look role u xs) : p.role = role ∨ p.role = .normal := by
  induction xs generalizing role with
  | nil => simp [chainPortraits] at h
  | cons x xs ih =>
    rcases List.mem_append.mp h with h | h
    · exact Slot.role_of_mem_blockPortraits h
    · exact Or.inr ((or_self _).mp (ih h))

/-- What has the name of the first slot is its block, and what has not is the rest. -/
theorem filter_chainPortraits (look : String → Bool → φ) (role : Role) (u : φ)
    (hnodup : ((x :: xs).map Slot.name).Nodup) :
    (chainPortraits look role u (x :: xs)).filter (fun p => p.name == x.name) =
        x.blockPortraits look role (chainFace look u xs) ∧
      (chainPortraits look role u (x :: xs)).filter (fun p => p.name != x.name) =
        chainPortraits look .normal u xs := by
  have hout : x.name ∉ xs.map Slot.name := (List.nodup_cons.mp hnodup).1
  have hblock : ∀ p ∈ x.blockPortraits look role (chainFace look u xs), p.name = x.name :=
    fun p h => Slot.name_of_mem_blockPortraits h
  have hrest : ∀ p ∈ chainPortraits look .normal u xs, p.name ≠ x.name :=
    fun p h heq => hout (heq ▸ name_mem_of_mem_chainPortraits h)
  rw [chainPortraits, List.filter_append, List.filter_append]
  constructor
  · rw [List.filter_eq_self.mpr fun p h => beq_iff_eq.mpr (hblock p h),
      List.filter_eq_nil_iff.mpr fun p h => by simpa using hrest p h, List.append_nil]
  · rw [List.filter_eq_nil_iff.mpr fun p h => by simpa using hblock p h,
      List.filter_eq_self.mpr fun p h => bne_iff_ne.mpr (hrest p h), List.nil_append]

/-- Plans with the same portraits whose first slots share a name: the first slots agree, and what is
left has the same portraits again. -/
theorem chainPortraits_cons_inj (hx : ((x :: xs).map Slot.name).Nodup)
    (hy : ((y :: ys).map Slot.name).Nodup) (hname : x.name = y.name)
    (h : (chainPortraits look role u (x :: xs)).Perm (chainPortraits look role v (y :: ys))) :
    x.strictness = y.strictness ∧ x.quantifier.isLooping = y.quantifier.isLooping ∧
      chainFace look u xs = chainFace look v ys ∧
      (chainPortraits look .normal u xs).Perm (chainPortraits look .normal v ys) := by
  obtain ⟨hxblock, hxrest⟩ := filter_chainPortraits look role u hx
  obtain ⟨hyblock, hyrest⟩ := filter_chainPortraits look role v hy
  have hblock := h.filter fun p => p.name == x.name
  have hrest := h.filter fun p => p.name != x.name
  rw [hxblock, hname, hyblock] at hblock
  rw [hxrest, hname, hyrest] at hrest
  obtain ⟨hstrictness, hlooping, hface⟩ := Slot.blockPortraits_inj hblock
  exact ⟨hstrictness, hlooping, hface, hrest⟩

/-- Plans that are entered alike and have the same portraits agree in what can be told of their
slots. -/
theorem chainPortraits_inj (hlook : ∀ n b n' b', look n b = look n' b' → n = n')
    (hxs : (xs.map Slot.name).Nodup) (hys : (ys.map Slot.name).Nodup)
    (hface : chainFace look u xs = chainFace look v ys)
    (h : (chainPortraits look .normal u xs).Perm (chainPortraits look .normal v ys)) :
    xs.map (Slot.visible look) = ys.map (Slot.visible look) := by
  induction xs generalizing ys with
  | nil =>
    obtain rfl : ys = [] := chainPortraits_eq_nil_iff.mp (List.nil_perm.mp h)
    rfl
  | cons x xs ih =>
    cases ys with
    | nil => exact absurd (chainPortraits_eq_nil_iff.mp (List.perm_nil.mp h)) (by simp)
    | cons y ys =>
      -- the face gives the name, the name gives the block, and the block gives the next face
      have hname : x.name = y.name := hlook _ _ _ _ hface
      obtain ⟨hstrictness, hlooping, hnext, hrest⟩ := chainPortraits_cons_inj hxs hys hname h
      have hvisible : x.visible look = y.visible look := by
        rw [Slot.visible, Slot.visible, hstrictness, hlooping]
        exact congrArg (fun z => (z, y.strictness, y.quantifier.isLooping)) hface
      rw [List.map_cons, List.map_cons, hvisible,
        ih (List.nodup_cons.mp hxs).2 (List.nodup_cons.mp hys).2 hnext hrest]

/-- The portraits of the start give away the name of the first slot, and whether its element may be
missing. -/
theorem start_mem_chainPortraits {p : Portrait φ}
    (h : p ∈ chainPortraits look .start u (x :: xs)) (hp : p.role = .start) :
    p.name = x.name ∧ ((∃ z, (Action.proceed, z) ∈ p.edges) ↔ x.quantifier.allowsZero) := by
  rcases List.mem_append.mp h with h | h
  · exact ⟨Slot.name_of_mem_blockPortraits h, Slot.proceed_mem_edges_iff h hp⟩
  · -- behind the first block there is no start
    have hnormal : p.role = .normal := (or_self _).mp (role_of_mem_chainPortraits h)
    rw [hp] at hnormal
    exact absurd hnormal (by simp)

/-- Plans with the same portraits, the first entry being the start, have the same first slot and
agree in what can be told of the others. -/
theorem chainPortraits_start_inj (hlook : ∀ n b n' b', look n b = look n' b' → n = n')
    (hx : ((x :: xs).map Slot.name).Nodup) (hy : ((y :: ys).map Slot.name).Nodup)
    (h : (chainPortraits look .start u (x :: xs)).Perm (chainPortraits look .start v (y :: ys))) :
    x = y ∧ xs.map (Slot.visible look) = ys.map (Slot.visible look) := by
  obtain ⟨p, hp, hrole⟩ : ∃ p ∈ chainPortraits look .start u (x :: xs), p.role = .start := by
    obtain ⟨p, hp, hrole⟩ := x.exists_start_mem_blockPortraits look (chainFace look u xs)
    exact ⟨p, List.mem_append_left _ hp, hrole⟩
  obtain ⟨hxname, hxzero⟩ := start_mem_chainPortraits hp hrole
  obtain ⟨hyname, hyzero⟩ := start_mem_chainPortraits (h.mem_iff.mp hp) hrole
  have hname : x.name = y.name := hxname.symm.trans hyname
  obtain ⟨hstrictness, hlooping, hnext, hrest⟩ := chainPortraits_cons_inj hx hy hname h
  have hquantifier : x.quantifier = y.quantifier := by
    refine Quantifier.eq_of_flags ?_ hlooping
    rw [Bool.eq_iff_iff, ← hxzero, ← hyzero]
  refine ⟨?_, chainPortraits_inj hlook (List.nodup_cons.mp hx).2 (List.nodup_cons.mp hy).2 hnext
    hrest⟩
  cases x
  cases y
  simp_all

end ChainAutomata
