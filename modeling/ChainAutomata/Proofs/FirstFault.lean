/-
Which fault the audit reports.

An automaton may break several rules at once.  `Automaton.faults` lists what is wrong with it in the
order of the rules, and within a rule in arena order.  It speaks of paths where the audit searches.
Provided that every state is filed under its position, the audit reports the first entry of that list:

* `Automaton.localFaults` — what can be seen without following a path: roles, the final state, targets
  and conditions;
* `Automaton.DeadEnd` — a state that is reached from the start and left by no transition;
* `Automaton.Filed.audit_eq_report` — the audit is the report on the list of faults;
* `audit_reports_first_fault` — what that says of states that lead nowhere.

Design notes: each part of the audit has one lemma that names the faults it looks for.  The searches
give an answer only if targets are in range, so their parts are compared under the assumption that
the parts before them were passed (`andThen_congr`).
-/
import ChainAutomata.Proofs.WellFormed
import Mathlib.Data.Nat.Find

universe u

namespace ChainAutomata

/-- The verdict on an automaton with these faults: the first one counts. -/
def report : List Fault → Except Fault Unit
  | [] => .ok ()
  | fault :: _ => .error fault

theorem report_append (xs ys : List Fault) :
    report (xs ++ ys) = (report xs >>= fun _ => report ys) := by
  cases xs <;> rfl

theorem report_append_eq_error_iff {xs ys : List Fault} {fault : Fault} :
    report (xs ++ ys) = .error fault ↔
      report xs = .error fault ∨ xs = [] ∧ report ys = .error fault := by
  cases xs <;> simp [report]

theorem mem_of_report_eq_error {xs : List Fault} {fault : Fault} (h : report xs = .error fault) :
    fault ∈ xs := by
  cases xs with
  | nil => simp [report] at h
  | cons x xs =>
    rw [report, Except.error.injEq] at h
    simp [h]

theorem report_map_ne {α : Type u} (xs : List α) {g : α → Fault} {fault : Fault}
    (h : ∀ x, g x ≠ fault) : report (xs.map g) ≠ .error fault := by
  intro hreport
  obtain ⟨x, -, hx⟩ := List.mem_map.mp (mem_of_report_eq_error hreport)
  exact h x hx

/-- What is reported of the entries that break a rule is the first of them. -/
theorem report_filter_eq_error_iff {α : Type u} {xs : List α} {p : α → Bool} {g : α → Fault}
    {fault : Fault} :
    report ((xs.filter p).map g) = .error fault ↔
      ∃ (k : Nat) (x : α), xs[k]? = some x ∧ p x = true ∧ g x = fault ∧
        ∀ j < k, ∀ y, xs[j]? = some y → p y = false := by
  induction xs with
  | nil => simp [report]
  | cons x xs ih =>
    cases hp : p x with
    | true =>
      rw [List.filter_cons_of_pos hp, List.map_cons, report, Except.error.injEq]
      constructor
      · exact fun h => ⟨0, x, rfl, hp, h, fun j hj => absurd hj (Nat.not_lt_zero j)⟩
      · rintro ⟨k, y, hk, -, hg, hbefore⟩
        rcases k with _ | k
        · obtain rfl := Option.some_inj.mp hk
          exact hg
        · exact absurd (hbefore 0 (Nat.succ_pos k) x rfl) (by simp [hp])
    | false =>
      rw [List.filter_cons_of_neg (by simp [hp]), ih]
      constructor
      · rintro ⟨k, y, hk, hy, hg, hbefore⟩
        refine ⟨k + 1, y, hk, hy, hg, fun j hj z hz => ?_⟩
        rcases j with _ | j
        · obtain rfl := Option.some_inj.mp hz
          exact hp
        · exact hbefore j (Nat.lt_of_succ_lt_succ hj) z hz
      · rintro ⟨k, y, hk, hy, hg, hbefore⟩
        rcases k with _ | k
        · obtain rfl := Option.some_inj.mp hk
          exact absurd hy (by simp [hp])
        · exact ⟨k, y, hk, hy, hg, fun j hj z hz => hbefore (j + 1) (Nat.succ_lt_succ hj) z hz⟩

/-- The fault can be found without following a path. -/
def Fault.IsLocal : Fault → Prop
  | .starts .. | .finals .. | .finalContinues .. | .unknownTarget .. | .misplacedCondition .. => True
  | .misfiled .. | .deadEnd .. | .cannotFinish .. | .outsideArena => False

namespace Automaton

variable {ε : Type u} {a : Automaton ε}

/-! ### Everything that is wrong -/

open Classical in
/-- What is wrong if not exactly the state at `x` has a role. -/
noncomputable def roleFaults (a : Automaton ε) (role : Role) (x : StateId)
    (fault : StateId → List StateId → Fault) : List Fault :=
  if ∀ i, a.HasRole i role ↔ i = x then [] else [fault x (a.idsOf role)]

/-- What is wrong if something leaves the final state. -/
def continuationFaults (a : Automaton ε) : List Fault :=
  match a.finalState? with
  | none => []
  | some s =>
    if s.transitions.isEmpty then [] else [.finalContinues s.name s.transitions.length]

/-- What is wrong with a transition of a state with this name. -/
def transitionFaults (a : Automaton ε) (name : String) (t : Transition ε) : List Fault :=
  (if t.target < a.size then [] else [.unknownTarget name t.action t.target]) ++
    if t.condition.isSome ↔ t.action ≠ .proceed then [] else [.misplacedCondition name t.action]

/-- What is wrong with the transitions of some states. -/
def edgeFaults (a : Automaton ε) (states : List (State ε)) : List Fault :=
  states.flatMap fun s => s.transitions.flatMap (a.transitionFaults s.name)

/-- What can be found wrong without following a path. -/
noncomputable def localFaults (a : Automaton ε) : List Fault :=
  a.roleFaults .start a.start .starts ++
    (a.roleFaults .final a.final .finals ++ a.continuationFaults ++ a.edgeFaults a.states)

/-- The state is reached from the start, and it is not the final one, but nothing leaves it. -/
def DeadEnd (a : Automaton ε) (s : State ε) : Prop :=
  a.Path a.start s.id ∧ s.role ≠ .final ∧ s.transitions = []

open Classical in
/-- Everything that is wrong with an automaton whose states are filed under their positions. -/
noncomputable def faults (a : Automaton ε) : List Fault :=
  a.localFaults ++
    ((a.states.filter fun s => a.DeadEnd s).map (fun s => .deadEnd s.name) ++
      (a.states.filter fun s => ¬ a.Path s.id a.final).map fun s => .cannotFinish s.name s.id)

/-! ### The parts of the audit -/

theorem andThen_congr {x x' y y' : Except Fault Unit} (h : x = x') (h' : x = .ok () → y = y') :
    (x >>= fun _ => y) = (x' >>= fun _ => y') := by
  subst h
  cases x with
  | error fault => rfl
  | ok u => exact h' rfl

theorem Filed.roleFaults_eq (hfiled : a.Filed) (role : Role) (x : StateId)
    (fault : StateId → List StateId → Fault) :
    a.roleFaults role x fault = if a.idsOf role = [x] then [] else [fault x (a.idsOf role)] := by
  rw [roleFaults]
  simp only [← hfiled.idsOf_eq_singleton_iff]

theorem Filed.auditStart_eq_report (hfiled : a.Filed) :
    a.auditStart = report (a.roleFaults .start a.start .starts) := by
  rw [auditStart, hfiled.roleFaults_eq]
  split <;> rfl

theorem Filed.exists_state?_of_idsOf (hfiled : a.Filed) {role : Role} {x : StateId}
    (h : a.idsOf role = [x]) : ∃ s, a.state? x = some s := by
  obtain ⟨s, hs, -⟩ := (hfiled.idsOf_eq_singleton_iff.mp h x).mpr rfl
  exact ⟨s, hs⟩

theorem Filed.auditFinal_eq_report (hfiled : a.Filed) :
    a.auditFinal = report (a.roleFaults .final a.final .finals ++ a.continuationFaults) := by
  rw [auditFinal, hfiled.roleFaults_eq]
  by_cases hids : a.idsOf .final = [a.final]
  · -- an id among those of a role is the position of a state, so the final state is there
    obtain ⟨s, hs⟩ := hfiled.exists_state?_of_idsOf hids
    rw [if_pos hids, if_pos hids, continuationFaults, finalState?, hs, List.nil_append]
    show (if s.transitions.isEmpty then _ else _) = report (if s.transitions.isEmpty then _ else _)
    split <;> rfl
  · rw [if_neg hids, if_neg hids]
    rfl

theorem auditTransitions_eq_report (name : String) (ts : List (Transition ε)) :
    a.auditTransitions name ts = report (ts.flatMap (a.transitionFaults name)) := by
  induction ts with
  | nil => rfl
  | cons t ts ih =>
    rw [auditTransitions, List.flatMap_cons, transitionFaults]
    by_cases htarget : t.target < a.size
    · rw [if_pos (holds_eq_true_iff.mpr htarget), if_pos htarget]
      by_cases hcond : t.action.needsCondition = t.condition.isSome
      · rw [if_pos hcond, if_pos (needsCondition_eq_isSome_iff.mp hcond)]
        exact ih
      · rw [if_neg hcond, if_neg fun h => hcond (needsCondition_eq_isSome_iff.mpr h)]
        rfl
    · rw [if_neg fun h => htarget (holds_eq_true_iff.mp h), if_neg htarget]
      rfl

theorem auditStates_eq_report {position : Nat} {states : List (State ε)}
    (hids : ∀ k s, states[k]? = some s → s.id = position + k) :
    a.auditStates position states = report (a.edgeFaults states) := by
  induction states generalizing position with
  | nil => rfl
  | cons s rest ih =>
    have hrest : a.auditStates (position + 1) rest = report (a.edgeFaults rest) := by
      refine ih fun k r hr => ?_
      rw [hids (k + 1) r hr, Nat.add_assoc, Nat.add_comm 1 k]
    have hid : s.id = position := hids 0 s rfl
    rw [auditStates, if_pos hid, edgeFaults, List.flatMap_cons, report_append,
      ← auditTransitions_eq_report]
    cases a.auditTransitions s.name s.transitions with
    | error fault => rfl
    | ok u => exact hrest

open Classical in
theorem auditDeadEnds_eq_report {reached : List StateId}
    (hreached : ∀ i, i ∈ reached ↔ a.Path a.start i) {states : List (State ε)}
    (hids : ∀ s ∈ states, s.id < a.size) :
    a.auditDeadEnds reached states =
      report ((states.filter fun s => a.DeadEnd s).map fun s => .deadEnd s.name) := by
  induction states with
  | nil => rfl
  | cons s rest ih =>
    obtain ⟨hid, hrest⟩ := List.forall_mem_cons.mp hids
    have hiff : (s.id ∈ reached ∧ ¬ s.isFinal ∧ s.transitions.isEmpty) ↔ a.DeadEnd s := by
      simp [DeadEnd, hreached, State.isFinal]
    rw [auditDeadEnds, if_pos (holds_eq_true_iff.mpr hid)]
    by_cases hdead : a.DeadEnd s
    · rw [if_pos (hiff.mpr hdead), List.filter_cons_of_pos (by simpa using hdead)]
      rfl
    · rw [if_neg fun h => hdead (hiff.mp h), List.filter_cons_of_neg (by simpa using hdead)]
      exact ih hrest

open Classical in
theorem auditFinish_eq_report {finishing : List StateId}
    (hfinishing : ∀ i, i ∈ finishing ↔ a.Path i a.final) {states : List (State ε)}
    (hids : ∀ s ∈ states, s.id < a.size) :
    a.auditFinish finishing states =
      report ((states.filter fun s => ¬ a.Path s.id a.final).map
        fun s => .cannotFinish s.name s.id) := by
  induction states with
  | nil => rfl
  | cons s rest ih =>
    obtain ⟨hid, hrest⟩ := List.forall_mem_cons.mp hids
    rw [auditFinish, if_pos (holds_eq_true_iff.mpr hid)]
    by_cases hpath : a.Path s.id a.final
    · rw [if_pos ((hfinishing s.id).mpr hpath), List.filter_cons_of_neg (by simpa using hpath)]
      exact ih hrest
    · rw [if_neg fun h => hpath ((hfinishing s.id).mp h),
        List.filter_cons_of_pos (by simpa using hpath)]
      rfl

/-! ### The audit as a whole -/

theorem Filed.id_lt (hfiled : a.Filed) : ∀ s ∈ a.states, s.id < a.size := by
  intro s hs
  obtain ⟨i, hi⟩ := mem_states_iff.mp hs
  rw [hfiled i s hi]
  exact lt_size_of_state? hi

theorem closed_of_auditStates (h : a.auditStates 0 a.states = .ok ()) : a.Closed := by
  intro i s hs t ht
  have htransitions := (auditStates_eq_ok_iff.mp h i s hs).2
  exact (auditTransitions_eq_ok_iff.mp htransitions t ht).1

/-- **The audit reports the first fault.** -/
theorem Filed.audit_eq_report (hfiled : a.Filed) : a.audit = report a.faults := by
  rw [audit, faults, localFaults, List.append_assoc, List.append_assoc]
  rw [report_append, report_append _ (_ ++ _), report_append (a.edgeFaults a.states)]
  refine andThen_congr hfiled.auditStart_eq_report fun hstart => ?_
  refine andThen_congr hfiled.auditFinal_eq_report fun hfinal => ?_
  have hstates : a.auditStates 0 a.states = report (a.edgeFaults a.states) := by
    refine auditStates_eq_report fun k s hk => ?_
    rw [hfiled k s hk, Nat.zero_add]
  refine andThen_congr hstates fun hedges => ?_
  -- what has been passed so far lets both searches give an answer
  have hclosed := closed_of_auditStates hedges
  obtain ⟨start, hstart⟩ := hfiled.exists_state?_of_idsOf (auditStart_eq_ok_iff.mp hstart)
  obtain ⟨-, final, hfinal, -⟩ := auditFinal_eq_ok_iff.mp hfinal
  obtain ⟨reached, hreached⟩ := exists_reachable hclosed (lt_size_of_state? hstart)
  obtain ⟨finishing, hfinishing⟩ := exists_finishing hfiled hclosed (lt_size_of_state? hfinal)
  rw [hreached, hfinishing, report_append]
  refine andThen_congr ?_ fun _ => ?_
  · exact auditDeadEnds_eq_report (fun i => mem_reachable_iff hclosed hreached) hfiled.id_lt
  · exact auditFinish_eq_report (fun i => mem_finishing_iff hfiled hfinishing) hfiled.id_lt

/-! ### States that lead nowhere -/

theorem mem_roleFaults {role : Role} {x : StateId} {wrap : StateId → List StateId → Fault}
    {fault : Fault} (h : fault ∈ a.roleFaults role x wrap) : fault = wrap x (a.idsOf role) := by
  rw [roleFaults] at h
  split at h
  · simp at h
  · exact List.mem_singleton.mp h

theorem mem_continuationFaults {fault : Fault} (h : fault ∈ a.continuationFaults) :
    ∃ name transitions, fault = .finalContinues name transitions := by
  rw [continuationFaults] at h
  split at h
  · simp at h
  · split at h
    · simp at h
    · exact ⟨_, _, List.mem_singleton.mp h⟩

theorem mem_transitionFaults {name : String} {t : Transition ε} {fault : Fault}
    (h : fault ∈ a.transitionFaults name t) :
    fault = .unknownTarget name t.action t.target ∨ fault = .misplacedCondition name t.action := by
  rw [transitionFaults] at h
  rcases List.mem_append.mp h with h | h <;> split at h <;> simp_all

theorem isLocal_of_mem_localFaults {fault : Fault} (h : fault ∈ a.localFaults) : fault.IsLocal := by
  simp only [localFaults, List.mem_append] at h
  rcases h with hstart | (hfinal | hcontinues) | hedge
  · rw [mem_roleFaults hstart]
    trivial
  · rw [mem_roleFaults hfinal]
    trivial
  · obtain ⟨name, transitions, rfl⟩ := mem_continuationFaults hcontinues
    trivial
  · obtain ⟨s, -, hs⟩ := List.mem_flatMap.mp hedge
    obtain ⟨t, -, ht⟩ := List.mem_flatMap.mp hs
    rcases mem_transitionFaults ht with rfl | rfl <;> trivial

theorem report_localFaults_ne {fault : Fault} (h : ¬ fault.IsLocal) :
    report a.localFaults ≠ .error fault :=
  fun hreport => h (isLocal_of_mem_localFaults (mem_of_report_eq_error hreport))

open Classical in
/-- A dead end is reported if there is no local fault, and it is the first one. -/
theorem Filed.audit_eq_deadEnd_iff (hfiled : a.Filed) {name : String} :
    a.audit = .error (.deadEnd name) ↔ a.localFaults = [] ∧
      ∃ i s, a.state? i = some s ∧ a.DeadEnd s ∧ s.name = name ∧
        ∀ j < i, ∀ r, a.state? j = some r → ¬ a.DeadEnd r := by
  have hlocal : report a.localFaults ≠ .error (.deadEnd name) := report_localFaults_ne id
  have hfinish : report ((a.states.filter fun s => ¬ a.Path s.id a.final).map
      fun s => .cannotFinish s.name s.id) ≠ .error (.deadEnd name) :=
    report_map_ne _ (by simp)
  rw [hfiled.audit_eq_report, faults, report_append_eq_error_iff, or_iff_right hlocal,
    report_append_eq_error_iff, or_iff_left fun h => hfinish h.2, report_filter_eq_error_iff]
  simp only [decide_eq_true_eq, decide_eq_false_iff_not, Fault.deadEnd.injEq]
  rfl

open Classical in
/-- A state that cannot finish is reported if there is nothing else, and it is the first one. -/
theorem Filed.audit_eq_cannotFinish_iff (hfiled : a.Filed) {name : String} {id : StateId} :
    a.audit = .error (.cannotFinish name id) ↔
      a.localFaults = [] ∧ (∀ s ∈ a.states, ¬ a.DeadEnd s) ∧
        ∃ s, a.state? id = some s ∧ s.name = name ∧ ¬ a.Path id a.final ∧
          ∀ j < id, a.Path j a.final := by
  have hlocal : report a.localFaults ≠ .error (.cannotFinish name id) :=
    report_localFaults_ne fun h => h
  have hdead : report ((a.states.filter fun s => a.DeadEnd s).map fun s => .deadEnd s.name) ≠
      .error (.cannotFinish name id) :=
    report_map_ne _ (by simp)
  rw [hfiled.audit_eq_report, faults, report_append_eq_error_iff, or_iff_right hlocal,
    report_append_eq_error_iff, or_iff_right hdead, report_filter_eq_error_iff,
    List.map_eq_nil_iff, List.filter_eq_nil_iff]
  simp only [decide_eq_true_eq, decide_eq_false_iff_not, not_not, Fault.cannotFinish.injEq]
  refine and_congr_right fun _ => and_congr_right fun _ => ?_
  -- the id in the fault is the position of the state
  constructor
  · rintro ⟨k, s, hs, hstuck, ⟨rfl, rfl⟩, hbefore⟩
    have hid : s.id = k := hfiled k s hs
    refine ⟨s, hid.symm ▸ hs, rfl, hstuck, fun j hj => ?_⟩
    rw [hid] at hj
    obtain ⟨r, hr⟩ := exists_state?_of_lt (Nat.lt_trans hj (lt_size_of_state? hs))
    exact hfiled j r hr ▸ hbefore j hj r hr
  · rintro ⟨s, hs, rfl, hstuck, hbefore⟩
    have hid : s.id = id := hfiled id s hs
    refine ⟨id, s, hs, by rwa [hid], ⟨rfl, hid⟩, fun j hj r hr => ?_⟩
    rw [hfiled j r hr]
    exact hbefore j hj

theorem not_path_of_transitions_eq_nil {i j : StateId} {s : State ε} (hs : a.state? i = some s)
    (hnone : s.transitions = []) (hne : i ≠ j) : ¬ a.Path i j := by
  intro hpath
  rcases Relation.ReflTransGen.cases_head hpath with heq | ⟨k, ⟨s', hs', t, ht, -⟩, -⟩
  · exact hne heq
  · obtain rfl := Option.some_inj.mp (hs.symm.trans hs')
    rw [hnone] at ht
    simp at ht

open Classical in
/-- If no other rule is broken, a state that cannot finish leads to such a report, about itself or a
state before it. -/
theorem Filed.exists_cannotFinish (hfiled : a.Filed) (hlocal : a.localFaults = [])
    (hdead : ∀ s ∈ a.states, ¬ a.DeadEnd s) {i : StateId} (hi : i < a.size)
    (hstuck : ¬ a.Path i a.final) :
    ∃ j ≤ i, ∃ name, a.audit = .error (.cannotFinish name j) := by
  have hexists : ∃ j, ¬ a.Path j a.final := ⟨i, hstuck⟩
  have hle : Nat.find hexists ≤ i := Nat.find_min' hexists hstuck
  obtain ⟨s, hs⟩ := exists_state?_of_lt (Nat.lt_of_le_of_lt hle hi)
  refine ⟨Nat.find hexists, hle, s.name, hfiled.audit_eq_cannotFinish_iff.mpr ⟨hlocal, hdead, s, hs,
    rfl, Nat.find_spec hexists, fun j hj => not_not.mp (Nat.find_min hexists hj)⟩⟩

theorem hasRole_final_of_localFaults (hlocal : a.localFaults = []) :
    a.HasRole a.final .final := by
  simp only [localFaults, List.append_eq_nil_iff] at hlocal
  obtain ⟨-, ⟨hfinal, -⟩, -⟩ := hlocal
  rw [roleFaults] at hfinal
  split at hfinal
  · rename_i hrole
    exact (hrole a.final).mpr rfl
  · simp at hfinal

end Automaton

open Automaton

/-- **The audit reports the first broken rule.**  The faults are listed in the order of the rules and of
the arena.  A dead end is reported as such only if it is reached from the start; a state that is not
reached and that nothing leaves is counted among those that cannot finish. -/
theorem audit_reports_first_fault {ε : Type u} {a : Automaton ε} (hfiled : a.Filed) :
    a.audit = report a.faults ∧
    (∀ name, a.audit = .error (.deadEnd name) ↔ a.localFaults = [] ∧
      ∃ i s, a.state? i = some s ∧ a.DeadEnd s ∧ s.name = name ∧
        ∀ j < i, ∀ r, a.state? j = some r → ¬ a.DeadEnd r) ∧
    (∀ name id, a.audit = .error (.cannotFinish name id) ↔
      a.localFaults = [] ∧ (∀ s ∈ a.states, ¬ a.DeadEnd s) ∧
        ∃ s, a.state? id = some s ∧ s.name = name ∧ ¬ a.Path id a.final ∧
          ∀ j < id, a.Path j a.final) ∧
    ∀ i s, a.state? i = some s → s.role ≠ .final → s.transitions = [] → ¬ a.Path a.start i →
      ¬ a.DeadEnd s ∧ (a.localFaults = [] → (∀ r ∈ a.states, ¬ a.DeadEnd r) →
        ∃ j ≤ i, ∃ name, a.audit = .error (.cannotFinish name j)) := by
  refine ⟨hfiled.audit_eq_report, fun name => hfiled.audit_eq_deadEnd_iff,
    fun name id => hfiled.audit_eq_cannotFinish_iff, fun i s hs hrole hnone hunreached => ?_⟩
  have hid : s.id = i := hfiled i s hs
  refine ⟨fun hdead => hunreached (hid ▸ hdead.1), fun hlocal hdead => ?_⟩
  have hne : i ≠ a.final := by
    rintro rfl
    obtain ⟨r, hr, hfinal⟩ := hasRole_final_of_localFaults hlocal
    obtain rfl := Option.some_inj.mp (hs.symm.trans hr)
    exact hrole hfinal
  exact hfiled.exists_cannotFinish hlocal hdead (lt_size_of_state? hs)
    (not_path_of_transitions_eq_nil hs hnone hne)

/-- An automaton with two states that cannot finish: nothing leads to the first, nothing leaves the
cycle at the second. -/
def lostAndTrapped : Automaton Nat where
  states := [⟨0, "end", .final, []⟩,
    ⟨1, "go", .start, [⟨.take, 0, some .always⟩, ⟨.take, 3, some .always⟩]⟩,
    ⟨2, "lost", .normal, []⟩,
    ⟨3, "trapped", .normal, [⟨.ignore, 3, some .always⟩]⟩]
  start := 1
  final := 0

theorem filed_lostAndTrapped : lostAndTrapped.Filed := by
  rintro (_ | _ | _ | _ | i) s hs
  case succ.succ.succ.succ => exact absurd (lt_size_of_state? hs) (by simp [size, lostAndTrapped])
  all_goals exact Option.some_inj.mp hs ▸ rfl

theorem report_faults_lostAndTrapped :
    lostAndTrapped.Filed ∧ report lostAndTrapped.faults = .error (.cannotFinish "lost" 2) ∧
      ∀ s ∈ lostAndTrapped.states, ¬ lostAndTrapped.DeadEnd s := by
  obtain ⟨hreport, -, hcannotFinish, -⟩ := audit_reports_first_fault filed_lostAndTrapped
  have hreached : lostAndTrapped.reachable? = some [1, 0, 3] := by
    simp [reachable?, lostAndTrapped, holds, size, explore, successors?, state?, claim,
      List.range_succ]
  have hfinishing : lostAndTrapped.finishing? = some [0, 1] := by
    simp [finishing?, lostAndTrapped, holds, size, explore, predecessors?, sources, claim,
      List.range_succ]
  have haudit : lostAndTrapped.audit = .error (.cannotFinish "lost" 2) := by
    rw [audit, hreached, hfinishing]
    rfl
  exact ⟨filed_lostAndTrapped, hreport.symm.trans haudit, ((hcannotFinish "lost" 2).mp haudit).2.1⟩

end ChainAutomata
