/-
The notices of a compilation.

What a compilation reports is written down here without compiling anything: the transitions of each
element in arena order and then the element itself, last element first, and in the end the pattern.

* `Pattern.transcript` — everything that can be reported about a pattern that compiles;
* `Draft.notices_addStep` — adding an element notices the transitions of its block, in arena order;
* `compile_eq_of_distinct` — a compilation emits of the transcript what the level lets through;
* `notices_replay_automaton` — the most verbose notices are the transitions of the automaton;
* `compile_with_level` — what a change of level changes;
* `notices_filtered_by_level` — a level does nothing but leave out notices.

Design notes: whether transitions are noticed is decided when the draft is begun, and whether
elements are, at each element.  Both turn out to be the one question whether notices of their level
are emitted, so that the transcript passes through a single filter.
-/
import ChainAutomata.Proofs.Placement

universe u

namespace ChainAutomata

variable {ε : Type u}

/-! ### What there is to report -/

/-- The notice of a transition. -/
def Transition.noticeFrom (source : StateId) (t : Transition ε) : Notice :=
  .connected source t.action t.target

/-- The notices of the transitions of a state, in order. -/
def State.noticesOf (s : State ε) : List Notice := s.transitions.map (Transition.noticeFrom s.id)

namespace Placed

/-- The notices of the transitions of an element, in arena order. -/
def connections (x : Placed ε) : List Notice := x.states.flatMap State.noticesOf

/-- The notice of an element. -/
def summary (x : Placed ε) : Notice :=
  .expanded x.step.name x.step.quantifier x.step.strictness x.states.length x.entry

/-- The transitions of an element and then the element itself. -/
def transcript (x : Placed ε) : List Notice := x.connections ++ [x.summary]

end Placed

/-- The elements of a pattern in arena order and then the pattern itself. -/
def Pattern.transcript (p : Pattern ε) : List Notice :=
  p.placed.flatMap Placed.transcript ++ [.compiled p.names (1 + (layout 1 0 p.steps).length)]

/-! ### What a draft reports -/

namespace Draft

/-- Notices of transitions, as far as a draft takes them down. -/
def heard (d : Draft ε) (ns : List Notice) : List Notice := if d.traced then ns else []

theorem heard_append (d : Draft ε) (ns ms : List Notice) :
    d.heard (ns ++ ms) = d.heard ns ++ d.heard ms := by
  rw [heard, heard, heard]
  split <;> rfl

@[simp] theorem heard_nil (d : Draft ε) : d.heard [] = [] := by
  rw [heard, ite_self]

@[simp] theorem notices_addState (d : Draft ε) (name : String) (role : Role) :
    (d.addState name role).notices = d.notices := rfl

@[simp] theorem heard_connect (d : Draft ε) (source : StateId) (t : Transition ε) :
    (d.connect source t).heard = d.heard := by
  rw [connect]
  split <;> rfl

theorem notices_connect (d : Draft ε) (source : StateId) (t : Transition ε) :
    (d.connect source t).notices = d.notices ++ d.heard [t.noticeFrom source] := by
  rw [connect, heard]
  split
  · rfl
  · rw [List.append_nil]
    rfl

/-- The notices of a call on a traced draft. -/
def Call.notices : Call ε → List Notice
  | .addState .. | .setRole .. => []
  | .take source target _ => [.connected source .take target]
  | .ignore source target _ => [.connected source .ignore target]
  | .proceed source target => [.connected source .proceed target]
  | .connect source t => [t.noticeFrom source]

theorem heard_call (d : Draft ε) (c : Call ε) : (d.call c).heard = d.heard := by
  cases c with
  | addState name role => rfl
  | setRole id role => rfl
  | take source target c => exact d.heard_connect source _
  | ignore source target c => exact d.heard_connect source _
  | proceed source target => exact d.heard_connect source _
  | connect source t => exact d.heard_connect source t

theorem notices_call (d : Draft ε) (c : Call ε) :
    (d.call c).notices = d.notices ++ d.heard c.notices := by
  cases c with
  | addState name role => rw [Call.notices, heard_nil, List.append_nil]; rfl
  | setRole id role => rw [Call.notices, heard_nil, List.append_nil]; rfl
  | take source target c => exact d.notices_connect source _
  | ignore source target c => exact d.notices_connect source _
  | proceed source target => exact d.notices_connect source _
  | connect source t => exact d.notices_connect source t

theorem heard_calls (d : Draft ε) (cs : List (Call ε)) : (cs.foldl call d).heard = d.heard := by
  induction cs generalizing d with
  | nil => rfl
  | cons c cs ih => rw [List.foldl_cons, ih, heard_call]

/-- Calls notice what each of them notices, in order. -/
theorem notices_calls (d : Draft ε) (cs : List (Call ε)) :
    (cs.foldl call d).notices = d.notices ++ d.heard (cs.flatMap Call.notices) := by
  induction cs generalizing d with
  | nil => simp
  | cons c cs ih =>
    rw [List.foldl_cons, ih, heard_call, notices_call, List.flatMap_cons, heard_append,
      List.append_assoc]

theorem heard_addStep (d : Draft ε) (step : Step ε) (next : Nat) :
    (d.addStep step next).1.heard = d.heard := by
  rw [addStep_fst, heard_calls]

/-- The calls for an element notice the transitions of its block, in arena order. -/
theorem notices_calls_of_step (step : Step ε) (role : Role) (k next : Nat) :
    (step.calls k next).flatMap Call.notices = Placed.connections ⟨step, role, k, next⟩ := by
  rw [Step.calls, Placed.connections, Placed.states, Step.block]
  -- the notices of a state do not depend on its role
  cases step.quantifier <;> cases hs : step.strictness <;>
    simp [Step.skipCalls, Step.waiting, Step.resting, Step.skips, State.noticesOf, Call.notices,
      Transition.noticeFrom, hs]

theorem notices_addStep (d : Draft ε) (step : Step ε) (role : Role) (next : Nat) :
    (d.addStep step next).1.notices =
      d.notices ++ d.heard (Placed.connections ⟨step, role, d.size, next⟩) := by
  rw [addStep_fst, notices_calls, notices_calls_of_step step role]

theorem length_states_addStep (d : Draft ε) (step : Step ε) (next : Nat) :
    (d.addStep step next).2.states.length = step.width := by
  rw [addStep_snd, Step.blockAt, Step.width]
  cases step.quantifier <;> rfl

theorem noticeOf_addStep (d : Draft ε) (step : Step ε) (role : Role) (next : Nat) :
    step.noticeOf (d.addStep step next).2 = Placed.summary ⟨step, role, d.size, next⟩ := by
  rw [Step.noticeOf, Placed.summary, length_states_addStep, entry_addStep, Placed.states,
    Step.length_block]
  rfl

theorem heard_addNoted (verbose : Bool) (d : Draft ε) (step : Step ε) (next : Nat) :
    (d.addNoted verbose step next).heard = d.heard := by
  rw [← d.heard_addStep step next, addNoted]
  split <;> rfl

theorem notices_addNoted (verbose : Bool) (d : Draft ε) (step : Step ε) (role : Role)
    (next : Nat) :
    (d.addNoted verbose step next).notices = d.notices ++
      (d.heard (Placed.connections ⟨step, role, d.size, next⟩) ++
        if verbose then [Placed.summary ⟨step, role, d.size, next⟩] else []) := by
  rw [← List.append_assoc, ← notices_addStep, ← noticeOf_addStep, addNoted]
  cases verbose with
  | false => exact (List.append_nil _).symm
  | true => rfl

/-- Adding elements notices them one after the other, each behind its transitions. -/
theorem notices_addSteps (verbose : Bool) (steps : List (Step ε)) (d : Draft ε) (next : Nat) :
    (addSteps verbose d next steps).1.notices = d.notices ++
      (placements d.size next steps).flatMap fun x =>
        d.heard x.connections ++ if verbose then [x.summary] else [] := by
  induction steps generalizing d next with
  | nil => simp [addSteps, placements]
  | cons step rest ih =>
    rw [addSteps_cons, ih, heard_addNoted, size_addNoted,
      notices_addNoted verbose d step (entryRole rest) next, List.append_assoc]
    rfl

theorem heard_empty (settings : Settings) (name : String) (role : Role) :
    (({ traced := settings.emits .trace } : Draft ε).addState name role).heard =
      fun ns => if settings.emits .trace then ns else [] := rfl

end Draft

/-! ### What passes -/

namespace Settings

/-- The notices of a list that the settings let through. -/
def passed (settings : Settings) (ns : List Notice) : List Notice :=
  ns.filter fun n => settings.emits n.level

theorem passed_append (settings : Settings) (ns ms : List Notice) :
    settings.passed (ns ++ ms) = settings.passed ns ++ settings.passed ms :=
  List.filter_append ns ms

theorem passed_flatMap {α : Type u} (settings : Settings) (xs : List α) (f : α → List Notice) :
    settings.passed (xs.flatMap f) = xs.flatMap fun x => settings.passed (f x) :=
  List.filter_flatMap

theorem passed_of_level {settings : Settings} {ns : List Notice} {l : Level}
    (h : ∀ n ∈ ns, n.level = l) : settings.passed ns = if settings.emits l then ns else [] := by
  rw [passed]
  split
  case isTrue hemits => exact List.filter_eq_self.mpr fun n hn => by rw [h n hn, hemits]
  case isFalse hemits => exact List.filter_eq_nil_iff.mpr fun n hn => by rwa [h n hn]

theorem passed_singleton (settings : Settings) (n : Notice) :
    settings.passed [n] = if settings.emits n.level then [n] else [] :=
  passed_of_level fun m hm => by rw [List.mem_singleton.mp hm]

theorem passed_eq_filter (settings : Settings) (ns : List Notice) :
    settings.passed ns = ns.filter fun n =>
      n.level.verbosity ≤ max Level.warn.verbosity settings.level.verbosity := by
  refine List.filter_congr fun n _ => ?_
  rw [Bool.eq_iff_iff, emits_eq_true_iff, decide_eq_true_eq]

/-- At the most verbose level everything passes. -/
theorem passed_of_trace {settings : Settings} (h : settings.level = .trace) (ns : List Notice) :
    settings.passed ns = ns := by
  rw [passed_eq_filter, List.filter_eq_self]
  intro n _
  rw [h]
  cases n.level <;> rfl

end Settings

namespace Placed

theorem level_of_mem_connections {x : Placed ε} : ∀ n ∈ x.connections, n.level = .trace := by
  intro n hn
  obtain ⟨s, -, hn⟩ := List.mem_flatMap.mp hn
  obtain ⟨t, -, rfl⟩ := List.mem_map.mp hn
  rfl

theorem passed_transcript (settings : Settings) (x : Placed ε) :
    settings.passed x.transcript =
      (if settings.emits .trace then x.connections else []) ++
        if settings.emits .debug then [x.summary] else [] := by
  rw [transcript, Settings.passed_append, Settings.passed_of_level level_of_mem_connections,
    Settings.passed_singleton]
  rfl

end Placed

/-- Nothing in a transcript is a warning or an error. -/
theorem Pattern.warn_lt_of_mem_transcript {p : Pattern ε} {n : Notice} (h : n ∈ p.transcript) :
    Level.warn.verbosity < n.level.verbosity := by
  rcases List.mem_append.mp h with h | h
  · obtain ⟨x, -, hn⟩ := List.mem_flatMap.mp h
    rcases List.mem_append.mp hn with hn | hn
    · rw [Placed.level_of_mem_connections n hn]
      decide
    · rw [List.mem_singleton.mp hn]
      exact Nat.lt_add_of_pos_right (Nat.succ_pos 1)
  · rw [List.mem_singleton.mp h]
    exact Nat.lt_succ_self _

theorem Pattern.passed_transcript_eq_nil {settings : Settings}
    (h : settings.level.verbosity ≤ Level.warn.verbosity) (p : Pattern ε) :
    settings.passed p.transcript = [] := by
  rw [Settings.passed_eq_filter, List.filter_eq_nil_iff]
  intro n hn
  rw [Nat.max_eq_left h, decide_eq_true_eq, Nat.not_le]
  exact Pattern.warn_lt_of_mem_transcript hn

/-- A draft takes down what the settings let through of the transcripts of its elements. -/
theorem Pattern.notices_draft (settings : Settings) (p : Pattern ε) :
    (p.draft settings).1.notices = settings.passed (p.placed.flatMap Placed.transcript) := by
  have hgrown := Draft.notices_addSteps (settings.emits .debug) p.steps
    (({ traced := settings.emits .trace } : Draft ε).addState settings.finalName .final) 0
  rw [Draft.heard_empty, Draft.notices_addState, List.nil_append] at hgrown
  rw [Pattern.draft]
  simp only [Draft.get_call?, Settings.passed_flatMap, Placed.passed_transcript]
  exact hgrown

section Compile

variable {settings : Settings} {p : Pattern ε}

theorem compile_eq_of_blank (h : settings.BlankFinalName) :
    compile settings p =
      (.error Settings.blankFinalName, [.unusable Settings.blankFinalName]) := by
  rw [compile, Settings.check_of_blank h]

theorem compile_eq_of_checkNames (hname : ¬ settings.BlankFinalName) {cause : DuplicateName}
    (h : p.checkNames = .error cause) :
    compile settings p =
      (.error (.malformedPattern cause), [.rejected p.last.name cause]) := by
  rw [compile, Settings.check_of_not_blank hname, h]

/-- A pattern that compiles is reported by what passes of its transcript. -/
theorem compile_eq_of_distinct (hname : ¬ settings.BlankFinalName) (h : ¬ p.RepeatsName) :
    compile settings p =
      (.ok (p.automaton settings.finalName), settings.passed p.transcript) := by
  have haudit := (p.wellFormed_automaton settings.finalName).audit_eq_ok
  rw [compile, Settings.check_of_not_blank hname, Pattern.checkNames_eq_ok_iff.mpr h]
  simp only [Pattern.build_draft, haudit, ite_self, Pattern.notices_draft]
  rw [Pattern.transcript, Settings.passed_append, Settings.passed_singleton, p.size_automaton]
  rfl

/-- A change of level changes nothing about a refusal, and otherwise only what passes. -/
theorem compile_with_level (settings : Settings) (p : Pattern ε) :
    (∃ cause n, n.level = .warn ∧
      ∀ level, compile { settings with level } p = (.error cause, [n])) ∨
    ∀ level, compile { settings with level } p =
      (.ok (p.automaton settings.finalName), { settings with level }.passed p.transcript) := by
  -- whether the name of the final state is blank does not depend on the level
  by_cases hname : settings.BlankFinalName
  · exact Or.inl ⟨_, _, rfl, fun level =>
      @compile_eq_of_blank _ { settings with level } p hname⟩
  · by_cases hrepeats : p.RepeatsName
    · obtain ⟨cause, hcause⟩ := Pattern.checkNames_of_repeatsName hrepeats
      exact Or.inl ⟨_, _, rfl, fun level =>
        @compile_eq_of_checkNames _ { settings with level } p hname cause hcause⟩
    · exact Or.inr fun level =>
        @compile_eq_of_distinct _ { settings with level } p hname hrepeats

end Compile

namespace Pattern

end Pattern

/-- **A level leaves out notices and does nothing else.**  What is emitted at a level is what is
emitted at the most verbose one, less the notices that are more verbose than the level and than
warnings, and the outcome is the same.  A refusal is reported by one warning at every level, and if
there is none, then levels that ask for no more than warnings are silent. -/
theorem notices_filtered_by_level (settings : Settings) (p : Pattern ε) :
    (∀ level, (compile { settings with level } p).2 =
      (compile { settings with level := .trace } p).2.filter fun n =>
        n.level.verbosity ≤ max Level.warn.verbosity level.verbosity) ∧
    (∀ level, (compile { settings with level } p).1 =
      (compile { settings with level := .trace } p).1) ∧
    ((∃ cause n, n.level = .warn ∧
        ∀ level, compile { settings with level } p = (.error cause, [n])) ∨
      ∃ a, (∀ level, (compile { settings with level } p).1 = .ok a) ∧
        (compile { settings with level := .warn } p).2 = [] ∧
        (compile { settings with level := .error } p).2 = []) := by
  rcases compile_with_level settings p with ⟨cause, n, hn, hrefused⟩ | hcompiles
  · refine ⟨fun level => ?_, fun level => ?_, Or.inl ⟨cause, n, hn, hrefused⟩⟩
    · have hpasses : n.level.verbosity ≤ max Level.warn.verbosity level.verbosity :=
        hn ▸ Nat.le_max_left _ _
      rw [hrefused, hrefused]
      refine (List.filter_eq_self.mpr fun m hm => ?_).symm
      rw [List.mem_singleton.mp hm, decide_eq_true hpasses]
    · rw [hrefused, hrefused]
  · have hautomaton : ∀ level, (compile { settings with level } p).1 =
        .ok (p.automaton settings.finalName) := fun level => by rw [hcompiles]
    have htrace : ({ settings with level := .trace } : Settings).passed p.transcript =
        p.transcript := Settings.passed_of_trace rfl _
    refine ⟨fun level => ?_, fun level => ?_, Or.inr ⟨_, hautomaton, ?_, ?_⟩⟩
    · rw [hcompiles, hcompiles, htrace, Settings.passed_eq_filter]
    · rw [hautomaton, hautomaton]
    · rw [hcompiles]
      exact Pattern.passed_transcript_eq_nil (Nat.le_refl _) p
    · rw [hcompiles]
      exact Pattern.passed_transcript_eq_nil (Nat.le_succ _) p

end ChainAutomata
