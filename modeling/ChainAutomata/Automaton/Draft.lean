/-
Drafts: automata under construction.

A draft starts empty and grows by states, each filed under its position, and by transitions, each
at the end of the list of the state that it leaves.  It also keeps the notices of its construction,
among them one per transition when it is traced.  A draft is changed by calls, and all that is
checked of a call is that the state it is about is there: targets may not exist, and conditions may
be missing.

* `Draft.Call`, `Draft.call?`, `Draft.calls?` — calls, one or several one after the other, without
  a result if one of them is about a state that is not there;
* `Draft.isSome_calls?_iff` — they succeed exactly when every call is about a state added before;
* `Draft.Filed.calls` — they keep every state filed under its own position.

Design notes: what a call does (`Draft.call`) is kept apart from the check that it may be made, so
that calls known to be in order are folded over a draft without a failure to reckon with
(`Draft.calls?_of_inOrder`).
-/
import ChainAutomata.Notice

universe u

namespace ChainAutomata

/-- An automaton under construction. -/
structure Draft (ε : Type u) where
  states : List (State ε) := []
  /-- Whether each new transition is noticed. -/
  traced : Bool := true
  notices : List Notice := []

namespace Draft

variable {ε : Type u}

/-- The number of states so far, which is also the position of the next one. -/
def size (d : Draft ε) : Nat := d.states.length

/-- Appends a state without transitions. -/
def addState (d : Draft ε) (name : String) (role : Role) : Draft ε :=
  { d with states := d.states ++ [{ id := d.size, name, role }] }

/-- Changes the state at a position that holds one. -/
def modifyState (d : Draft ε) (id : StateId) (f : State ε → State ε) : Draft ε :=
  { d with states := d.states.modify id f }

/-- Appends a notice. -/
def note (d : Draft ε) (n : Notice) : Draft ε := { d with notices := d.notices ++ [n] }

/-- Appends a transition to a state, with a notice of it on a traced draft. -/
def connect (d : Draft ε) (source : StateId) (t : Transition ε) : Draft ε :=
  let traced := if d.traced then d.note (.connected source t.action t.target) else d
  traced.modifyState source fun s => { s with transitions := s.transitions ++ [t] }

/-- Appends a transition that consumes an event under a condition. -/
def take (d : Draft ε) (source target : StateId) (c : Condition ε) : Draft ε :=
  d.connect source ⟨.take, target, some c⟩

/-- Appends a transition that skips an event under a condition. -/
def ignore (d : Draft ε) (source target : StateId) (c : Condition ε) : Draft ε :=
  d.connect source ⟨.ignore, target, some c⟩

/-- Appends a transition that consumes nothing. -/
def proceed (d : Draft ε) (source target : StateId) : Draft ε :=
  d.connect source ⟨.proceed, target, none⟩

/-- Gives a state another role. -/
def setRole (d : Draft ε) (id : StateId) (role : Role) : Draft ε :=
  d.modifyState id fun s => { s with role }

/-- The automaton with the states of the draft. -/
def build (d : Draft ε) (start final : StateId) : Automaton ε := ⟨d.states, start, final⟩

/-! ### Calls -/

/-- A call on a draft. -/
inductive Call (ε : Type u) where
  | addState (name : String) (role : Role)
  | take (source target : StateId) (c : Condition ε)
  | ignore (source target : StateId) (c : Condition ε)
  | proceed (source target : StateId)
  /-- Appends any transition, whether or not its condition is where it belongs. -/
  | connect (source : StateId) (t : Transition ε)
  | setRole (id : StateId) (role : Role)

/-- The state that a call changes. -/
def Call.subject? : Call ε → Option StateId
  | .addState .. => none
  | .take source .. | .ignore source .. | .proceed source _ | .connect source _ => some source
  | .setRole id _ => some id

/-- The number of states that a call adds. -/
def Call.added : Call ε → Nat
  | .addState .. => 1
  | _ => 0

/-- Every call is about a state that is there, given the number of states before the first. -/
def Call.InOrder : Nat → List (Call ε) → Prop
  | _, [] => True
  | n, c :: cs => (∀ id ∈ c.subject?, id < n) ∧ InOrder (n + c.added) cs

/-- What a call does, if the state that it is about is there. -/
def call (d : Draft ε) : Call ε → Draft ε
  | .addState name role => d.addState name role
  | .take source target c => d.take source target c
  | .ignore source target c => d.ignore source target c
  | .proceed source target => d.proceed source target
  | .connect source t => d.connect source t
  | .setRole id role => d.setRole id role

/-- Makes a call; there is no result if the state that it is about is not there. -/
def call? (d : Draft ε) (c : Call ε) : Option (Draft ε) :=
  if c.subject?.all (· < d.size) then some (d.call c) else none

/-- Makes calls one after the other. -/
def calls? (d : Draft ε) : List (Call ε) → Option (Draft ε)
  | [] => some d
  | c :: cs => d.call? c >>= fun d => d.calls? cs

variable {d d' : Draft ε}

@[simp] theorem size_addState (d : Draft ε) (name : String) (role : Role) :
    (d.addState name role).size = d.size + 1 := by
  simp [size, addState]

@[simp] theorem size_modifyState (d : Draft ε) (id : StateId) (f : State ε → State ε) :
    (d.modifyState id f).size = d.size := by
  simp [size, modifyState]

@[simp] theorem size_connect (d : Draft ε) (source : StateId) (t : Transition ε) :
    (d.connect source t).size = d.size := by
  rw [connect, size_modifyState]
  split <;> rfl

theorem size_call (d : Draft ε) (c : Call ε) : (d.call c).size = d.size + c.added := by
  cases c <;> simp [call, Call.added, take, ignore, proceed, setRole]

theorem call?_eq_some_iff {c : Call ε} :
    d.call? c = some d' ↔ (∀ id ∈ c.subject?, id < d.size) ∧ d.call c = d' := by
  rw [call?]
  cases c.subject? <;> simp

/-- A call succeeds exactly when the state that it is about is there. -/
theorem isSome_call?_iff {c : Call ε} :
    (d.call? c).isSome ↔ ∀ id ∈ c.subject?, id < d.size := by
  simp [Option.isSome_iff_exists, call?_eq_some_iff]

theorem get_call? {c : Call ε} (h : (d.call? c).isSome) : (d.call? c).get h = d.call c :=
  (call?_eq_some_iff.mp (Option.some_get h).symm).2.symm

/-- Calls in order do what each of them does, one after the other. -/
theorem calls?_of_inOrder {cs : List (Call ε)} (h : Call.InOrder d.size cs) :
    d.calls? cs = some (cs.foldl call d) := by
  induction cs generalizing d with
  | nil => rfl
  | cons c cs ih =>
    rw [Call.InOrder, ← size_call] at h
    rw [calls?, call?_eq_some_iff.mpr ⟨h.1, rfl⟩]
    exact ih h.2

/-- Calls succeed exactly when each is about a state that was added before. -/
theorem isSome_calls?_iff {cs : List (Call ε)} :
    (d.calls? cs).isSome ↔ Call.InOrder d.size cs := by
  constructor
  · intro h
    induction cs generalizing d with
    | nil => trivial
    | cons c cs ih =>
      obtain ⟨e, he⟩ := Option.isSome_iff_exists.mp h
      obtain ⟨d₁, hc, hcs⟩ := Option.bind_eq_some_iff.mp he
      obtain ⟨hsubject, rfl⟩ := call?_eq_some_iff.mp hc
      rw [Call.InOrder, ← size_call]
      exact ⟨hsubject, ih (Option.isSome_iff_exists.mpr ⟨e, hcs⟩)⟩
  · intro h
    rw [calls?_of_inOrder h]
    rfl

/-! ### States under their positions -/

/-- Every state is filed under its own position. -/
def Filed (d : Draft ε) : Prop := d.states.map State.id = List.range d.states.length

theorem filed_empty (traced : Bool) : Filed ({ traced } : Draft ε) := rfl

theorem Filed.addState (h : d.Filed) (name : String) (role : Role) :
    (d.addState name role).Filed := by
  unfold Filed at *
  simp [Draft.addState, h, size, List.range_succ]

theorem Filed.modifyState (h : d.Filed) (id : StateId) {f : State ε → State ε}
    (hf : ∀ s, (f s).id = s.id) : (d.modifyState id f).Filed := by
  unfold Filed at *
  simp only [Draft.modifyState, List.length_modify, ← h]
  apply List.ext_getElem?
  intro i
  simp only [List.getElem?_map, List.getElem?_modify]
  cases d.states[i]? with
  | none => rfl
  | some s => by_cases hi : id = i <;> simp [hi, hf]

theorem Filed.connect (h : d.Filed) (source : StateId) (t : Transition ε) :
    (d.connect source t).Filed := by
  unfold Draft.connect
  apply Filed.modifyState
  · split
    · exact h
    · exact h
  · exact fun _ => rfl

theorem Filed.setRole (h : d.Filed) (id : StateId) (role : Role) : (d.setRole id role).Filed :=
  h.modifyState id fun _ => rfl

theorem Filed.call (h : d.Filed) (c : Call ε) : (d.call c).Filed := by
  cases c with
  | addState name role => exact h.addState name role
  | take source target c => exact h.connect source _
  | ignore source target c => exact h.connect source _
  | proceed source target => exact h.connect source _
  | connect source t => exact h.connect source t
  | setRole id role => exact h.setRole id role

/-- Every state stays filed under its position. -/
theorem Filed.calls (hfiled : d.Filed) {cs : List (Call ε)} (h : d.calls? cs = some d') :
    d'.Filed := by
  induction cs generalizing d with
  | nil => exact Option.some_inj.mp h ▸ hfiled
  | cons c cs ih =>
    obtain ⟨d₁, hc, hcs⟩ := Option.bind_eq_some_iff.mp h
    exact ih ((call?_eq_some_iff.mp hc).2 ▸ hfiled.call c) hcs

end Draft

end ChainAutomata
