/-
Exported snapshots read back.

The exported text of a snapshot is JSON, and the snapshot can be read off its value.  Nothing is
asked of the names and conditions, which can hold any characters or none at all.

* `Snapshot.ofJson?` — the snapshot that a value describes;
* `Snapshot.plain_toJson` — the value of a snapshot is determined by its text;
* `Snapshot.ofJson?_toJson` — the value of a snapshot describes that snapshot;
* `export_loses_nothing` — what can be read in an exported text.

Design notes: fields are looked up by their keys, so their order does not matter.  A transition whose
condition is missing has no such field, which an empty condition has.  Numbers of states have no
bound here; the reader that keeps numbers in words reads those that fit.
-/
import ChainAutomata.Proofs.Reading
import ChainAutomata.Snapshot

namespace ChainAutomata

/-! ### Reading values -/

namespace Json

/-- The text that a value is. -/
def text? : Json → Option String
  | text s => some s
  | _ => none

/-- The natural number that a value is. -/
def natural? : Json → Option Nat
  | integer (.ofNat n) => some n
  | _ => none

/-- The list that a value is, given what its items are. -/
def list? {α : Type} (item? : Json → Option α) : Json → Option (List α)
  | array xs => xs.mapM item?
  | _ => none

/-- What the value of a key is. -/
def field? {α : Type} (x : Json) (key : String) (read? : Json → Option α) : Option α :=
  (x.member? key).bind read?

/-- What the value of a key is, if the key is there. -/
def optionalField? {α : Type} (x : Json) (key : String) (read? : Json → Option α) :
    Option (Option α) :=
  match x.member? key with
  | none => some none
  | some y => (read? y).map some

theorem natural?_integer (n : Nat) : natural? (integer n) = some n := rfl

theorem list?_array_map {α : Type} {item? : Json → Option α} {toJson : α → Json}
    (h : ∀ a, item? (toJson a) = some a) (as : List α) :
    list? item? (array (as.map toJson)) = some as := by
  show (as.map toJson).mapM item? = some as
  induction as with
  | nil => rfl
  | cons a as ih => simp [List.mapM_cons, h a, ih]

end Json

/-- The action with a label. -/
def Action.ofLabel? (s : String) : Option Action :=
  if s = "TAKE" then some take
  else if s = "IGNORE" then some ignore
  else if s = "PROCEED" then some proceed
  else none

/-- The role with a label. -/
def Role.ofLabel? (s : String) : Option Role :=
  if s = "start" then some start
  else if s = "normal" then some normal
  else if s = "final" then some final
  else none

theorem Action.ofLabel?_label (a : Action) : ofLabel? a.label = some a := by
  cases a <;> rfl

theorem Role.ofLabel?_label (r : Role) : ofLabel? r.label = some r := by
  cases r <;> rfl

/-! ### Transitions, states and snapshots -/

variable {kind : Int → Prop}

namespace TransitionView

/-- The transition that a value describes. -/
def ofJson? (x : Json) : Option TransitionView := do
  let action ← x.field? "action" fun y => y.text?.bind Action.ofLabel?
  let target ← x.field? "target" Json.natural?
  let targetName ← x.field? "target_name" Json.text?
  let condition ← x.optionalField? "condition" Json.text?
  some ⟨action, target, targetName, condition⟩

theorem ofJson?_toJson (t : TransitionView) : ofJson? t.toJson = some t := by
  obtain ⟨action, target, targetName, condition⟩ := t
  cases condition <;>
    simp [ofJson?, toJson, Json.field?, Json.optionalField?, Json.member?, Json.text?,
      Json.natural?_integer, Action.ofLabel?_label]

theorem plain_toJson {t : TransitionView} (h : kind t.target) : t.toJson.Plain kind := by
  obtain ⟨action, target, targetName, condition⟩ := t
  cases condition with
  | none =>
    refine .object _ (show ["action", "target", "target_name"].Nodup by decide) ?_
    simp [Json.Plain.text, Json.Plain.integer _ h]
  | some c =>
    refine .object _ (show ["action", "target", "target_name", "condition"].Nodup by decide) ?_
    simp [Json.Plain.text, Json.Plain.integer _ h]

end TransitionView

namespace StateView

/-- The state that a value describes. -/
def ofJson? (x : Json) : Option StateView := do
  let id ← x.field? "id" Json.natural?
  let name ← x.field? "name" Json.text?
  let role ← x.field? "kind" fun y => y.text?.bind Role.ofLabel?
  let transitions ← x.field? "transitions" (Json.list? TransitionView.ofJson?)
  some ⟨id, name, role, transitions⟩

theorem ofJson?_toJson (s : StateView) : ofJson? s.toJson = some s := by
  simp [ofJson?, toJson, Json.field?, Json.member?, Json.text?, Json.natural?_integer,
    Role.ofLabel?_label, Json.list?_array_map TransitionView.ofJson?_toJson]

/-- The numbers in the view of a state. -/
def numbers (s : StateView) : List Nat := s.id :: s.transitions.map TransitionView.target

theorem plain_toJson {s : StateView} (h : ∀ n ∈ s.numbers, kind n) : s.toJson.Plain kind := by
  obtain ⟨hid, htargets⟩ := List.forall_mem_cons.mp h
  have htransitions : ∀ x ∈ s.transitions.map TransitionView.toJson, x.Plain kind := by
    intro x hx
    obtain ⟨t, ht, rfl⟩ := List.mem_map.mp hx
    exact TransitionView.plain_toJson (htargets _ (List.mem_map_of_mem ht))
  refine .object _ (show ["id", "name", "kind", "transitions"].Nodup by decide) ?_
  simp [Json.Plain.text, Json.Plain.integer _ hid, Json.Plain.array _ htransitions]

end StateView

namespace Snapshot

/-- The snapshot that a value describes. -/
def ofJson? (x : Json) : Option Snapshot := do
  let start ← x.field? "start" Json.natural?
  let states ← x.field? "states" (Json.list? StateView.ofJson?)
  some ⟨start, states⟩

theorem ofJson?_toJson (s : Snapshot) : ofJson? s.toJson = some s := by
  simp [ofJson?, toJson, Json.field?, Json.member?, Json.natural?_integer,
    Json.list?_array_map StateView.ofJson?_toJson]

/-- The numbers in a snapshot. -/
def numbers (s : Snapshot) : List Nat := s.start :: s.states.flatMap StateView.numbers

theorem plain_toJson {s : Snapshot} (h : ∀ n ∈ s.numbers, kind n) : s.toJson.Plain kind := by
  obtain ⟨hstart, hnumbers⟩ := List.forall_mem_cons.mp h
  have hstates : ∀ x ∈ s.states.map StateView.toJson, x.Plain kind := by
    intro x hx
    obtain ⟨v, hv, rfl⟩ := List.mem_map.mp hx
    exact StateView.plain_toJson fun n hn => hnumbers n (List.mem_flatMap.mpr ⟨v, hv, hn⟩)
  refine .object _ (show ["start", "states"].Nodup by decide) ?_
  simp [Json.Plain.integer _ hstart, Json.Plain.array _ hstates]

theorem parseWith?_exported {readNumber : List Char → Option (Json × List Char)} {s : Snapshot}
    (hkeeps : Json.Reader.Keeps readNumber kind) (h : ∀ n ∈ s.numbers, kind n) :
    Json.parseWith? readNumber s.exported = some s.toJson :=
  Json.parseWith?_indented hkeeps (plain_toJson h)

end Snapshot

/-! ### Exported texts -/

/-- **An export loses nothing.**  The text of a snapshot is JSON, also for a reader that keeps
numbers in words if they fit.  Its value describes that snapshot, and no other one has this text. -/
theorem export_loses_nothing (s : Snapshot) :
    Json.parseWith? Json.Reader.wholeNumber s.exported = some s.toJson ∧
    ((∀ n ∈ s.numbers, n < Nat.pow 2 64) → Json.parse? s.exported = some s.toJson) ∧
    Snapshot.ofJson? s.toJson = some s ∧
    ∀ t : Snapshot, t.exported = s.exported → t = s := by
  have hparse : ∀ t : Snapshot,
      Json.parseWith? Json.Reader.wholeNumber t.exported = some t.toJson :=
    fun t => t.parseWith?_exported Json.Reader.keeps_wholeNumber fun _ _ => trivial
  refine ⟨hparse s, fun hwords => ?_, s.ofJson?_toJson, fun t htext => ?_⟩
  · refine s.parseWith?_exported Json.Reader.keeps_number fun n hn => ?_
    have hlt := hwords n hn
    exact ⟨by omega, by omega⟩
  · have hvalue : t.toJson = s.toJson := by
      rw [← Option.some_inj, ← hparse t, ← hparse s, htext]
    have hsnapshot : some t = some s := by
      rw [← t.ofJson?_toJson, ← s.ofJson?_toJson, hvalue]
    exact Option.some_inj.mp hsnapshot

/-- A snapshot with empty lists and texts, the largest word, and characters that are escaped or not
of one byte. -/
def oddSnapshot : Snapshot where
  start := Nat.pow 2 64 - 1
  states := [
    ⟨0, "", .final, []⟩,
    ⟨1, "a \"b\" \\ c", .normal, [
      ⟨.ignore, 1, "\x00\t\x1f\n", some ""⟩,
      ⟨.take, 0, "≤ é 𝕏 /", some "x = \"\\u0041\""⟩,
      ⟨.proceed, 7, "", none⟩]⟩]

theorem export_oddSnapshot :
    (∀ n ∈ oddSnapshot.numbers, n < Nat.pow 2 64) ∧
    Json.parse? oddSnapshot.exported = some oddSnapshot.toJson ∧
    Snapshot.ofJson? oddSnapshot.toJson = some oddSnapshot :=
  have hwords : ∀ n ∈ oddSnapshot.numbers, n < Nat.pow 2 64 := by decide
  ⟨hwords, (export_loses_nothing oddSnapshot).2.1 hwords,
    (export_loses_nothing oddSnapshot).2.2.1⟩

end ChainAutomata
