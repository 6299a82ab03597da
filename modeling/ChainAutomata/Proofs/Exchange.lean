/-
Which JSON values are settings.

A value is read key by key, or place by place if it is a list, and reading stops at the first thing
that is wrong.  What is accepted, and what it means, does not depend on that order:

* `Level.ofJson_eq_ok_iff` — how a level can be written;
* `Settings.exists_ofJson_iff` — a value is accepted when it has the right form and each part of it
  the right type;
* `Settings.ofJson_eq_ok_iff` — then it sets what it gives, and leaves the rest at its default;
* `settings_read_exactly` — hence members may come in any order, and a list is the object of the
  first settings.

Design notes: a list is brought to the form of an object, whose members pair its items with their
keys (`Settings.entries`).  Reading is described key by key, by what settings say under a key
(`Settings.Matches`) and by settings that say the same (`Settings.AgreeOn`), so that the three
settings share their arguments.
-/
import ChainAutomata.Settings.Exchange
import Mathlib.Data.List.Basic

namespace ChainAutomata

/-! ### Levels -/

namespace Level

/-- The words for a level. -/
def words : Level → List String
  | error => ["error"]
  | warn => ["warn", "warning"]
  | info => ["info"]
  | debug => ["debug"]
  | trace => ["trace"]

/-- A level is written as one of its words, or as an object with the word over nothing. -/
def WrittenAs (l : Level) (x : Json) : Prop :=
  ∃ word ∈ l.words, x = .text word ∨ x = .object [(word, .null)]

theorem ofLabel?_eq_some_iff {l : Level} {word : String} :
    ofLabel? word = some l ↔ word ∈ l.words := by
  rw [ofLabel?]
  constructor
  · intro h
    split_ifs at h <;> simp_all <;> subst h <;> simp [words]
  · intro h
    cases l <;> simp only [words, List.mem_cons, List.not_mem_nil, or_false] at h <;>
      rcases h with rfl | rfl <;> simp

theorem ofWord_eq_ok_iff {l : Level} {word : String} : ofWord word = .ok l ↔ word ∈ l.words := by
  rw [← ofLabel?_eq_some_iff, ofWord]
  cases ofLabel? word <;> simp

/-- What can be read as a level is what is written for one. -/
theorem ofJson_eq_ok_iff {l : Level} {x : Json} : ofJson x = .ok l ↔ l.WrittenAs x := by
  cases x with
  | text word => simp [ofJson, WrittenAs, ofWord_eq_ok_iff]
  | object members =>
    rcases members with _ | ⟨⟨word, y⟩, _ | ⟨m, rest⟩⟩
    · simp [ofJson, WrittenAs]
    · -- the only shape that is looked into: the word counts if there is nothing under it
      have hword := fun l => @ofWord_eq_ok_iff l word
      cases hlevel : ofWord word with
      | error fault =>
        have hnone : word ∉ l.words := by simp [← hword, hlevel]
        simp [ofJson, WrittenAs, hlevel, hnone]
      | ok l' =>
        have hl' : word ∈ l.words ↔ l' = l := by simp [← hword, hlevel]
        cases y <;> simp [ofJson, WrittenAs, hlevel, hl']
    · simp [ofJson, WrittenAs]
  | _ => simp [ofJson, WrittenAs]

theorem WrittenAs.unique {l l' : Level} {x : Json} (h : l.WrittenAs x) (h' : l'.WrittenAs x) :
    l = l' :=
  Except.ok.inj ((ofJson_eq_ok_iff.mpr h).symm.trans (ofJson_eq_ok_iff.mpr h'))

end Level

namespace Settings

/-- The keys, in the order of the places of a list. -/
def keys : List String := ["final_state_name", "verify_invariants", "log_level"]

/-- What a value gives: the members of an object, or the items of a list under the keys of their
places. -/
def entries : Json → List (String × Json)
  | .object members => members
  | .array items => keys.zip items
  | _ => []

/-- An object has no other keys, and a list not more items than there are keys. -/
def InForm : Json → Prop
  | .object members => ∀ m ∈ members, m.1 ∈ keys
  | .array items => items.length ≤ keys.length
  | _ => False

/-- A value under a key is what the settings say. -/
@[mk_iff] inductive Matches (s : Settings) : String → Json → Prop
  | finalName : Matches s "final_state_name" (.text s.finalName)
  | audited : Matches s "verify_invariants" (.bool s.audited)
  | level {x : Json} (h : s.level.WrittenAs x) : Matches s "log_level" x

/-- Two settings say the same under a key. -/
def AgreeOn (key : String) (s t : Settings) : Prop :=
  (key = "final_state_name" → s.finalName = t.finalName) ∧
  (key = "verify_invariants" → s.audited = t.audited) ∧
  (key = "log_level" → s.level = t.level)

/-- Everything that is given is what the settings say, and the rest has its default. -/
structure Describes (v : Json) (s : Settings) : Prop where
  given : ∀ m ∈ entries v, s.Matches m.1 m.2
  absent : ∀ key, key ∉ (entries v).map Prod.fst → AgreeOn key s {}

variable {r s t : Settings} {key : String} {x : Json}

/-! ### Settings under their keys -/

theorem AgreeOn.symm (h : AgreeOn key s t) : AgreeOn key t s :=
  ⟨fun hkey => (h.1 hkey).symm, fun hkey => (h.2.1 hkey).symm, fun hkey => (h.2.2 hkey).symm⟩

theorem AgreeOn.trans (h : AgreeOn key r s) (h' : AgreeOn key s t) : AgreeOn key r t :=
  ⟨fun hkey => (h.1 hkey).trans (h'.1 hkey), fun hkey => (h.2.1 hkey).trans (h'.2.1 hkey),
    fun hkey => (h.2.2 hkey).trans (h'.2.2 hkey)⟩

/-- Settings that say the same under every key are the same. -/
theorem eq_of_agreeOn (h : ∀ key, AgreeOn key s t) : s = t := by
  have hname := (h "final_state_name").1 rfl
  have haudited := (h "verify_invariants").2.1 rfl
  have hlevel := (h "log_level").2.2 rfl
  cases s
  cases t
  simp_all

theorem Matches.congr (hs : s.Matches key x) (h : AgreeOn key s t) : t.Matches key x := by
  obtain ⟨hname, haudited, hlevel⟩ := h
  cases hs with
  | finalName => exact hname rfl ▸ .finalName
  | audited => exact haudited rfl ▸ .audited
  | level hwritten => exact .level (hlevel rfl ▸ hwritten)

/-- A value under a key leaves no choice. -/
theorem Matches.agreeOn (hs : s.Matches key x) (ht : t.Matches key x) : AgreeOn key s t := by
  rw [matches_iff] at hs ht
  refine ⟨?_, ?_, ?_⟩
  · rintro rfl
    simp_all
  · rintro rfl
    simp_all
  · rintro rfl
    simp only [String.reduceEq, false_and, and_true, false_or] at hs ht
    exact hs.unique ht

/-! ### Reading the members of an object -/

theorem setMember_eq_ok_iff : s.setMember key x = .ok t ↔
    (key = "final_state_name" ∧ ∃ name, x = .text name ∧ t = { s with finalName := name }) ∨
    (key = "verify_invariants" ∧ ∃ b, x = .bool b ∧ t = { s with audited := b }) ∨
    (key = "log_level" ∧ ∃ l : Level, l.WrittenAs x ∧ t = { s with level := l }) := by
  rw [setMember]
  split_ifs with hname haudited hlevel
  · cases x <;> simp [setFinalName, hname, eq_comm]
  · cases x <;> simp [setAudited, haudited, eq_comm]
  · simp only [← Level.ofJson_eq_ok_iff, setLevel, hlevel]
    cases Level.ofJson x <;> simp [eq_comm]
  · simp [hname, haudited, hlevel]

/-- What is under a key is set, and nothing else changes. -/
theorem matches_of_setMember (h : s.setMember key x = .ok t) :
    t.Matches key x ∧ ∀ other, other ≠ key → AgreeOn other t s := by
  rcases setMember_eq_ok_iff.mp h with
    ⟨rfl, name, rfl, rfl⟩ | ⟨rfl, b, rfl, rfl⟩ | ⟨rfl, l, hl, rfl⟩
  · refine ⟨.finalName, fun other hother => ?_⟩
    simp [AgreeOn, hother]
  · refine ⟨.audited, fun other hother => ?_⟩
    simp [AgreeOn, hother]
  · refine ⟨.level hl, fun other hother => ?_⟩
    simp [AgreeOn, hother]

/-- A member is accepted when some settings say the same. -/
theorem exists_setMember_iff (s : Settings) :
    (∃ t, s.setMember key x = .ok t) ↔ ∃ t : Settings, t.Matches key x := by
  constructor
  · rintro ⟨t, h⟩
    exact ⟨t, (matches_of_setMember h).1⟩
  · rintro ⟨t, h⟩
    cases h with
    | finalName => exact ⟨_, setMember_eq_ok_iff.mpr (Or.inl ⟨rfl, _, rfl, rfl⟩)⟩
    | audited => exact ⟨_, setMember_eq_ok_iff.mpr (Or.inr (Or.inl ⟨rfl, _, rfl, rfl⟩))⟩
    | level hl => exact ⟨_, setMember_eq_ok_iff.mpr (Or.inr (Or.inr ⟨rfl, _, hl, rfl⟩))⟩

theorem setMembers_cons_eq_ok_iff {m : String × Json} {rest : List (String × Json)} :
    s.setMembers (m :: rest) = .ok t ↔
      ∃ r, s.setMember m.1 m.2 = .ok r ∧ r.setMembers rest = .ok t := by
  obtain ⟨key, x⟩ := m
  rw [setMembers]
  cases s.setMember key x <;> simp

theorem exists_setMembers_iff {members : List (String × Json)} (s : Settings) :
    (∃ t, s.setMembers members = .ok t) ↔ ∀ m ∈ members, ∃ t : Settings, t.Matches m.1 m.2 := by
  induction members generalizing s with
  | nil => simp [setMembers]
  | cons m rest ih =>
    rw [List.forall_mem_cons, ← exists_setMember_iff s]
    constructor
    · rintro ⟨t, h⟩
      obtain ⟨r, hm, hrest⟩ := setMembers_cons_eq_ok_iff.mp h
      exact ⟨⟨r, hm⟩, (ih r).mp ⟨t, hrest⟩⟩
    · rintro ⟨⟨r, hm⟩, hrest⟩
      obtain ⟨t, ht⟩ := (ih r).mpr hrest
      exact ⟨t, setMembers_cons_eq_ok_iff.mpr ⟨r, hm, ht⟩⟩

/-- Members with different keys do not overwrite each other. -/
theorem matches_of_setMembers {members : List (String × Json)}
    (hkeys : (members.map Prod.fst).Nodup) (h : s.setMembers members = .ok t) :
    (∀ m ∈ members, t.Matches m.1 m.2) ∧
      ∀ key, key ∉ members.map Prod.fst → AgreeOn key t s := by
  induction members generalizing s with
  | nil =>
    obtain rfl : s = t := by simpa [setMembers] using h
    simp [AgreeOn]
  | cons m rest ih =>
    rw [List.map_cons, List.nodup_cons] at hkeys
    obtain ⟨r, hm, hrest⟩ := setMembers_cons_eq_ok_iff.mp h
    obtain ⟨hset, hkept⟩ := matches_of_setMember hm
    obtain ⟨hgiven, habsent⟩ := ih hkeys.2 hrest
    constructor
    · rintro m' hm'
      rcases List.mem_cons.mp hm' with rfl | hm'
      · -- the members behind it leave this key alone
        exact hset.congr (habsent _ hkeys.1).symm
      · exact hgiven m' hm'
    · intro key hkey
      rw [List.map_cons, List.mem_cons, not_or] at hkey
      exact (habsent key hkey.2).trans (hkept key hkey.1)

/-! ### Reading a value -/

variable {v : Json}

/-- Items are set like members with the keys of their places; items past the last key are too
many. -/
theorem setItems_eq_ok_iff {count : Nat} {ks : List String} {items : List Json} :
    setItems count s (ks.map fun key s x => s.setMember key x) items = .ok t ↔
      items.length ≤ ks.length ∧ s.setMembers (ks.zip items) = .ok t := by
  induction ks generalizing s items with
  | nil => cases items <;> simp [setItems, setMembers]
  | cons key ks ih =>
    cases items with
    | nil => simp [setItems, setMembers]
    | cons x items =>
      rw [List.zip_cons_cons, List.map_cons, setItems, setMembers, List.length_cons,
        List.length_cons, Nat.add_le_add_iff_right]
      cases s.setMember key x with
      | ok r => exact ih
      | error fault => simp

theorem places_eq_map_keys :
    [setFinalName, setAudited, setLevel] = keys.map fun key s x => s.setMember key x := by
  simp [keys, setMember]

theorem ofJson_array_eq_ok_iff {items : List Json} :
    ofJson (.array items) = .ok s ↔
      items.length ≤ keys.length ∧ ofJson (.object (keys.zip items)) = .ok s := by
  rw [ofJson, ofJson, places_eq_map_keys, setItems_eq_ok_iff]

/-- A value is accepted when its form is right and each entry is what some settings say. -/
theorem exists_ofJson_iff :
    (∃ s, ofJson v = .ok s) ↔ InForm v ∧ ∀ m ∈ entries v, ∃ s : Settings, s.Matches m.1 m.2 := by
  have hknown : ∀ {key x}, (∃ s : Settings, s.Matches key x) → key ∈ keys := by
    rintro key x ⟨s, hs⟩
    cases hs <;> simp [keys]
  cases v with
  | object members =>
    rw [ofJson, exists_setMembers_iff]
    exact ⟨fun h => ⟨fun m hm => hknown (h m hm), h⟩, fun h => h.2⟩
  | array items =>
    simp only [ofJson_array_eq_ok_iff, exists_and_left]
    rw [ofJson, exists_setMembers_iff]
    rfl
  | _ => simp [ofJson, InForm]

theorem describes_of_ofJson (hkeys : ((entries v).map Prod.fst).Nodup) (h : ofJson v = .ok s) :
    Describes v s := by
  have hset : ({} : Settings).setMembers (entries v) = .ok s := by
    cases v with
    | object members => exact h
    | array items => exact (ofJson_array_eq_ok_iff.mp h).2
    | _ => simp [ofJson] at h
  obtain ⟨hgiven, habsent⟩ := matches_of_setMembers hkeys hset
  exact ⟨hgiven, habsent⟩

/-- A value describes one choice of settings at most. -/
theorem Describes.unique (hs : Describes v s) (ht : Describes v t) : s = t := by
  refine eq_of_agreeOn fun key => ?_
  by_cases hkey : key ∈ (entries v).map Prod.fst
  · obtain ⟨m, hm, rfl⟩ := List.mem_map.mp hkey
    exact (hs.given m hm).agreeOn (ht.given m hm)
  · exact (hs.absent key hkey).trans (ht.absent key hkey).symm

/-- **What a value means.** -/
theorem ofJson_eq_ok_iff (hkeys : ((entries v).map Prod.fst).Nodup) :
    ofJson v = .ok s ↔ InForm v ∧ Describes v s := by
  constructor
  · intro h
    exact ⟨(exists_ofJson_iff.mp ⟨s, h⟩).1, describes_of_ofJson hkeys h⟩
  · rintro ⟨hform, hs⟩
    obtain ⟨t, ht⟩ := exists_ofJson_iff.mpr ⟨hform, fun m hm => ⟨s, hs.given m hm⟩⟩
    rw [ht, hs.unique (describes_of_ofJson hkeys ht)]

theorem InForm.perm {members members' : List (String × Json)} (hperm : members.Perm members')
    (h : InForm (.object members)) : InForm (.object members') :=
  fun m hm => h m (hperm.mem_iff.mpr hm)

theorem Describes.perm {members members' : List (String × Json)} (hperm : members.Perm members')
    (h : Describes (.object members) s) : Describes (.object members') s := by
  refine ⟨fun m hm => h.given m (hperm.mem_iff.mpr hm), fun key hkey => h.absent key fun hmem => ?_⟩
  exact hkey ((hperm.map Prod.fst).mem_iff.mp hmem)

end Settings

open Settings in
/-- **Which values are settings, and which settings they are.**  A value is accepted when it is an
object without other keys or a list of at most as many items as there are keys, and whatever it
gives is what some settings say.  Then what is given is set, and the rest has its default.  So the
order of members does not matter, a list is the object of the first settings, and settings survive
the exchange. -/
theorem settings_read_exactly :
    (∀ v, (∃ s, ofJson v = .ok s) ↔
      InForm v ∧ ∀ m ∈ entries v, ∃ s : Settings, s.Matches m.1 m.2) ∧
    (∀ v s, ((entries v).map Prod.fst).Nodup → (ofJson v = .ok s ↔ InForm v ∧ Describes v s)) ∧
    (∀ members members' s, members.Perm members' → (members.map Prod.fst).Nodup →
      (ofJson (.object members) = .ok s ↔ ofJson (.object members') = .ok s)) ∧
    (∀ items s, items.length ≤ keys.length →
      (ofJson (.array items) = .ok s ↔ ofJson (.object (keys.zip items)) = .ok s)) ∧
    ∀ s, ofJson s.toJson = .ok s := by
  refine ⟨fun v => exists_ofJson_iff, fun v s hkeys => ofJson_eq_ok_iff hkeys, ?_, ?_,
    ofJson_toJson⟩
  · intro members members' s hperm hkeys
    have hkeys' : (members'.map Prod.fst).Nodup := (hperm.map Prod.fst).nodup_iff.mp hkeys
    rw [ofJson_eq_ok_iff (v := .object members) hkeys,
      ofJson_eq_ok_iff (v := .object members') hkeys']
    constructor
    · rintro ⟨hform, hs⟩
      exact ⟨hform.perm hperm, hs.perm hperm⟩
    · rintro ⟨hform, hs⟩
      exact ⟨hform.perm hperm.symm, hs.perm hperm.symm⟩
  · intro items s hlength
    rw [ofJson_array_eq_ok_iff, and_iff_right hlength]

open Settings in
/-- A level in its second spelling and a name, in either order; a level with something under it. -/
theorem ofJson_nameAndWarning :
    let level := ("log_level", Json.object [("warning", .null)])
    let name := ("final_state_name", Json.text "done")
    ofJson (.object [level, name]) = .ok ⟨"done", true, .warn⟩ ∧
      ofJson (.object [name, level]) = .ok ⟨"done", true, .warn⟩ ∧
      ofJson (.array [.text "done"]) = .ok ⟨"done", true, .warn⟩ ∧
      ¬ ∃ s, ofJson (.object [("log_level", .object [("warning", .bool true)])]) = .ok s := by
  intro level name
  obtain ⟨haccepted, hmeaning, horder, hlist, -⟩ := settings_read_exactly
  have hlevel : Level.warn.WrittenAs (.object [("warning", .null)]) :=
    ⟨"warning", by simp [Level.words], Or.inr rfl⟩
  have hboth : ofJson (.object [level, name]) = .ok ⟨"done", true, .warn⟩ := by
    refine (hmeaning _ _ (by simp [entries, level, name])).mpr
      ⟨by simp [InForm, keys, level, name], ?_, fun key hkey => ?_⟩
    · simp only [entries, List.forall_mem_cons]
      exact ⟨.level hlevel, .finalName, fun m hm => absurd hm List.not_mem_nil⟩
    · simp_all [AgreeOn, entries, level, name]
  have hname : ofJson (.object [name]) = .ok ⟨"done", true, .warn⟩ := by
    refine (hmeaning _ _ (by simp [entries])).mpr
      ⟨by simp [InForm, keys, name], ?_, fun key hkey => ?_⟩
    · simp only [entries, List.forall_mem_cons]
      exact ⟨.finalName, fun m hm => absurd hm List.not_mem_nil⟩
    · simp_all [AgreeOn, entries, name]
  refine ⟨hboth, ?_, ?_, ?_⟩
  · exact (horder _ _ _ (.swap name level []) (by simp [level, name])).mp hboth
  · exact (hlist [.text "done"] _ (by simp [keys])).mpr hname
  · rw [haccepted]
    rintro ⟨-, hentries⟩
    obtain ⟨s, hs⟩ := hentries _ List.mem_cons_self
    simp [matches_iff, Level.WrittenAs] at hs

end ChainAutomata
