/-
Distinct names: the names of a pattern tell its elements apart.

* `firstRepeated?` — the first entry of a list that already occurred before it;
* `Pattern.checkNames` — walks a chain from its last element to its first and refuses the first
  name that it meets again.

Main statement: `firstRepeated?_eq_none_iff`, nothing is found exactly when the list has no
duplicates.
-/
import ChainAutomata.Pattern

universe u

namespace ChainAutomata

open Inspection (Tree)

/-- Two elements of a pattern share a name. -/
structure DuplicateName where
  name : String
  deriving DecidableEq, Repr

namespace DuplicateName

def message (d : DuplicateName) : String :=
  "Duplicate pattern name: " ++ d.name ++ ". Pattern names must be unique."

def inspect (d : DuplicateName) : Tree :=
  .record "DuplicatePatternName" [("name", .text d.name)]

end DuplicateName

/-- The first entry that is among `seen` or among the entries before it. -/
def firstRepeated? (seen : List String) : List String → Option String
  | [] => none
  | name :: rest =>
    if name ∈ seen then some name else firstRepeated? (name :: seen) rest

theorem firstRepeated?_eq_none_iff {seen names : List String} :
    firstRepeated? seen names = none ↔ names.Nodup ∧ ∀ n ∈ names, n ∉ seen := by
  induction names generalizing seen with
  | nil => simp [firstRepeated?]
  | cons name rest ih =>
    by_cases h : name ∈ seen
    · simp [firstRepeated?, h]
    · rw [firstRepeated?, if_neg h, ih, List.nodup_cons]
      constructor
      · rintro ⟨hnd, hout⟩
        refine ⟨⟨fun hm => hout name hm (by simp), hnd⟩, ?_⟩
        intro n hn
        rcases List.mem_cons.mp hn with rfl | hn
        · exact h
        · exact fun hs => hout n hn (List.mem_cons_of_mem _ hs)
      · rintro ⟨⟨hnot, hnd⟩, hout⟩
        refine ⟨hnd, fun n hn hs => ?_⟩
        rcases List.mem_cons.mp hs with rfl | hs
        · exact hnot hn
        · exact hout n (List.mem_cons_of_mem _ hn) hs

/-- Refuses a pattern in which a name occurs twice, naming the first one met again on the way from
the last element to the first. -/
def Pattern.checkNames {ε : Type u} (p : Pattern ε) : Except DuplicateName Unit :=
  match firstRepeated? [] (p.steps.map Step.name) with
  | some name => .error ⟨name⟩
  | none => .ok ()

end ChainAutomata
