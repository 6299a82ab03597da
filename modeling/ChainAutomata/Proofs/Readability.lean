/-
Unique readability of condition texts.

The text of a condition puts conjunctions in parentheses, but not negations, and a type in it is two
words.  Nevertheless one structure at most can be read from a text, if no test has a text of its own
and the names of types are single words:

* `Condition.skeleton` — what is joined and what is negated, with the descriptions of the tests;
* `Skeleton.eq_of_chars_append` — a text is read off before a space or a closing parenthesis;
* `Condition.describe_eq_iff` — equal texts are equal skeletons;
* `State.sketch_describe_eq_iff` — the same for states whose conditions are seen as texts;
* `descriptions_show_structure` — the same for the snapshots of compiled patterns.

Design notes: parentheses are not counted.  The text of the left side of a conjunction is read off
before the space behind it, that of the right side before the parenthesis behind it, so all that the
induction needs to know about the rest of a text is its first character.
-/
import ChainAutomata.Proofs.Placement
import ChainAutomata.Proofs.Reconstruction

universe u v w

namespace ChainAutomata

variable {ε : Type u} {δ : Type v}

/-! ### Words -/

namespace Text

/-- No space and no parenthesis. -/
def IsWord (cs : List Char) : Prop := ∀ c ∈ cs, c ≠ ' ' ∧ c ≠ '(' ∧ c ≠ ')'

-- over the characters of the list, not over all there are
instance : DecidablePred IsWord := fun cs => List.decidableBAll _ cs

/-- What can come behind a word or a condition: nothing, or first a space or a closing
parenthesis. -/
def EndsWord (rest : List Char) : Prop := ∀ c ∈ rest.head?, c = ' ' ∨ c = ')'

/-- A word is read off before what ends it. -/
theorem IsWord.eq_of_append {xs ys rest rest' : List Char} (hxs : IsWord xs) (hys : IsWord ys)
    (hrest : EndsWord rest) (hrest' : EndsWord rest') (h : xs ++ rest = ys ++ rest') :
    xs = ys ∧ rest = rest' := by
  have hends : ∀ {c cs zs}, EndsWord (c :: zs) → ¬ IsWord (c :: cs) := by
    intro c cs zs hc hword
    obtain ⟨hspace, -, hparen⟩ := hword c List.mem_cons_self
    rcases hc c rfl with rfl | rfl
    · exact hspace rfl
    · exact hparen rfl
  induction xs generalizing ys with
  | nil =>
    cases ys with
    | nil => exact ⟨rfl, h⟩
    | cons y ys =>
      rw [List.nil_append, List.cons_append] at h
      exact absurd hys (hends (h ▸ hrest))
  | cons x xs ih =>
    cases ys with
    | nil =>
      rw [List.nil_append, List.cons_append] at h
      exact absurd hxs (hends (h ▸ hrest'))
    | cons y ys =>
      obtain ⟨rfl, htail⟩ := List.cons_eq_cons.mp h
      obtain ⟨rfl, hrests⟩ := ih (fun c hc => hxs c (List.mem_cons_of_mem _ hc))
        (fun c hc => hys c (List.mem_cons_of_mem _ hc)) htail
      exact ⟨rfl, hrests⟩

end Text

open Text (IsWord EndsWord)

/-! ### Texts of tests -/

/-- The text of a test that has none of its own: one word, or two if it names a type. -/
inductive IsTestText : List Char → Prop where
  | always : IsTestText "true".toList
  | function : IsTestText "fn".toList
  | unnamed : IsTestText "condition".toList
  | ofType {name : List Char} (h : IsWord name) : IsTestText ("subtype".toList ++ ' ' :: name)

namespace IsTestText

variable {cs ds rest rest' : List Char}

theorem isWord_or (h : IsTestText cs) :
    (IsWord cs ∧ cs ≠ "subtype".toList) ∨
      ∃ name, IsWord name ∧ cs = "subtype".toList ++ ' ' :: name := by
  cases h with
  | always => exact Or.inl (by decide)
  | function => exact Or.inl (by decide)
  | unnamed => exact Or.inl (by decide)
  | ofType hname => exact Or.inr ⟨_, hname, rfl⟩

/-- The first word of a test says whether a type follows. -/
theorem eq_of_append (hcs : IsTestText cs) (hds : IsTestText ds) (hrest : EndsWord rest)
    (hrest' : EndsWord rest') (h : cs ++ rest = ds ++ rest') : cs = ds ∧ rest = rest' := by
  have hword : IsWord "subtype".toList := by decide
  have hspace : ∀ zs, EndsWord (' ' :: zs) := fun zs c hc => Or.inl (Option.some_inj.mp hc).symm
  rcases hcs.isWord_or with ⟨hcs, hne⟩ | ⟨name, hname, rfl⟩
  · rcases hds.isWord_or with ⟨hds, -⟩ | ⟨name', -, rfl⟩
    · exact hcs.eq_of_append hds hrest hrest' h
    · rw [List.append_assoc, List.cons_append] at h
      exact absurd (hcs.eq_of_append hword hrest (hspace _) h).1 hne
  · rw [List.append_assoc, List.cons_append] at h
    rcases hds.isWord_or with ⟨hds, hne⟩ | ⟨name', hname', rfl⟩
    · exact absurd (hword.eq_of_append hds (hspace _) hrest' h).1.symm hne
    · rw [List.append_assoc, List.cons_append, List.append_cancel_left_eq] at h
      obtain ⟨rfl, hrests⟩ := hname.eq_of_append hname' hrest hrest' (List.cons_eq_cons.mp h).2
      exact ⟨rfl, hrests⟩

/-- A test is told from a conjunction and a negation by its first character. -/
theorem append_ne_cons (h : IsTestText cs) {c : Char} (hc : c = '(' ∨ c = 'N') (ds : List Char) :
    cs ++ rest ≠ c :: ds := by
  intro heq
  have hhead : cs.head? = some c := by
    cases h <;> exact congrArg List.head? heq
  revert hhead
  rcases hc with rfl | rfl <;> cases h <;> simp

end IsTestText

/-! ### Skeletons -/

/-- What is joined and what is negated in a condition, with the descriptions of its tests. -/
inductive Skeleton where
  | test (text : String)
  | both (left right : Skeleton)
  | negation (inner : Skeleton)
  deriving DecidableEq, Repr

namespace Skeleton

/-- The characters of the text of a condition with this skeleton. -/
def chars : Skeleton → List Char
  | test text => text.toList
  | both left right => '(' :: (left.chars ++ (" AND ".toList ++ (right.chars ++ [')'])))
  | negation inner => "NOT ".toList ++ inner.chars

/-- No test has a text of its own, and the names of types are words. -/
def Standard : Skeleton → Prop
  | test text => IsTestText text.toList
  | both left right => left.Standard ∧ right.Standard
  | negation inner => inner.Standard

/-- **A skeleton is read off its text before whatever may come behind it.** -/
theorem eq_of_chars_append {k l : Skeleton} (hk : k.Standard) (hl : l.Standard)
    {rest rest' : List Char} (hrest : EndsWord rest) (hrest' : EndsWord rest')
    (h : k.chars ++ rest = l.chars ++ rest') : k = l ∧ rest = rest' := by
  -- on the skeleton; the first character tells which of the three forms the other one has
  induction k generalizing l rest rest' with
  | test text =>
    cases l with
    | test text' =>
      obtain ⟨htext, hrests⟩ := IsTestText.eq_of_append hk hl hrest hrest' h
      rw [String.toList_inj.mp htext]
      exact ⟨rfl, hrests⟩
    | both left right => exact absurd h (IsTestText.append_ne_cons hk (Or.inl rfl) _)
    | negation inner => exact absurd h (IsTestText.append_ne_cons hk (Or.inr rfl) _)
  | both left right ihl ihr =>
    cases l with
    | test text => exact absurd h.symm (IsTestText.append_ne_cons hl (Or.inl rfl) _)
    | negation inner => simp [chars] at h
    | both left' right' =>
      simp only [chars, List.cons_append, List.append_assoc] at h
      -- a space comes behind the left side, and a parenthesis behind the right one
      obtain ⟨rfl, hright⟩ := ihl hk.1 hl.1 (by simp [EndsWord]) (by simp [EndsWord])
        (List.cons_eq_cons.mp h).2
      obtain ⟨rfl, hrests⟩ := ihr hk.2 hl.2 (by simp [EndsWord]) (by simp [EndsWord])
        (List.append_cancel_left hright)
      exact ⟨rfl, (List.cons_eq_cons.mp hrests).2⟩
  | negation inner ih =>
    cases l with
    | test text => exact absurd h.symm (IsTestText.append_ne_cons hl (Or.inr rfl) _)
    | both left right => simp [chars] at h
    | negation inner' =>
      simp only [chars, List.append_assoc] at h
      obtain ⟨rfl, hrests⟩ := ih (l := inner') hk hl hrest hrest' (List.append_cancel_left h)
      exact ⟨rfl, hrests⟩

theorem eq_of_chars_eq {k l : Skeleton} (hk : k.Standard) (hl : l.Standard)
    (h : k.chars = l.chars) : k = l := by
  have hnil : EndsWord [] := by simp [EndsWord]
  exact (eq_of_chars_append hk hl hnil hnil (congrArg (· ++ []) h)).1

end Skeleton

/-! ### Conditions -/

namespace Condition

variable {c : Condition ε} {d : Condition δ}

/-- What is joined and what is negated, with the descriptions of the tests. -/
def skeleton : Condition ε → Skeleton
  | both left right => .both left.skeleton right.skeleton
  | negation inner => .negation inner.skeleton
  | test => .test test.describe

/-- No test has a text of its own, and the names of types are words. -/
def Standard : Condition ε → Prop
  | always | function _ | unnamed _ => True
  | ofType type => IsWord type.name.toList
  | labelled _ _ => False
  | both left right => left.Standard ∧ right.Standard
  | negation inner => inner.Standard

instance decidableStandard : (c : Condition ε) → Decidable c.Standard
  | always | function _ | unnamed _ => .isTrue trivial
  | ofType type => inferInstanceAs (Decidable (IsWord type.name.toList))
  | labelled _ _ => .isFalse id
  | both left right => @instDecidableAnd _ _ (decidableStandard left) (decidableStandard right)
  | negation inner => decidableStandard inner

theorem toList_describe (c : Condition ε) : c.describe.toList = c.skeleton.chars := by
  induction c with
  | both left right ihl ihr =>
    simp [describe, skeleton, Skeleton.chars, String.toList_append, ihl, ihr]
  | negation inner ih => simp [describe, skeleton, Skeleton.chars, String.toList_append, ih]
  | _ => rfl

theorem Standard.skeleton (h : c.Standard) : c.skeleton.Standard := by
  induction c with
  | always => exact .always
  | ofType type =>
    show IsTestText ("subtype " ++ type.name).toList
    rw [String.toList_append]
    exact .ofType h
  | function probe => exact .function
  | unnamed probe => exact .unnamed
  | labelled label probe => exact h.elim
  | both left right ihl ihr => exact ⟨ihl h.1, ihr h.2⟩
  | negation inner ih => exact ih h

/-- Texts show the structure, and nothing else, of standard conditions. -/
theorem describe_eq_iff (hc : c.Standard) (hd : d.Standard) :
    c.describe = d.describe ↔ c.skeleton = d.skeleton := by
  rw [← String.toList_inj, toList_describe, toList_describe]
  exact ⟨Skeleton.eq_of_chars_eq hc.skeleton hd.skeleton, congrArg Skeleton.chars⟩

end Condition

/-! ### States seen by their texts -/

/-- Two ways to look at the entries of two lists tell the same if they do so of any two entries. -/
theorem map_eq_map_iff_of_forall {α β γ γ' : Type*} {f : α → γ} {g : β → γ} {f' : α → γ'}
    {g' : β → γ'} {xs : List α} {ys : List β}
    (h : ∀ x ∈ xs, ∀ y ∈ ys, f x = g y ↔ f' x = g' y) :
    xs.map f = ys.map g ↔ xs.map f' = ys.map g' := by
  induction xs generalizing ys with
  | nil => simp
  | cons x xs ih =>
    cases ys with
    | nil => simp
    | cons y ys =>
      have htail := ih fun x hx y hy =>
        h x (List.mem_cons_of_mem _ hx) y (List.mem_cons_of_mem _ hy)
      rw [List.map_cons, List.map_cons, List.map_cons, List.map_cons, List.cons_eq_cons,
        List.cons_eq_cons, htail, h x List.mem_cons_self y List.mem_cons_self]

/-- All conditions on the transitions of a state are standard. -/
def State.Standard (s : State ε) : Prop := ∀ t ∈ s.transitions, ∀ c ∈ t.condition, c.Standard

theorem State.sketch_describe_eq_iff {s : State ε} {s' : State δ} (hs : s.Standard)
    (hs' : s'.Standard) :
    s.sketch Condition.describe = s'.sketch Condition.describe ↔
      s.sketch Condition.skeleton = s'.sketch Condition.skeleton := by
  have hedges : ∀ t ∈ s.transitions, ∀ t' ∈ s'.transitions,
      ((t.action, t.target, t.condition.map Condition.describe) =
          (t'.action, t'.target, t'.condition.map Condition.describe) ↔
        (t.action, t.target, t.condition.map Condition.skeleton) =
          (t'.action, t'.target, t'.condition.map Condition.skeleton)) := by
    intro t ht t' ht'
    have hc := hs t ht
    have hc' := hs' t' ht'
    cases hcond : t.condition with
    | none => cases t'.condition <;> simp
    | some c =>
      cases hcond' : t'.condition with
      | none => simp
      | some c' => simp [Condition.describe_eq_iff (hc c hcond) (hc' c' hcond')]
  rw [sketch, sketch, sketch, sketch, Sketch.mk.injEq, Sketch.mk.injEq,
    map_eq_map_iff_of_forall hedges]

/-! ### Compiled patterns -/

/-- A condition on a transition of a block is what the element takes or what it refuses. -/
theorem Step.condition_of_mem_block {step : Step ε} {role : Role} {k next : Nat} {s : State ε}
    (hs : s ∈ step.block role k next) {t : Transition ε} (ht : t ∈ s.transitions)
    {c : Condition ε} (hc : c ∈ t.condition) : c = step.demand ∨ c = step.refusal := by
  rcases step.block_cases role k next with ⟨-, hblock⟩ | ⟨-, r, r', hblock⟩
  · rw [hblock, List.mem_singleton] at hs
    subst hs
    rcases eq_of_mem_waiting ht with rfl | rfl
    · exact Or.inl (Option.some_inj.mp hc).symm
    · exact Or.inr (Option.some_inj.mp hc).symm
  · rw [hblock, List.mem_pair] at hs
    rcases hs with rfl | rfl
    · rcases eq_of_mem_waiting ht with rfl | rfl
      · exact Or.inl (Option.some_inj.mp hc).symm
      · exact Or.inr (Option.some_inj.mp hc).symm
    · rcases eq_of_mem_resting ht with rfl | rfl | rfl
      · exact Or.inl (Option.some_inj.mp hc).symm
      · exact Or.inr (Option.some_inj.mp hc).symm
      · exact absurd hc (Option.not_mem_none c)

/-- If what the elements take is standard, so is every condition of the automaton. -/
theorem Pattern.standard_of_mem_states {p : Pattern ε} (h : ∀ step ∈ p.steps, step.demand.Standard)
    (finalName : String) : ∀ s ∈ (p.automaton finalName).states, s.Standard := by
  intro s hs t ht c hc
  rcases List.mem_cons.mp hs with rfl | hs
  · exact absurd ht List.not_mem_nil
  · rw [layout_eq_flatMap, List.mem_flatMap] at hs
    obtain ⟨x, hx, hs⟩ := hs
    have hstep : x.step ∈ p.steps := by
      rw [← p.map_step_placed]
      exact List.mem_map_of_mem hx
    -- a refusal is the negation of what is taken, and standard with it
    rcases Step.condition_of_mem_block hs ht hc with rfl | rfl
    · exact h x.step hstep
    · exact h x.step hstep

/-- **Texts of conditions show their structure.**  Standard conditions have equal texts exactly when
the same tests are joined and negated in the same way.  So the snapshots of patterns with such
conditions show exactly which conjunctions and negations were compiled. -/
theorem descriptions_show_structure :
    (∀ (c : Condition ε) (d : Condition δ), c.Standard → d.Standard →
      (c.describe = d.describe ↔ c.skeleton = d.skeleton)) ∧
    ∀ (settings settings' : Settings) (p : Pattern ε) (q : Pattern δ) (a : Automaton ε)
      (b : Automaton δ), (compile settings p).1 = .ok a → (compile settings' q).1 = .ok b →
      (∀ step ∈ p.steps, step.demand.Standard) → (∀ step ∈ q.steps, step.demand.Standard) →
      (a.snapshot? = b.snapshot? ↔ a.start = b.start ∧
        a.states.map (State.sketch Condition.skeleton) =
          b.states.map (State.sketch Condition.skeleton)) := by
  refine ⟨fun c d hc hd => Condition.describe_eq_iff hc hd, ?_⟩
  intro settings settings' p q a b ha hb hp hq
  obtain ⟨-, -, rfl⟩ := compile_eq_ok_iff.mp ha
  obtain ⟨-, -, rfl⟩ := compile_eq_ok_iff.mp hb
  have hsketches := map_eq_map_iff_of_forall fun s hs s' hs' => State.sketch_describe_eq_iff
    (p.standard_of_mem_states hp settings.finalName s hs)
    (q.standard_of_mem_states hq settings'.finalName s' hs')
  rw [(p.wellFormed_automaton settings.finalName).snapshot?_eq_iff
    (q.wellFormed_automaton settings'.finalName), hsketches]

/-- Odd numbers that are not refused, and numbers that are not both odd and refused. -/
def oddAndNot (refused : Probe Nat) : Condition Nat :=
  .both (.negation (.function refused)) (.ofType ⟨"Odd", fun n => n % 2 == 1⟩)

@[inherit_doc oddAndNot]
def notOddAnd (refused : Probe Nat) : Condition Nat :=
  .negation (.both (.function refused) (.ofType ⟨"Odd", fun n => n % 2 == 1⟩))

/-- The texts have the same words; the parentheses tell them apart. -/
example (refused : Probe Nat) : (oddAndNot refused).describe = "(NOT fn AND subtype Odd)" ∧
    (notOddAnd refused).describe = "NOT (fn AND subtype Odd)" := ⟨rfl, rfl⟩

/-- One number that satisfies a condition. -/
def askFor (c : Condition Nat) : Pattern Nat := .head { name := "wanted", condition := some c }

theorem compile_askFor (c : Condition Nat) :
    (compile {} (askFor c)).1 = .ok ((askFor c).automaton "$endState$") :=
  compile_of_nodup (List.nodup_singleton "wanted")

theorem snapshot_oddAndNot :
    let c := oddAndNot fun n => (n == 3, [])
    let d := notOddAnd fun n => (n == 3, [])
    c.Standard ∧ d.Standard ∧ c.describe ≠ d.describe ∧
      ∃ a b, (compile {} (askFor c)).1 = .ok a ∧ (compile {} (askFor d)).1 = .ok b ∧
        a.snapshot? ≠ b.snapshot? := by
  intro c d
  have hc : c.Standard := by decide
  have hd : d.Standard := by decide
  obtain ⟨htexts, hsnapshots⟩ := descriptions_show_structure (ε := Nat) (δ := Nat)
  refine ⟨hc, hd, (htexts c d hc hd).not.mpr nofun, _, _, compile_askFor c, compile_askFor d, ?_⟩
  have hiff := hsnapshots {} {} _ _ _ _ (compile_askFor c) (compile_askFor d)
    (fun step hstep => List.mem_singleton.mp hstep ▸ hc)
    (fun step hstep => List.mem_singleton.mp hstep ▸ hd)
  rw [ne_eq, hiff]
  rintro ⟨-, hstates⟩
  -- the conditions that are taken differ in their outermost part
  have hedges := congrArg (List.map Sketch.edges) hstates
  revert hedges
  decide

end ChainAutomata
