/-
JSON texts read back.

The reader undoes the printer: the text of a value over several lines is read as that value.  The
values for which this holds are those that a text determines: no floating point numbers, no whole
numbers but those that the reader of numbers keeps, and no key that occurs twice in an object.

* `Json.Plain` — such values;
* `Reader.readsBack_array`, `Reader.readsBack_object` — lists and objects, given that their parts are
  read back;
* `Reader.readsBack_of_plain` — a value is read back wherever its text stands;
* `Json.parseWith?_indented` — the text of a value is read as the value.

Design notes: what comes behind a value in a text is nothing, a comma or a line break, none of which
can belong to a number.  The reader counts its depth down from the length of the text, so the
length of a part of the text is depth enough for reading that part.
-/
import ChainAutomata.Proofs.Tokens
import Mathlib.Data.List.Nodup

namespace ChainAutomata.Json

/-- The text of the value determines it, if that is so of whole numbers of a kind. -/
inductive Plain (kind : Int → Prop) : Json → Prop
  | null : Plain kind null
  | bool (value : Bool) : Plain kind (bool value)
  | integer (value : Int) (h : kind value) : Plain kind (integer value)
  | text (value : String) : Plain kind (text value)
  | array (items : List Json) (h : ∀ x ∈ items, Plain kind x) : Plain kind (array items)
  | object (members : List (String × Json)) (hkeys : (members.map Prod.fst).Nodup)
    (h : ∀ m ∈ members, Plain kind m.2) : Plain kind (object members)

namespace Reader

variable {kind : Int → Prop} {readNumber : List Char → Option (Json × List Char)}
variable {depth level : Nat} {cs rest rest' : List Char} {x : Json}

/-! ### Where a value starts and ends -/

/-- The text of a value starts with a character that is neither a space nor a closing bracket. -/
theorem exists_block_eq_cons (hx : x.Plain kind) (level : Nat) :
    ∃ c cs, x.block level = c :: cs ∧ isSpace c = false ∧ c ≠ ']' := by
  cases hx with
  | null => exact ⟨_, _, rfl, rfl, by decide⟩
  | bool value => cases value <;> exact ⟨_, _, rfl, rfl, by decide⟩
  | integer n hn =>
    obtain ⟨c, cs, h, hc⟩ := exists_signedDecimal_eq_cons n
    refine ⟨c, cs, h, ?_, hc.ne (by decide)⟩
    rw [← Bool.not_eq_true]
    intro hspace
    simp only [isSpace, Bool.or_eq_true, decide_eq_true_eq] at hspace
    rcases hspace with ((rfl | rfl) | rfl) | rfl <;> exact absurd hc (by decide)
  | text s => exact ⟨_, _, rfl, rfl, by decide⟩
  | array items h => cases items <;> exact ⟨_, _, rfl, rfl, by decide⟩
  | object members hkeys h => cases members <;> exact ⟨_, _, rfl, rfl, by decide⟩

theorem skipSpaces_block (hx : x.Plain kind) (level : Nat) (rest : List Char) :
    skipSpaces (x.block level ++ rest) = x.block level ++ rest := by
  obtain ⟨c, cs, h, hspace, -⟩ := exists_block_eq_cons hx level
  rw [h, List.cons_append, skipSpaces_cons hspace]

theorem delimited_blockItems (level : Nat) (xs : List Json) (rest : List Char) :
    Delimited (blockItems level xs ++ rest) := by
  intro c hc
  cases xs with
  | nil => exact Or.inr (Option.some_inj.mp hc).symm
  | cons x xs => exact Or.inl (Option.some_inj.mp hc).symm

theorem delimited_blockMembers (level : Nat) (ms : List (String × Json)) (rest : List Char) :
    Delimited (blockMembers level ms ++ rest) := by
  intro c hc
  cases ms with
  | nil => exact Or.inr (Option.some_inj.mp hc).symm
  | cons m ms => exact Or.inl (Option.some_inj.mp hc).symm

theorem length_blockItems_pos (level : Nat) (xs : List Json) :
    0 < (blockItems level xs).length := by
  cases xs <;> exact Nat.succ_pos _

theorem length_blockMembers_pos (level : Nat) (ms : List (String × Json)) :
    0 < (blockMembers level ms).length := by
  cases ms <;> exact Nat.succ_pos _

/-! ### One step of the reader -/

theorem items_of_bracket (hx : value readNumber depth cs = some (x, rest'))
    (h : skipSpaces rest' = ']' :: rest) :
    items readNumber (depth + 1) cs = some ([x], rest) := by
  rw [items, hx]
  simp only [h]

theorem items_of_comma (hx : value readNumber depth cs = some (x, rest'))
    (h : skipSpaces rest' = ',' :: rest) :
    items readNumber (depth + 1) cs =
      (items readNumber depth (skipSpaces rest)).map fun r => (x :: r.1, r.2) := by
  rw [items, hx]
  simp only [h]

/-- If the key is new, the member is added at the end. -/
theorem put_of_notMem {key : String} {before : List (String × Json)}
    (h : key ∉ before.map Prod.fst) (x : Json) : put key x before = before ++ [(key, x)] := by
  induction before with
  | nil => rfl
  | cons m before ih =>
    obtain ⟨hne, hnotMem⟩ := not_or.mp (mt List.mem_cons.mpr h)
    rw [put, if_neg (Ne.symm hne), ih hnotMem]
    rfl

theorem members_of_brace {key : String} {before : List (String × Json)}
    (hkey : key ∉ before.map Prod.fst)
    (hx : value readNumber depth (skipSpaces cs) = some (x, rest'))
    (h : skipSpaces rest' = '\x7d' :: rest) :
    members readNumber (depth + 1) before (quoted key ++ ':' :: cs) =
      some (before ++ [(key, x)], rest) := by
  obtain ⟨text, htext, hread⟩ := stringBody_quoted key (':' :: cs)
  rw [htext, members, hread]
  simp only [skipSpaces_cons (c := ':') rfl, hx, h, String.ofList_toList, put_of_notMem hkey]

theorem members_of_comma {key : String} {before : List (String × Json)}
    (hkey : key ∉ before.map Prod.fst)
    (hx : value readNumber depth (skipSpaces cs) = some (x, rest'))
    (h : skipSpaces rest' = ',' :: rest) :
    members readNumber (depth + 1) before (quoted key ++ ':' :: cs) =
      members readNumber depth (before ++ [(key, x)]) (skipSpaces rest) := by
  obtain ⟨text, htext, hread⟩ := stringBody_quoted key (':' :: cs)
  rw [htext, members, hread]
  simp only [skipSpaces_cons (c := ':') rfl, hx, h, String.ofList_toList, put_of_notMem hkey]

theorem notMem_of_nodup_append {key : String} {before ms : List (String × Json)}
    (h : ((before ++ (key, x) :: ms).map Prod.fst).Nodup) : key ∉ before.map Prod.fst := by
  rw [List.map_append, List.map_cons, List.nodup_append] at h
  exact fun hkey => h.2.2 key hkey key List.mem_cons_self rfl

theorem value_of_bracket {c : Char} {cs' : List Char} (h : skipSpaces cs = c :: cs')
    (hc : c ≠ ']') :
    value readNumber (depth + 1) ('[' :: cs) =
      (items readNumber depth (skipSpaces cs)).map fun r => (array r.1, r.2) := by
  simp [value, h, hc]

theorem value_of_brace {c : Char} {cs' : List Char} (h : skipSpaces cs = c :: cs')
    (hc : c ≠ '\x7d') :
    value readNumber (depth + 1) ('\x7b' :: cs) =
      (members readNumber depth [] (skipSpaces cs)).map fun r => (object r.1, r.2) := by
  simp [value, h, hc]

theorem value_of_opensNumber {c : Char} (hc : OpensNumber c) :
    value readNumber (depth + 1) (c :: cs) = readNumber (c :: cs) := by
  rw [value, if_neg (hc.ne (by decide)), if_neg (hc.ne (by decide)), if_neg (hc.ne (by decide)),
    if_neg (hc.ne (by decide)), if_neg (hc.ne (by decide)), if_neg (hc.ne (by decide))]

theorem value_of_quoted (s : String) (rest : List Char) :
    value readNumber (depth + 1) (quoted s ++ rest) = some (text s, rest) := by
  obtain ⟨cs, htext, hs⟩ := stringBody_quoted s rest
  rw [htext]
  simp [value, hs]

/-! ### Whole values -/

/-- The reader gives back a value from its text, given depth enough for the text. -/
def ReadsBack (readNumber : List Char → Option (Json × List Char)) (x : Json) : Prop :=
  ∀ level depth rest, Delimited rest → (x.block level).length ≤ depth →
    value readNumber depth (x.block level ++ rest) = some (x, rest)

/-- The text of a value is not empty, so there is depth for one step. -/
theorem readsBack_of_succ (hx : x.Plain kind)
    (h : ∀ level depth rest, Delimited rest → (x.block level).length ≤ depth + 1 →
      value readNumber (depth + 1) (x.block level ++ rest) = some (x, rest)) :
    ReadsBack readNumber x := by
  intro level depth rest hrest hdepth
  obtain ⟨c, cs, hblock, -, -⟩ := exists_block_eq_cons hx level
  cases depth with
  | zero => simp [hblock] at hdepth
  | succ depth => exact h level depth rest hrest hdepth

/-- If depth is left for more than the value, one step of it can be spent on reading the value. -/
theorem ReadsBack.spend (hx : ReadsBack readNumber x) (hrest : Delimited rest) {more : Nat}
    (hmore : 0 < more) (hdepth : (x.block level).length + more ≤ depth) :
    ∃ d, depth = d + 1 ∧ value readNumber d (x.block level ++ rest) = some (x, rest) :=
  ⟨depth - 1, by omega, hx level (depth - 1) rest hrest (by omega)⟩

/-- Items are read back if each of them is. -/
theorem items_block (level : Nat) {xs : List Json} :
    ∀ {x : Json}, (∀ y ∈ x :: xs, y.Plain kind ∧ ReadsBack readNumber y) → ∀ depth rest,
      (x.block (level + 1)).length + (blockItems level xs).length ≤ depth →
      items readNumber depth (x.block (level + 1) ++ (blockItems level xs ++ rest)) =
        some (x :: xs, rest) := by
  induction xs with
  | nil =>
    intro x h depth rest hdepth
    obtain ⟨depth, rfl, hx⟩ := (h x List.mem_cons_self).2.spend
      (delimited_blockItems level [] rest) (length_blockItems_pos level []) hdepth
    refine items_of_bracket hx ?_
    rw [blockItems, List.append_assoc, skipSpaces_newline]
    exact skipSpaces_cons rfl rest
  | cons y ys ih =>
    intro x h depth rest hdepth
    obtain ⟨depth, rfl, hx⟩ := (h x List.mem_cons_self).2.spend
      (delimited_blockItems level (y :: ys) rest) (length_blockItems_pos level (y :: ys)) hdepth
    have hys := ih (fun z hz => h z (List.mem_cons_of_mem x hz)) depth rest (by
      simp only [blockItems, List.length_append, List.length_cons] at hdepth
      omega)
    have hcomma : skipSpaces (blockItems level (y :: ys) ++ rest) =
        ',' :: (newline (level + 1) ++ (y.block (level + 1) ++ (blockItems level ys ++ rest))) := by
      simp only [blockItems, List.cons_append, List.append_assoc]
      exact skipSpaces_cons rfl _
    rw [items_of_comma hx hcomma, skipSpaces_newline, skipSpaces_block (h y (by simp)).1, hys]
    rfl

/-- Members are read back if their values are, their keys being new. -/
theorem members_block (level : Nat) {ms : List (String × Json)} :
    ∀ {key : String} {x : Json} (before : List (String × Json)),
      ((before ++ (key, x) :: ms).map Prod.fst).Nodup →
      (∀ m ∈ (key, x) :: ms, m.2.Plain kind ∧ ReadsBack readNumber m.2) → ∀ depth rest,
      (x.block (level + 1)).length + (blockMembers level ms).length ≤ depth →
      members readNumber depth before
        (quoted key ++ ':' :: ' ' :: (x.block (level + 1) ++ (blockMembers level ms ++ rest))) =
          some (before ++ (key, x) :: ms, rest) := by
  -- a space stands between the colon and the value
  have hspace : ∀ {x : Json} (_ : x.Plain kind) cs,
      skipSpaces (' ' :: (x.block (level + 1) ++ cs)) = x.block (level + 1) ++ cs := by
    intro x hx cs
    rw [skipSpaces_space, skipSpaces_block hx]
  induction ms with
  | nil =>
    intro key x before hkeys h depth rest hdepth
    obtain ⟨hplain, hreads⟩ : x.Plain kind ∧ ReadsBack readNumber x := h (key, x) List.mem_cons_self
    obtain ⟨depth, rfl, hx⟩ := hreads.spend (delimited_blockMembers level [] rest)
      (length_blockMembers_pos level []) hdepth
    rw [← hspace hplain] at hx
    refine members_of_brace (notMem_of_nodup_append hkeys) hx ?_
    rw [blockMembers, List.append_assoc, skipSpaces_newline]
    exact skipSpaces_cons rfl rest
  | cons m ms ih =>
    intro key x before hkeys h depth rest hdepth
    obtain ⟨hplain, hreads⟩ : x.Plain kind ∧ ReadsBack readNumber x := h (key, x) List.mem_cons_self
    obtain ⟨depth, rfl, hx⟩ := hreads.spend (delimited_blockMembers level (m :: ms) rest)
      (length_blockMembers_pos level (m :: ms)) hdepth
    rw [← hspace hplain] at hx
    have hms := ih (before ++ [(key, x)]) (by rwa [List.append_assoc])
      (fun m' hm' => h m' (List.mem_cons_of_mem _ hm')) depth rest (by
        simp only [blockMembers, List.length_append, List.length_cons] at hdepth
        omega)
    have hcomma : skipSpaces (blockMembers level (m :: ms) ++ rest) =
        ',' :: (newline (level + 1) ++ (quoted m.1 ++ ':' :: ' ' ::
          (m.2.block (level + 1) ++ (blockMembers level ms ++ rest)))) := by
      simp only [blockMembers, List.cons_append, List.append_assoc]
      exact skipSpaces_cons rfl _
    rw [members_of_comma (notMem_of_nodup_append hkeys) hx hcomma, skipSpaces_newline,
      skipSpaces_quoted, hms, List.append_assoc]
    rfl

theorem readsBack_array {xs : List Json}
    (h : ∀ y ∈ xs, y.Plain kind ∧ ReadsBack readNumber y) : ReadsBack readNumber (array xs) := by
  refine readsBack_of_succ (.array xs fun y hy => (h y hy).1) fun level depth rest _ hdepth => ?_
  cases xs with
  | nil => rfl
  | cons x xs =>
    have hx := (h x List.mem_cons_self).1
    obtain ⟨c, cs, hc, -, hbracket⟩ := exists_block_eq_cons hx (level + 1)
    have hskip : ∀ cs, skipSpaces (newline (level + 1) ++ (x.block (level + 1) ++ cs)) =
        x.block (level + 1) ++ cs := by
      intro cs
      rw [skipSpaces_newline, skipSpaces_block hx]
    have hitems := items_block level h depth rest (by
      simp only [block, List.length_append, List.length_cons] at hdepth
      omega)
    simp only [block, List.cons_append, List.append_assoc]
    rw [value_of_bracket ((hskip _).trans (congrArg (· ++ _) hc)) hbracket, hskip, hitems]
    rfl

theorem readsBack_object {ms : List (String × Json)} (hkeys : (ms.map Prod.fst).Nodup)
    (h : ∀ m ∈ ms, m.2.Plain kind ∧ ReadsBack readNumber m.2) :
    ReadsBack readNumber (object ms) := by
  refine readsBack_of_succ (.object ms hkeys fun m hm => (h m hm).1)
    fun level depth rest _ hdepth => ?_
  cases ms with
  | nil => rfl
  | cons m ms =>
    have hmembers := members_block level [] hkeys h depth rest (by
      simp only [block, List.length_append, List.length_cons] at hdepth
      omega)
    simp only [block, List.cons_append, List.append_assoc]
    rw [value_of_brace (skipSpaces_newline _ _) (by decide), skipSpaces_newline,
      skipSpaces_quoted, hmembers]
    rfl

/-- A value is read back from its text. -/
theorem readsBack_of_plain (hkeeps : Keeps readNumber kind) (hx : x.Plain kind) :
    ReadsBack readNumber x := by
  induction hx with
  | null => exact readsBack_of_succ (.null : Plain kind null) fun _ _ _ _ _ => rfl
  | bool b =>
    refine readsBack_of_succ (.bool b : Plain kind (bool b)) fun level depth rest _ _ => ?_
    cases b <;> rfl
  | integer n hn =>
    refine readsBack_of_succ (.integer n hn) fun level depth rest hrest _ => ?_
    obtain ⟨c, cs, h, hc⟩ := exists_signedDecimal_eq_cons n
    show value readNumber (depth + 1) ((Text.signedDecimal n).toList ++ rest) = _
    rw [h, List.cons_append, value_of_opensNumber hc, ← List.cons_append, ← h,
      hkeeps n hn rest hrest]
  | text s =>
    exact readsBack_of_succ (.text s : Plain kind (text s)) fun _ _ rest _ _ =>
      value_of_quoted s rest
  | array xs h ih => exact readsBack_array fun y hy => ⟨h y hy, ih y hy⟩
  | object ms hkeys h ih => exact readsBack_object hkeys fun m hm => ⟨h m hm, ih m hm⟩

end Reader

/-- The text of a value over several lines is read as the value. -/
theorem parseWith?_indented {kind : Int → Prop}
    {readNumber : List Char → Option (Json × List Char)}
    (hkeeps : Reader.Keeps readNumber kind) {x : Json} (hx : x.Plain kind) :
    parseWith? readNumber x.indented = some x := by
  have htext : x.indented.toList = x.block 0 := String.toList_ofList
  have hskip := Reader.skipSpaces_block hx 0 []
  have hread := Reader.readsBack_of_plain hkeeps hx 0 ((x.block 0).length + 1) []
    (fun _ hc => absurd hc (by simp)) (Nat.le_succ _)
  rw [List.append_nil] at hskip hread
  simp only [parseWith?, htext, hskip, hread]
  rfl

end ChainAutomata.Json
