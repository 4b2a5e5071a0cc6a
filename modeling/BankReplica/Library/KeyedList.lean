import Mathlib.Data.List.Nodup

/-!
# Lists of records searched by key

A vector of records with a linear search for a key, and in-place updates at the
position found. Updates that keep the key leave every later search unchanged, so a
sequence of writes through positions found before the first write acts on the record
map exactly like a sequence of map updates.
-/

namespace KeyedList

variable {A K : Type*} [DecidableEq K] (key : A → K)

/-- The first position whose record has the key, or the length when none has. -/
def position (records : List A) (k : K) : ℕ := records.findIdx fun a => decide (key a = k)

/-- The first record with the key. -/
def lookup (records : List A) (k : K) : Option A := records.find? fun a => decide (key a = k)

/-- Reading at the position found is the lookup, and reading past the end is a miss. -/
theorem getElem?_position (records : List A) (k : K) :
    records[position key records k]? = lookup key records k := by
  induction records with
  | nil => rfl
  | cons a rest ih =>
    by_cases ha : key a = k
    · simp [position, lookup, List.findIdx_cons, ha]
    · simpa [position, lookup, List.findIdx_cons, ha] using ih

/-- A record found under a key is in the list and has that key. -/
theorem lookup_some {records : List A} {k : K} {a : A} (h : lookup key records k = some a) :
    a ∈ records ∧ key a = k :=
  ⟨List.mem_of_find?_eq_some h, by simpa using List.find?_some h⟩

/-- A key misses exactly when no record carries it. -/
theorem lookup_eq_none {records : List A} {k : K} :
    lookup key records k = none ↔ k ∉ records.map key := by
  simp [lookup, List.find?_eq_none]

/-- The search runs past the end exactly when no record carries the key. -/
theorem position_eq_length {records : List A} {k : K} :
    position key records k = records.length ↔ k ∉ records.map key := by
  simp [position, List.findIdx_eq_length]

/-- A key is found exactly when some record carries it. -/
theorem lookup_isSome {records : List A} {k : K} :
    (lookup key records k).isSome ↔ k ∈ records.map key := by
  rw [← not_iff_not, ← lookup_eq_none, Option.not_isSome_iff_eq_none]

/-- With distinct keys, membership and lookup agree. -/
theorem lookup_of_mem {records : List A} (hnodup : (records.map key).Nodup) {a : A}
    (ha : a ∈ records) : lookup key records (key a) = some a := by
  induction records with
  | nil => simp at ha
  | cons b rest ih =>
    rw [List.map_cons, List.nodup_cons] at hnodup
    rcases List.mem_cons.mp ha with rfl | hrest
    · simp [lookup]
    · have hne : key b ≠ key a := fun h => hnodup.1 (h ▸ List.mem_map_of_mem hrest)
      simpa [lookup, hne] using ih hnodup.2 hrest

/-- Appending a record changes only the lookup of its own key, and only on a miss. -/
theorem lookup_append_singleton (records : List A) (a : A) (k : K) :
    lookup key (records ++ [a]) k =
      (lookup key records k).or (if key a = k then some a else none) := by
  simp only [lookup, List.find?_append, List.find?_singleton, decide_eq_true_eq]

/-- The search stops before the end exactly when some record carries the key. -/
theorem position_lt_length {records : List A} {k : K} :
    position key records k < records.length ↔ k ∈ records.map key := by
  rw [position, List.findIdx_lt_length, List.mem_map]
  simp only [decide_eq_true_eq]

/-- A key found is found at the same position in every longer list. -/
theorem position_append {records : List A} {k : K} (hk : k ∈ records.map key) (more : List A) :
    position key (records ++ more) k = position key records k := by
  have hfound : position key records k < records.length := (position_lt_length key).mpr hk
  rw [position] at hfound ⊢
  rw [List.findIdx_append, if_pos hfound]
  rfl

/-- Appending moves no key onto a position that holds another. -/
theorem position_append_ne {records : List A} {k : K} {i : ℕ} (hi : i < records.length)
    (hne : position key records k ≠ i) (more : List A) : position key (records ++ more) k ≠ i := by
  rw [position] at hne ⊢
  rw [List.findIdx_append]
  split
  · exact hne
  · omega

/-- Rewriting every record without touching its key rewrites every lookup. -/
theorem lookup_map {f : A → A} (hf : ∀ a, key (f a) = key a) (records : List A) (k : K) :
    lookup key (records.map f) k = (lookup key records k).map f := by
  rw [lookup, List.find?_map]
  congr 2
  funext a
  exact congrArg (fun found => decide (found = k)) (hf a)

/-- Lists with distinct keys and the same lookups hold the same records. -/
theorem mem_iff_of_lookup_eq {left right : List A} (hleft : (left.map key).Nodup)
    (hright : (right.map key).Nodup) (h : ∀ k, lookup key left k = lookup key right k) (a : A) :
    a ∈ left ↔ a ∈ right := by
  constructor
  · intro ha
    exact (lookup_some key (h (key a) ▸ lookup_of_mem key hleft ha)).1
  · intro ha
    exact (lookup_some key ((h (key a)).symm ▸ lookup_of_mem key hright ha)).1

omit [DecidableEq K] in
/-- Two updates that agree on the record they meet are the same update. -/
theorem modify_congr {records : List A} {i : ℕ} {f g : A → A} (h : ∀ a, records[i]? = some a → f a = g a) :
    records.modify i f = records.modify i g := by
  induction records generalizing i with
  | nil => simp
  | cons a rest ih =>
    cases i with
    | zero => simp [h a rfl]
    | succ i => simp [ih h]

omit [DecidableEq K] in
/-- What holds of every record, and of the one that is updated, holds after the update. -/
theorem forall_modify {P : A → Prop} {records : List A} {i : ℕ} {f : A → A} (h : ∀ a ∈ records, P a)
    (hf : ∀ a, records[i]? = some a → P (f a)) : ∀ a ∈ records.modify i f, P a := by
  intro a ha
  obtain ⟨j, hj⟩ := List.mem_iff_getElem?.mp ha
  rw [List.getElem?_modify] at hj
  obtain ⟨b, hb, rfl⟩ := Option.map_eq_some_iff.mp hj
  split
  · rename_i hij
    exact hf b (hij ▸ hb)
  · exact h b (List.mem_of_getElem? hb)

section Modify

variable {key} {f : A → A} (hf : ∀ a, key (f a) = key a)
include hf

omit [DecidableEq K] in
/-- An update that keeps the key leaves the list of keys unchanged. -/
theorem map_key_modify (records : List A) (i : ℕ) :
    (records.modify i f).map key = records.map key := by
  induction records generalizing i with
  | nil => simp
  | cons a rest ih => cases i <;> simp [hf, ih]

omit hf in
/-- A position found in one list serves every list with the same keys. -/
theorem position_congr {records found : List A} (hkeys : records.map key = found.map key) (k : K) :
    position key found k = position key records k := by
  have hmap : ∀ l : List A, position key l k = (l.map key).findIdx fun j => decide (j = k) := by
    intro l
    rw [List.findIdx_map]
    rfl
  rw [hmap, hmap, hkeys]

omit hf in
/-- With distinct keys, an update at the position of a key is an update of every record
with that key, also at a position found in an earlier list with the same keys. -/
theorem modify_position {records found : List A} (hkeys : records.map key = found.map key)
    (hnodup : (found.map key).Nodup) (k : K) :
    records.modify (position key found k) f = records.map fun a => if key a = k then f a else a := by
  rw [position_congr hkeys]
  rw [← hkeys] at hnodup
  clear hkeys
  induction records with
  | nil => rfl
  | cons a rest ih =>
    rw [List.map_cons, List.nodup_cons] at hnodup
    by_cases ha : key a = k
    · have hrest : (rest.map fun b => if key b = k then f b else b) = rest := by
        rw [List.map_congr_left (g := id), List.map_id]
        intro b hb
        have hne : key b ≠ k := fun h => hnodup.1 (ha.trans h.symm ▸ List.mem_map_of_mem hb)
        simp [hne]
      simp [position, List.findIdx_cons, ha, hrest]
    · have hpos : position key (a :: rest) k = position key rest k + 1 := by
        simp [position, List.findIdx_cons, ha]
      rw [hpos, List.modify_succ_cons, ih hnodup.2, List.map_cons, if_neg ha]

omit hf in
/-- Three writes through two positions found beforehand, the first and the last through
the same one: each record sees the writes of its own key in program order. -/
theorem modify_pair {f g h : A → A} (hf : ∀ a, key (f a) = key a) (hg : ∀ a, key (g a) = key a)
    {records : List A} (hnodup : (records.map key).Nodup) (k k' : K) :
    ((records.modify (position key records k) f).modify (position key records k') g).modify
        (position key records k) h =
      records.map fun a =>
        let a₁ := if key a = k then f a else a
        let a₂ := if key a = k' then g a₁ else a₁
        if key a = k then h a₂ else a₂ := by
  have hkeys₁ := map_key_modify hf records (position key records k)
  have hkeys₂ := (map_key_modify hg (records.modify (position key records k) f)
    (position key records k')).trans hkeys₁
  rw [modify_position hkeys₂ hnodup, modify_position hkeys₁ hnodup, modify_position rfl hnodup,
    List.map_map, List.map_map]
  apply List.map_congr_left
  intro a _
  have hkeep : ∀ (c : Prop) [Decidable c] (e : A → A) (b : A), (∀ b, key (e b) = key b) →
      key (if c then e b else b) = key b := by
    intro c _ e b he
    split
    · exact he b
    · rfl
  simp only [Function.comp_apply, hkeep _ f _ hf, hkeep _ g _ hg]

omit hf in
/-- Three writes through two positions keep what the first two keep of any record and the last
keeps of a record with its key. -/
theorem forall_modify_pair {P : A → Prop} {f g h : A → A} (hf : ∀ a, key (f a) = key a) (hg : ∀ a, key (g a) = key a)
    {records : List A} (hrecords : ∀ a ∈ records, P a) (hPf : ∀ a, P a → P (f a)) (hPg : ∀ a, P a → P (g a))
    (k k' : K) (hPh : ∀ a, key a = k → P a → P (h a)) :
    ∀ a ∈ ((records.modify (position key records k) f).modify (position key records k') g).modify
      (position key records k) h, P a := by
  have hkeys := (map_key_modify hg (records.modify (position key records k) f) (position key records k')).trans
    (map_key_modify hf records (position key records k))
  have hfirst := forall_modify (i := position key records k) hrecords fun a ha =>
    hPf a (hrecords a (List.mem_of_getElem? ha))
  have hsecond := forall_modify (i := position key records k') hfirst fun a ha =>
    hPg a (hfirst a (List.mem_of_getElem? ha))
  refine forall_modify hsecond fun a ha => hPh a ?_ (hsecond a (List.mem_of_getElem? ha))
  generalize (records.modify (position key records k) f).modify (position key records k') g = written at hkeys ha
  rw [position_congr hkeys, getElem?_position] at ha
  exact (lookup_some key ha).2

/-- An update at the position of a key changes the lookup of that key alone. -/
theorem lookup_modify (records : List A) (k k' : K) :
    lookup key (records.modify (position key records k) f) k' =
      if k' = k then (lookup key records k).map f else lookup key records k' := by
  induction records with
  | nil => simp [lookup]
  | cons a rest ih =>
    by_cases ha : key a = k
    · by_cases hk : k' = k
      · simp [position, lookup, List.findIdx_cons, ha, hk, hf]
      · have hne : key a ≠ k' := fun h => hk (h.symm.trans ha)
        simp [position, lookup, List.findIdx_cons, ha, hk, hf, Ne.symm hk]
    · have hpos : position key (a :: rest) k = position key rest k + 1 := by
        simp [position, List.findIdx_cons, ha]
      have hlook : lookup key (a :: rest) k = lookup key rest k := by simp [lookup, ha]
      rw [hpos, List.modify_succ_cons, hlook]
      by_cases hk : key a = k'
      · have hne : k' ≠ k := fun h => ha (hk.trans h)
        simp [lookup, hk, hne]
      · have hcons : ∀ l : List A, lookup key (a :: l) k' = lookup key l k' := by
          intro l
          simp [lookup, hk]
        rw [hcons, hcons, ih]

/-- The same at a position found in an earlier list with the same keys. -/
theorem lookup_modify_found {records found : List A} (hkeys : records.map key = found.map key)
    (k k' : K) :
    lookup key (records.modify (position key found k) f) k' =
      if k' = k then (lookup key records k).map f else lookup key records k' := by
  rw [position_congr hkeys, lookup_modify hf]

end Modify

end KeyedList
