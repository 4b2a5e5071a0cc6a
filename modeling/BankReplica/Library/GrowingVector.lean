import BankReplica.Library.KeyedList

/-!
# Vectors that move when they grow

A vector keeps its elements in a buffer of some capacity. Appending to a full vector
moves them to a new buffer, and an iterator into an earlier buffer is stale from then on:
reading or writing through it is undefined. An iterator is a position together with the
buffer it points into, and a write through a stale one has no result here.
-/

namespace GrowingVector

open KeyedList

variable {A K : Type*} [DecidableEq K]

/-- How much a full vector grows: by at least one place. -/
structure Growth where
  next : ℕ → ℕ
  grows : ∀ size, size < next size

/-- Growth by doubling, starting from one place. -/
def Growth.doubling : Growth where
  next := fun size => size + max size 1
  grows := fun size => by omega

/-- A vector, with its capacity and the number of buffers it has left behind. -/
@[ext] structure Vec (A : Type*) where
  elems : List A
  capacity : ℕ
  buffer : ℕ
  fits : elems.length ≤ capacity

/-- An iterator: a position in one of the buffers a vector has had. -/
structure Iter where
  buffer : ℕ
  pos : ℕ
deriving DecidableEq

/-- Append at the end, into a new buffer if the vector is full. -/
def Vec.emplaceBack (grow : Growth) (v : Vec A) (a : A) : Vec A :=
  if hroom : v.elems.length < v.capacity then
    { v with
      elems := v.elems ++ [a]
      fits := by rwa [List.length_append, List.length_singleton] }
  else
    { elems := v.elems ++ [a]
      capacity := grow.next v.elems.length
      buffer := v.buffer + 1
      fits := by
        rw [List.length_append, List.length_singleton]
        exact grow.grows _ }

/-- The iterator past the last element. -/
def Vec.endIter (v : Vec A) : Iter := ⟨v.buffer, v.elems.length⟩

/-- Linear search for a key. -/
def Vec.find (key : A → K) (v : Vec A) (k : K) : Iter := ⟨v.buffer, position key v.elems k⟩

/-- Linear search for a key, and after a miss an append and a second search. -/
def Vec.findOrEmplace (key : A → K) (grow : Growth) (v : Vec A) (k : K) (a : A) : Vec A × Iter :=
  if v.find key k = v.endIter then
    let grown := v.emplaceBack grow a
    (grown, grown.find key k)
  else (v, v.find key k)

/-- A write through an iterator, without a result if the iterator is stale or at the end. -/
def Vec.write (v : Vec A) (it : Iter) (f : A → A) : Option (Vec A) :=
  if it.buffer = v.buffer ∧ it.pos < v.elems.length then
    some
      { v with
        elems := v.elems.modify it.pos f
        fits := by
          rw [List.length_modify]
          exact v.fits }
  else none

/-- Appending appends, in the old buffer or a new one. -/
@[simp] theorem emplaceBack_elems (grow : Growth) (v : Vec A) (a : A) :
    (v.emplaceBack grow a).elems = v.elems ++ [a] := by
  unfold Vec.emplaceBack
  split <;> rfl

/-- Appending keeps the buffer exactly if there is room. -/
theorem emplaceBack_buffer (grow : Growth) (v : Vec A) (a : A) :
    (v.emplaceBack grow a).buffer = v.buffer ↔ v.elems.length < v.capacity := by
  unfold Vec.emplaceBack
  split
  · exact iff_of_true rfl ‹_›
  · exact iff_of_false (Nat.succ_ne_self _) ‹_›

/-- The capacity after an append. -/
theorem emplaceBack_capacity (grow : Growth) (v : Vec A) (a : A) :
    (v.emplaceBack grow a).capacity =
      if v.elems.length < v.capacity then v.capacity else grow.next v.elems.length := by
  unfold Vec.emplaceBack
  split <;> rfl

/-- The search misses exactly if no element has the key. -/
theorem find_eq_endIter {key : A → K} {v : Vec A} {k : K} :
    v.find key k = v.endIter ↔ k ∉ v.elems.map key := by
  rw [← position_eq_length key]
  constructor
  · intro hend
    exact congrArg Iter.pos hend
  · intro hpos
    exact congrArg (Iter.mk v.buffer) hpos

/-- A known key needs no append. -/
theorem findOrEmplace_of_mem {key : A → K} {v : Vec A} {k : K} (hk : k ∈ v.elems.map key) (grow : Growth)
    (a : A) : v.findOrEmplace key grow k a = (v, v.find key k) :=
  if_neg fun hend => find_eq_endIter.mp hend hk

/-- An unknown key is appended and found there. -/
theorem findOrEmplace_of_not_mem {key : A → K} {v : Vec A} {k : K} (hk : k ∉ v.elems.map key) (grow : Growth)
    (a : A) :
    v.findOrEmplace key grow k a = (v.emplaceBack grow a, (v.emplaceBack grow a).find key k) :=
  if_pos (find_eq_endIter.mpr hk)

/-- Either way the iterator returned is the one a search of the result would find. -/
theorem findOrEmplace_iter (key : A → K) (grow : Growth) (v : Vec A) (k : K) (a : A) :
    (v.findOrEmplace key grow k a).2 = (v.findOrEmplace key grow k a).1.find key k := by
  unfold Vec.findOrEmplace
  split <;> rfl

/-- The buffer is kept exactly if the key is known or there is room for it. -/
theorem findOrEmplace_buffer (key : A → K) (grow : Growth) (v : Vec A) (k : K) (a : A) :
    (v.findOrEmplace key grow k a).1.buffer = v.buffer ↔
      k ∈ v.elems.map key ∨ v.elems.length < v.capacity := by
  by_cases hk : k ∈ v.elems.map key
  · rw [findOrEmplace_of_mem hk]
    exact iff_of_true rfl (.inl hk)
  · rw [findOrEmplace_of_not_mem hk, emplaceBack_buffer]
    simp only [hk, false_or]

/-- Afterwards the key is known. -/
theorem mem_findOrEmplace {key : A → K} {a : A} {k : K} (ha : key a = k) (grow : Growth) (v : Vec A) :
    k ∈ (v.findOrEmplace key grow k a).1.elems.map key := by
  by_cases hk : k ∈ v.elems.map key
  · rw [findOrEmplace_of_mem hk]
    exact hk
  · rw [findOrEmplace_of_not_mem hk, emplaceBack_elems, List.map_append]
    exact List.mem_append_right _ (List.mem_singleton.mpr ha.symm)

/-- A known key stays known. -/
theorem mem_findOrEmplace_of_mem {key : A → K} {v : Vec A} {k : K} (hk : k ∈ v.elems.map key) (grow : Growth)
    (other : K) (a : A) : k ∈ (v.findOrEmplace key grow other a).1.elems.map key := by
  by_cases hother : other ∈ v.elems.map key
  · rw [findOrEmplace_of_mem hother]
    exact hk
  · rw [findOrEmplace_of_not_mem hother, emplaceBack_elems, List.map_append]
    exact List.mem_append_left _ hk

/-- A key found keeps its position while others are appended. -/
theorem position_findOrEmplace {key : A → K} {v : Vec A} {k : K} (hk : k ∈ v.elems.map key) (grow : Growth)
    (other : K) (a : A) :
    position key (v.findOrEmplace key grow other a).1.elems k = position key v.elems k := by
  by_cases hother : other ∈ v.elems.map key
  · rw [findOrEmplace_of_mem hother]
  · rw [findOrEmplace_of_not_mem hother, emplaceBack_elems]
    exact position_append key hk [a]

/-- A write through an iterator into an earlier buffer is undefined. -/
theorem write_stale {v : Vec A} {it : Iter} (hstale : it.buffer ≠ v.buffer) (f : A → A) :
    v.write it f = none :=
  if_neg fun h => hstale h.1

/-- A write through the iterator of a known key changes one element and no buffer. -/
theorem write_live {v : Vec A} {it : Iter} (hlive : it.buffer = v.buffer) (hpos : it.pos < v.elems.length)
    (f : A → A) :
    ∃ written, v.write it f = some written ∧ written.elems = v.elems.modify it.pos f ∧
      written.buffer = v.buffer :=
  ⟨_, if_pos ⟨hlive, hpos⟩, rfl, rfl⟩

/-- What a write changes and what it does not. -/
theorem write_some {v written : Vec A} {it : Iter} {f : A → A} (h : v.write it f = some written) :
    written.elems = v.elems.modify it.pos f ∧ written.capacity = v.capacity ∧ written.buffer = v.buffer := by
  unfold Vec.write at h
  split at h
  · obtain rfl := Option.some.inj h
    exact ⟨rfl, rfl, rfl⟩
  · contradiction

end GrowingVector
