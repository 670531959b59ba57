import UniBPF.Theory.HashCells

/-!
# The Slots of an Array

An array map is one block of `max_entries * value_size` bytes. The helpers
find a slot by multiplying the index by the size of a value, in 32 bits, and
compare nothing with the size of the block.

An index that is in range, and whose product does not wrap, is served as one
would expect: its slot lies in the block at the product, and apart from every
other such slot. Every other index is served too, somewhere. An index past the
end is never refused, whether or not the address it leads to happens to be
inside the block, and an index whose product wraps has another one's slot.

## Main definitions

* `LiveArray`: An array map with its block.
* `ArraySafe`: What a set of indices may expect of an array.

## Theorems

* `newLiveMap_array`: Arrays as they are created.
* `lookup_slot`, `update_slot`: The helpers at an index.
* `update_never_refuses`: No update reports an error.
* `array_safe_iff`: The indices an array serves safely.
-/

namespace UniBPF

open LittleEndian

/-- An array map whose block was allocated: as large as its entries, and inside
    the address space. -/
structure LiveArray where
  map : LiveMap
  base : Nat
  block : Bytes
  type : map.defn.type = mapTypeArray
  data : map.data = .array base
  heap : map.heap base = some block
  sized : block.length = map.defn.maxEntries * map.defn.valueSize
  pos : 0 < base
  lt : base < 2 ^ 64
  fits : base + block.length ≤ 2 ^ 64

/-- The map after a write at an offset in its block. -/
def LiveArray.written (arr : LiveArray) (off : Nat) (value : Bytes) : LiveMap :=
  { arr.map with
    heap := Function.update arr.map.heap arr.base (some (overwrite arr.block off value)) }

/-- What `do_map_relocation` makes of an array definition when the allocation
    succeeds. -/
theorem newLiveMap_array (A : Allocator Bytes) (d : MapDef) (base : Nat)
    (htype : d.type = mapTypeArray) (hkey : d.keySize = 4)
    (halloc : A.alloc (fun _ => none) = some base)
    (hfits : base + d.maxEntries * d.valueSize ≤ 2 ^ 64) :
    ∃ arr : LiveArray, newLiveMap A d = some arr.map ∧ arr.map.defn = d ∧ arr.base = base := by
  have hhash : ¬ d.type = mapTypeHash := by
    rw [htype]
    decide
  refine ⟨⟨⟨d, .array base, Function.update (fun _ => none) base
    (some (List.replicate (d.maxEntries * d.valueSize) 0))⟩, base,
    List.replicate (d.maxEntries * d.valueSize) 0, htype, rfl, ?_, ?_, A.alloc_pos _ _ halloc,
    A.alloc_lt _ _ halloc, ?_⟩, ?_, rfl, rfl⟩
  · simp only [Function.update_self]
  · rw [List.length_replicate]
  · rw [List.length_replicate]
    exact hfits
  · rw [newLiveMap, if_neg hhash, if_pos htype, if_neg (by rw [hkey]; decide), halloc]

/-- What these indices may expect of an array. -/
structure ArraySafe (A : Allocator Bytes) (emptyData : Addr) (arr : LiveArray) (S : Set Nat) :
    Prop where
  /-- Past the end, a lookup finds nothing and an update fails. -/
  refused : ∀ i ∈ S, arr.map.defn.maxEntries ≤ i →
    arr.map.lookupElem (toLE 4 i) = .ok 0 ∧
      ∀ value, value.length = arr.map.defn.valueSize →
        ∃ code, code ≠ 0 ∧
          arr.map.updateElem A emptyData (toLE 4 i) value = .ok (code, arr.map)
  /-- Below it, both go to the slot of the index, which is in the block. -/
  placed : ∀ i ∈ S, i < arr.map.defn.maxEntries →
    arr.map.lookupElem (toLE 4 i) = .ok (arr.base + i * arr.map.defn.valueSize) ∧
      i * arr.map.defn.valueSize + arr.map.defn.valueSize ≤ arr.block.length ∧
      ∀ value, value.length = arr.map.defn.valueSize →
        arr.map.updateElem A emptyData (toLE 4 i) value =
          .ok (0, arr.written (i * arr.map.defn.valueSize) value)
  /-- No two indices share a byte. -/
  disjoint : ∀ i ∈ S, ∀ j ∈ S, i ≠ j → i < arr.map.defn.maxEntries →
    j < arr.map.defn.maxEntries → ∀ p q : Nat, arr.map.lookupElem (toLE 4 i) = .ok p →
      arr.map.lookupElem (toLE 4 j) = .ok q →
      p + arr.map.defn.valueSize ≤ q ∨ q + arr.map.defn.valueSize ≤ p

section

variable (A : Allocator Bytes) (emptyData : Addr) (arr : LiveArray)

theorem slot_index (i : Nat) (hi : i < 2 ^ 32) :
    arr.map.slot (toLE 4 i) = i * arr.map.defn.valueSize % 2 ^ 32 := by
  have hread : readLE (toLE 4 i) 0 4 = i := by
    rw [readLE, List.drop_zero, List.take_of_length_le (by rw [length_toLE]), ofLE_toLE]
    exact Nat.mod_eq_of_lt hi
  rw [LiveMap.slot, hread]

theorem not_hash : ¬ arr.map.defn.type = mapTypeHash := by
  rw [arr.type]
  decide

theorem lookup_slot (i : Nat) (hi : i < 2 ^ 32) :
    arr.map.lookupElem (toLE 4 i) =
      .ok ((arr.base + i * arr.map.defn.valueSize % 2 ^ 32) % 2 ^ 64) := by
  rw [LiveMap.lookupElem, if_neg (not_hash arr), if_pos arr.type]
  simp only [arr.data, slot_index arr i hi]

/-- An update whose slot lies in the block. -/
theorem update_slot (i : Nat) (hi : i < 2 ^ 32) (value : Bytes)
    (hvalue : value.length = arr.map.defn.valueSize)
    (hfit : i * arr.map.defn.valueSize % 2 ^ 32 + arr.map.defn.valueSize ≤ arr.block.length) :
    arr.map.updateElem A emptyData (toLE 4 i) value =
      .ok (0, arr.written (i * arr.map.defn.valueSize % 2 ^ 32) value) := by
  have htake : value.take arr.map.defn.valueSize = value :=
    List.take_of_length_le (Nat.le_of_eq hvalue)
  have hstore : arr.map.store arr.base (i * arr.map.defn.valueSize % 2 ^ 32) value =
      .ok (arr.written (i * arr.map.defn.valueSize % 2 ^ 32) value) := by
    by_cases hzero : value.length = 0
    -- Nothing is copied, and overwriting with nothing changes nothing.
    · have hblock : overwrite arr.block (i * arr.map.defn.valueSize % 2 ^ 32) value =
          arr.block := by
        rw [List.length_eq_zero_iff.mp hzero, overwrite_nil]
      have hsame : Function.update arr.map.heap arr.base (some arr.block) = arr.map.heap := by
        rw [Function.update_eq_self_iff, arr.heap]
      simp only [LiveMap.store, hzero, ↓reduceIte, LiveArray.written, hblock, hsame]
    · have hin : i * arr.map.defn.valueSize % 2 ^ 32 + value.length ≤ arr.block.length := by
        rw [hvalue]
        exact hfit
      simp only [LiveMap.store, hzero, ↓reduceIte, arr.heap, hin, LiveArray.written]
  rw [LiveMap.updateElem, if_neg (not_hash arr), if_pos arr.type]
  simp only [arr.data, slot_index arr i hi, htake, hstore]

/-- No update of an array reports an error: it returns zero, or does not
    return. -/
theorem update_never_refuses (i : Nat) (value : Bytes) (code : Int) (m : LiveMap)
    (h : arr.map.updateElem A emptyData (toLE 4 i) value = .ok (code, m)) : code = 0 := by
  rw [LiveMap.updateElem, if_neg (not_hash arr), if_pos arr.type] at h
  simp only [arr.data] at h
  split at h
  · exact absurd h (by simp only [reduceCtorEq, not_false_eq_true])
  · simp only [Except.ok.injEq, Prod.mk.injEq] at h
    exact h.1.symm

/-- The slot of an index below the end, and the address it has. -/
theorem slot_bound (i : Nat) (hi : i < arr.map.defn.maxEntries) :
    i * arr.map.defn.valueSize + arr.map.defn.valueSize ≤ arr.block.length := by
  have hmul : (i + 1) * arr.map.defn.valueSize ≤
      arr.map.defn.maxEntries * arr.map.defn.valueSize := Nat.mul_le_mul_right _ hi
  rw [arr.sized]
  rw [Nat.succ_mul] at hmul
  exact hmul

/-- In range, and without wrapping, the slot is where it should be. -/
theorem lookup_in_range (i : Nat) (hi : i < 2 ^ 32) (hbelow : i < arr.map.defn.maxEntries)
    (hproduct : i * arr.map.defn.valueSize < 2 ^ 32) :
    arr.map.lookupElem (toLE 4 i) = .ok (arr.base + i * arr.map.defn.valueSize) := by
  have hfits := arr.fits
  have hin := slot_bound arr i hbelow
  rw [lookup_slot arr i hi, Nat.mod_eq_of_lt hproduct]
  by_cases hsize : arr.map.defn.valueSize = 0
  · rw [hsize, Nat.mul_zero, Nat.add_zero, Nat.mod_eq_of_lt arr.lt]
  · rw [Nat.mod_eq_of_lt (by omega)]

/-- If the slot is where it should be, neither the address nor the product
    wrapped. -/
theorem product_lt_of_lookup (i : Nat) (hi : i < 2 ^ 32)
    (hlookup : arr.map.lookupElem (toLE 4 i) = .ok (arr.base + i * arr.map.defn.valueSize))
    (hin : i * arr.map.defn.valueSize + arr.map.defn.valueSize ≤ arr.block.length) :
    i * arr.map.defn.valueSize < 2 ^ 32 := by
  have hfits := arr.fits
  rw [lookup_slot arr i hi, Except.ok.injEq] at hlookup
  by_cases hsize : arr.map.defn.valueSize = 0
  · rw [hsize, Nat.mul_zero]
    decide
  · have hle : i * arr.map.defn.valueSize % 2 ^ 32 ≤ i * arr.map.defn.valueSize :=
      Nat.mod_le _ _
    rw [Nat.mod_eq_of_lt (by omega)] at hlookup
    have hsame : i * arr.map.defn.valueSize % 2 ^ 32 = i * arr.map.defn.valueSize :=
      Nat.add_left_cancel hlookup
    rw [← hsame]
    exact Nat.mod_lt _ (by decide)

/-- One slot ends before a later one starts. -/
theorem slot_before (i j : Nat) (hlt : i < j) :
    arr.base + i * arr.map.defn.valueSize + arr.map.defn.valueSize ≤
      arr.base + j * arr.map.defn.valueSize := by
  have hmul : (i + 1) * arr.map.defn.valueSize ≤ j * arr.map.defn.valueSize :=
    Nat.mul_le_mul_right _ hlt
  rw [Nat.succ_mul] at hmul
  omega

/-- An array serves a set of 32-bit indices safely exactly when each of them is
    below `max_entries` and its offset fits 32 bits. -/
theorem array_safe_iff (S : Set Nat) (hS : ∀ i ∈ S, i < 2 ^ 32) :
    ArraySafe A emptyData arr S ↔
      ∀ i ∈ S, i < arr.map.defn.maxEntries ∧ i * arr.map.defn.valueSize < 2 ^ 32 := by
  constructor
  · intro h i hi
    have hbelow : i < arr.map.defn.maxEntries := by
      by_contra hpast
      rcases (h.refused i hi (Nat.not_lt.mp hpast)).2
        (List.replicate arr.map.defn.valueSize 0) List.length_replicate with ⟨code, hcode, hok⟩
      exact hcode (update_never_refuses A emptyData arr i _ code _ hok)
    rcases h.placed i hi hbelow with ⟨hlookup, hin, -⟩
    exact ⟨hbelow, product_lt_of_lookup arr i (hS i hi) hlookup hin⟩
  · intro h
    have hslot : ∀ i ∈ S, arr.map.lookupElem (toLE 4 i) =
        .ok (arr.base + i * arr.map.defn.valueSize) :=
      fun i hi => lookup_in_range arr i (hS i hi) (h i hi).1 (h i hi).2
    refine ⟨?_, ?_, ?_⟩
    · intro i hi hpast
      exact absurd (h i hi).1 (Nat.not_lt.mpr hpast)
    · intro i hi hbelow
      have hin := slot_bound arr i hbelow
      refine ⟨hslot i hi, hin, ?_⟩
      intro value hvalue
      have hmod := Nat.mod_eq_of_lt (h i hi).2
      have hupdate := update_slot A emptyData arr i (hS i hi) value hvalue (by rw [hmod]; exact hin)
      rw [hmod] at hupdate
      exact hupdate
    · intro i hi j hj hne _ _ p q hp hq
      rw [hslot i hi, Except.ok.injEq] at hp
      rw [hslot j hj, Except.ok.injEq] at hq
      rw [← hp, ← hq]
      rcases Nat.lt_or_gt_of_ne hne with hlt | hgt
      · exact .inl (slot_before arr i j hlt)
      · exact .inr (slot_before arr j i hgt)

end

/-! ## Sample arrays -/

section Sample

/-- An array of entries of this size, at a fixed address. -/
def sampleArray (maxEntries valueSize : Nat)
    (h : 0x10000 + maxEntries * valueSize ≤ 2 ^ 64) : LiveArray where
  map := ⟨⟨mapTypeArray, 4, valueSize, maxEntries, 0, 0, 0⟩, .array 0x10000,
    Function.update (fun _ => none) 0x10000 (some (List.replicate (maxEntries * valueSize) 0))⟩
  base := 0x10000
  block := List.replicate (maxEntries * valueSize) 0
  type := rfl
  data := rfl
  heap := by simp only [Function.update_self]
  sized := List.length_replicate
  pos := by decide
  lt := by decide
  fits := by rw [List.length_replicate]; exact h

/-- Sixteen counters of the size of the one of the address translator, each in
    a slot of its own. -/
theorem port_counter_safe :
    ArraySafe (Heap.firstFit 1 1 (by decide) (by decide)) 0 (sampleArray 16 4 (by decide))
      {i | i < 16} := by
  refine (array_safe_iff _ 0 (sampleArray 16 4 (by decide)) {i | i < 16} ?_).mpr ?_
  · intro i hi
    exact Nat.lt_trans hi (by decide)
  · intro i hi
    exact ⟨hi, Nat.lt_trans (Nat.mul_lt_mul_of_pos_right hi (by decide)) (by decide)⟩

/-- The second index of an array of one entry. -/
theorem index_past_end_served :
    ¬ ∀ (A : Allocator Bytes) (emptyData : Addr) (arr : LiveArray),
      ArraySafe A emptyData arr {i | i < 2 ^ 32} := by
  intro hclaim
  have hsafe := hclaim (Heap.firstFit 1 1 (by decide) (by decide)) 0 (sampleArray 1 4 (by decide))
  have hnull := (hsafe.refused 1 (by decide) (by decide)).1
  rw [lookup_slot _ 1 (by decide), Except.ok.injEq] at hnull
  exact absurd hnull (by decide)

end Sample

end UniBPF
