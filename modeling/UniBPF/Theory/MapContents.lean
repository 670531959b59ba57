import UniBPF.Theory.HashCells
import UniBPF.Lib.Steps
import Mathlib.Data.List.Nodup

/-!
# The Contents of a Map in Memory

The two accounts of a map belong together. `LiveMap.contents` reads a map in
memory as the value `Core.Maps` works with: the bytes behind every node of a
hash map, or the bytes of the block of an array. Whatever an operation on the
value does, the operation in memory does to the contents (`apply_contents`),
unless memory runs out first, and so for runs of operations. What is said of
values elsewhere, such as what a map holds after a sequence of loads, is then
said of the memory of the running program.

The argument needs that no two nodes share a buffer, or a store to one value
would show in another, and that an array ends before the address space does,
or the pointer to a slot would wrap.

## Main definitions

* `LiveMap.contents`: The value a map in memory stands for.
* `LiveMap.HoldsHash`, `LiveMap.HoldsArray`, `LiveMap.Sound`: Maps whose memory
  is in order.
* `LiveMap.PointsTo`: A pointer leads to what a lookup found.
* `LiveMap.apply`, `LiveMap.applyAll`: Map operations in memory.

## Theorems

* `contents_new`: New maps are in order and hold what new values hold.
* `lookup_contents`: A lookup points to what the value has.
* `hash_apply`, `array_apply`: The operations, on either kind of map.
* `apply_contents`, `applyAll_contents`: Operations and runs of them.
-/

namespace UniBPF

/-- The bytes of a value, by the address of its buffer. Empty values have no
    buffer. -/
def LiveMap.value (m : LiveMap) (a : Addr) : Bytes :=
  if m.defn.valueSize = 0 then [] else (m.heap a).getD []

/-- The value a map in memory stands for. -/
def LiveMap.contents (m : LiveMap) : BpfMap :=
  match m.data with
  | .hash nodes => ⟨m.defn, .hash (nodes.map (fun n => (n.1, m.value n.2)))⟩
  | .array base => ⟨m.defn, .array ((m.heap base).getD [])⟩

/-- A hash map with these nodes, each with a buffer of its own. -/
structure LiveMap.HoldsHash (m : LiveMap) (nodes : List (Bytes × Addr)) : Prop where
  type : m.defn.type = mapTypeHash
  data : m.data = .hash nodes
  filled : m.defn.valueSize ≠ 0 → ∀ n ∈ nodes, n.2 ≠ 0 ∧ ∃ v, m.heap n.2 = some v
  apart : m.defn.valueSize ≠ 0 → (nodes.map Prod.snd).Nodup

/-- An array with its block, which lies inside the address space. -/
structure LiveMap.HoldsArray (m : LiveMap) (base : Nat) (block : Bytes) : Prop where
  type : m.defn.type = mapTypeArray
  data : m.data = .array base
  heap : m.heap base = some block
  pos : 0 < base
  fits : base + block.length ≤ 2 ^ 64

/-- The memory of the map is in order. -/
def LiveMap.Sound (m : LiveMap) : Prop :=
  (∃ nodes, m.HoldsHash nodes) ∨ ∃ base block, m.HoldsArray base block

/-- The pointer a lookup returns leads to what was found, and is null only
    where there is nothing to find or to hold. -/
def LiveMap.PointsTo (m : LiveMap) (p : Addr) (found : Option Bytes) : Prop :=
  match found with
  | none => p = 0
  | some v => (m.defn.valueSize ≠ 0 → p ≠ 0) ∧ m.readAt p 0 v.length = .ok v

section

variable (A : Allocator Bytes) (emptyData : Addr)

/-- A map operation in memory. A write goes through the pointer that a lookup
    returns. -/
def LiveMap.apply (m : LiveMap) : MapOp → Except MapFault LiveMap
  | .update key value => (m.updateElem A emptyData key value).map Prod.snd
  | .delete key => (m.deleteElem key).map Prod.snd
  | .write key off bytes =>
    match m.lookupElem key with
    | .error fault => .error fault
    | .ok p => m.writeAt p off bytes

/-- Operations one after another, up to a fault. -/
def LiveMap.applyAll : LiveMap → List MapOp → Except MapFault LiveMap
  | m, [] => .ok m
  | m, op :: ops =>
    match m.apply A emptyData op with
    | .error fault => .error fault
    | .ok m' => m'.applyAll ops

/-- An operation leaves the memory in order and these contents, unless memory
    runs out. -/
def LiveMap.Leads (m : LiveMap) (op : MapOp) (map : BpfMap) : Prop :=
  m.apply A emptyData op = .error .badAlloc ∨
    ∃ m', m.apply A emptyData op = .ok m' ∧ m'.Sound ∧ m'.contents = map

end

theorem lookup_map_snd {α : Type*} (nodes : List (Bytes × α)) (f : α → Bytes) (k : Bytes) :
    (nodes.map (fun n => (n.1, f n.2))).lookup k = (nodes.lookup k).map f := by
  induction nodes with
  | nil => rfl
  | cons n nodes ih =>
      rw [List.map_cons, List.lookup_cons, List.lookup_cons, ih]
      cases k == n.1 with
      | true => rfl
      | false => rfl

/-- Storing what is there changes nothing. -/
theorem insertEntry_same (entries : List (Bytes × Bytes)) (k v : Bytes)
    (h : entries.lookup k = some v) : insertEntry entries k v = entries := by
  induction entries with
  | nil => exact absurd h (by simp only [List.lookup_nil, reduceCtorEq, not_false_eq_true])
  | cons e es ih =>
      rcases e with ⟨k', v'⟩
      rw [List.lookup_cons] at h
      by_cases hk : k' = k
      · rw [beq_iff_eq.mpr hk.symm, Option.some.injEq] at h
        rw [insertEntry, if_pos hk, h]
      · rw [beq_eq_false_iff_ne.mpr (Ne.symm hk)] at h
        rw [insertEntry, if_neg hk, ih h]

/-- A new key goes to the end. -/
theorem insertEntry_absent (entries : List (Bytes × Bytes)) (k v : Bytes)
    (h : entries.lookup k = none) : insertEntry entries k v = entries ++ [(k, v)] := by
  induction entries with
  | nil => rfl
  | cons e es ih =>
      rcases e with ⟨k', v'⟩
      rw [List.lookup_cons] at h
      by_cases hk : k' = k
      · rw [beq_iff_eq.mpr hk.symm] at h
        exact absurd h (by simp only [reduceCtorEq, not_false_eq_true])
      · rw [beq_eq_false_iff_ne.mpr (Ne.symm hk)] at h
        rw [insertEntry, if_neg hk, ih h, List.cons_append]

theorem mem_of_lookup (nodes : List (Bytes × Addr)) (k : Bytes) (a : Addr)
    (h : nodes.lookup k = some a) : (k, a) ∈ nodes := by
  rcases List.lookup_eq_some_iff.mp h with ⟨l₁, l₂, heq, -⟩
  rw [heq]
  exact List.mem_append_right l₁ List.mem_cons_self

/-- A store to the buffer of one node is a store under its key. -/
theorem map_update_eq_insertEntry (nodes : List (Bytes × Addr)) (heap : Heap Bytes)
    (k v : Bytes) (a : Addr) (ha : nodes.lookup k = some a)
    (hapart : (nodes.map Prod.snd).Nodup) :
    nodes.map (fun n => (n.1, (Function.update heap a (some v) n.2).getD []))
      = insertEntry (nodes.map (fun n => (n.1, (heap n.2).getD []))) k v := by
  induction nodes with
  | nil => exact absurd ha (by simp only [List.lookup_nil, reduceCtorEq, not_false_eq_true])
  | cons n nodes ih =>
      rcases n with ⟨k', a'⟩
      rw [List.map_cons, List.nodup_cons] at hapart
      rw [List.lookup_cons] at ha
      rw [List.map_cons, List.map_cons, insertEntry]
      by_cases hk : k' = k
      · rw [beq_iff_eq.mpr hk.symm, Option.some.injEq] at ha
        -- The nodes behind this one have other buffers.
        have hrest : ∀ n ∈ nodes, ((n.1, (Function.update heap a (some v) n.2).getD []) :
            Bytes × Bytes) = (n.1, (heap n.2).getD []) := by
          intro n hn
          have hne : n.2 ≠ a := by
            intro heq
            rw [ha, ← heq] at hapart
            exact hapart.1 (List.mem_map.mpr ⟨n, hn, rfl⟩)
          rw [Function.update_of_ne hne]
        rw [if_pos hk, List.map_congr_left hrest, ha, Function.update_self, Option.getD_some]
      · rw [beq_eq_false_iff_ne.mpr (Ne.symm hk)] at ha
        have hne : a' ≠ a := by
          intro heq
          rw [heq] at hapart
          exact hapart.1 (List.mem_map.mpr ⟨(k, a), mem_of_lookup nodes k a ha, rfl⟩)
        rw [if_neg hk, ih ha hapart.2, Function.update_of_ne hne]

section

variable (A : Allocator Bytes) (emptyData : Addr) (m : LiveMap)

theorem contents_hash (nodes : List (Bytes × Addr)) (h : m.data = .hash nodes) :
    m.contents = ⟨m.defn, .hash (nodes.map (fun n => (n.1, m.value n.2)))⟩ := by
  simp only [LiveMap.contents, h]

theorem contents_array (base : Nat) (block : Bytes) (h : m.HoldsArray base block) :
    m.contents = ⟨m.defn, .array block⟩ := by
  simp only [LiveMap.contents, h.data, h.heap, Option.getD_some]

/-- The value under a key is in the buffer of its node. -/
theorem lookup_value (nodes : List (Bytes × Addr)) (h : m.HoldsHash nodes) (k : Bytes) (a : Addr)
    (ha : nodes.lookup k = some a) :
    m.defn.valueSize = 0 ∧ m.value a = [] ∨
      m.defn.valueSize ≠ 0 ∧ a ≠ 0 ∧ m.heap a = some (m.value a) := by
  by_cases hsize : m.defn.valueSize = 0
  · exact .inl ⟨hsize, by rw [LiveMap.value, if_pos hsize]⟩
  · rcases h.filled hsize (k, a) (mem_of_lookup nodes k a ha) with ⟨hpos, v, hv⟩
    refine .inr ⟨hsize, hpos, ?_⟩
    rw [LiveMap.value, if_neg hsize, hv, Option.getD_some]

/-- A new value in the buffer of a node. -/
theorem hash_assign (nodes : List (Bytes × Addr)) (h : m.HoldsHash nodes)
    (hsize : m.defn.valueSize ≠ 0) (k v : Bytes) (a : Addr) (ha : nodes.lookup k = some a) :
    LiveMap.Sound { m with heap := Function.update m.heap a (some v) } ∧
      LiveMap.contents { m with heap := Function.update m.heap a (some v) } =
        ⟨m.defn, .hash (insertEntry (nodes.map (fun n => (n.1, m.value n.2))) k v)⟩ := by
  constructor
  · refine .inl ⟨nodes, h.type, h.data, ?_, h.apart⟩
    intro _ n hn
    rcases h.filled hsize n hn with ⟨hpos, v', hv'⟩
    refine ⟨hpos, ?_⟩
    by_cases hn' : n.2 = a
    · exact ⟨v, by simp only [hn', Function.update_self]⟩
    · exact ⟨v', by simp only [Function.update_of_ne hn', hv']⟩
  · rw [contents_hash { m with heap := Function.update m.heap a (some v) } nodes h.data]
    simp only [LiveMap.value, hsize, ↓reduceIte]
    rw [map_update_eq_insertEntry nodes m.heap k v a ha (h.apart hsize)]

/-- A new node, with a buffer that was free. -/
theorem hash_insert (nodes : List (Bytes × Addr)) (h : m.HoldsHash nodes)
    (hsize : m.defn.valueSize ≠ 0) (k v : Bytes) (a : Addr) (hfree : m.heap a = none)
    (hpos : 0 < a) :
    LiveMap.Sound { m with
        data := .hash (nodes ++ [(k, a)])
        heap := Function.update m.heap a (some v) } ∧
      LiveMap.contents { m with
        data := .hash (nodes ++ [(k, a)])
        heap := Function.update m.heap a (some v) } =
        ⟨m.defn, .hash (nodes.map (fun n => (n.1, m.value n.2)) ++ [(k, v)])⟩ := by
  -- The buffers in use are not free.
  have hother : ∀ n ∈ nodes, n.2 ≠ a := by
    intro n hn heq
    rcases h.filled hsize n hn with ⟨-, v', hv'⟩
    rw [heq, hfree] at hv'
    exact absurd hv' (by simp only [reduceCtorEq, not_false_eq_true])
  constructor
  · refine .inl ⟨_, h.type, rfl, ?_, ?_⟩
    · intro _ n hn
      rcases List.mem_append.mp hn with hold | hnew
      · rcases h.filled hsize n hold with ⟨hpos', v', hv'⟩
        exact ⟨hpos', v', by simp only [Function.update_of_ne (hother n hold), hv']⟩
      · rw [List.mem_singleton.mp hnew]
        exact ⟨Nat.ne_of_gt hpos, v, by simp only [Function.update_self]⟩
    · intro _
      rw [List.map_append, List.map_cons, List.map_nil, List.nodup_append]
      refine ⟨h.apart hsize, List.nodup_singleton a, ?_⟩
      intro b hb b' hb'
      rcases List.mem_map.mp hb with ⟨n, hn, hnb⟩
      rw [← hnb, List.mem_singleton.mp hb']
      exact hother n hn
  · have hold : ∀ n ∈ nodes, ((n.1, (Function.update m.heap a (some v) n.2).getD []) :
        Bytes × Bytes) = (n.1, (m.heap n.2).getD []) := by
      intro n hn
      rw [Function.update_of_ne (hother n hn)]
    simp only [LiveMap.contents, LiveMap.value, hsize, ↓reduceIte, List.map_append,
      List.map_congr_left hold, List.map_cons, List.map_nil, Function.update_self,
      Option.getD_some]

theorem hash_update (nodes : List (Bytes × Addr)) (h : m.HoldsHash nodes) (key value : Bytes) :
    m.Leads A emptyData (.update key value)
      ⟨m.defn, .hash (insertEntry (nodes.map (fun n => (n.1, m.value n.2)))
        (key.take m.defn.keySize) (value.take m.defn.valueSize))⟩ := by
  have hkeys := lookup_map_snd nodes m.value (key.take m.defn.keySize)
  cases hnode : nodes.lookup (key.take m.defn.keySize) with
  | some a =>
      rw [hnode, Option.map_some] at hkeys
      refine .inr ⟨m.assignNode a (value.take m.defn.valueSize), ?_, ?_⟩
      · simp only [LiveMap.apply, LiveMap.updateElem, h.type, ↓reduceIte, h.data, hnode,
          Except.map]
      · rcases lookup_value m nodes h _ a hnode with ⟨hsize, hempty⟩ | ⟨hsize, -, -⟩
        -- An empty value is assigned an empty one.
        · rw [hempty] at hkeys
          rw [LiveMap.assignNode, if_pos hsize, hsize, List.take_zero, insertEntry_same _ _ _ hkeys]
          exact ⟨.inl ⟨nodes, h⟩, contents_hash m nodes h.data⟩
        · rw [LiveMap.assignNode, if_neg hsize]
          exact hash_assign m nodes h hsize _ _ a hnode
  | none =>
      rw [hnode, Option.map_none] at hkeys
      rw [insertEntry_absent _ _ _ hkeys]
      -- A new node needs a buffer, unless its value is empty.
      by_cases hsize : m.defn.valueSize = 0
      · refine .inr ⟨{ m with data := .hash (nodes ++ [(key.take m.defn.keySize, emptyData)]) },
          ?_, ?_, ?_⟩
        · simp only [LiveMap.apply, LiveMap.updateElem, h.type, ↓reduceIte, h.data, hnode,
            LiveMap.insertNode, hsize, Except.map]
        · exact .inl ⟨_, h.type, rfl, fun hne => absurd hsize hne, fun hne => absurd hsize hne⟩
        · simp only [LiveMap.contents, LiveMap.value, hsize, ↓reduceIte, List.map_append,
            List.map_cons, List.map_nil, List.take_zero]
      · cases halloc : A.alloc m.heap with
        | none =>
            refine .inl ?_
            simp only [LiveMap.apply, LiveMap.updateElem, h.type, ↓reduceIte, h.data, hnode,
              LiveMap.insertNode, hsize, halloc, Except.map]
        | some a =>
            refine .inr ⟨{ m with
              data := .hash (nodes ++ [(key.take m.defn.keySize, a)])
              heap := Function.update m.heap a (some (value.take m.defn.valueSize)) }, ?_, ?_⟩
            · simp only [LiveMap.apply, LiveMap.updateElem, h.type, ↓reduceIte, h.data, hnode,
                LiveMap.insertNode, hsize, halloc, Except.map]
            · exact hash_insert m nodes h hsize _ _ a (A.alloc_free _ a halloc)
                (A.alloc_pos _ a halloc)

/-- Nodes of other keys have other buffers. -/
theorem buffer_ne (nodes : List (Bytes × Addr)) (h : m.HoldsHash nodes)
    (hsize : m.defn.valueSize ≠ 0) (k : Bytes) (a : Addr) (ha : nodes.lookup k = some a)
    (n : Bytes × Addr) (hn : n ∈ nodes) (hk : n.1 ≠ k) : n.2 ≠ a := by
  intro heq
  have hsame := List.inj_on_of_nodup_map (h.apart hsize) hn (mem_of_lookup nodes k a ha) heq
  rw [hsame] at hk
  exact hk rfl

theorem hash_delete (nodes : List (Bytes × Addr)) (h : m.HoldsHash nodes) (key : Bytes) :
    m.Leads A emptyData (.delete key)
      ⟨m.defn, .hash ((nodes.map (fun n => (n.1, m.value n.2))).filter
        (fun e => e.1 != key.take m.defn.keySize))⟩ := by
  have hfilter : (nodes.map (fun n => (n.1, m.value n.2))).filter
      (fun e => e.1 != key.take m.defn.keySize) =
      (nodes.filter (fun n => n.1 != key.take m.defn.keySize)).map
        (fun n => (n.1, m.value n.2)) := List.filter_map
  rw [hfilter]
  cases hnode : nodes.lookup (key.take m.defn.keySize) with
  | none =>
      -- The filter finds nothing to remove either.
      have hall : nodes.filter (fun n => n.1 != key.take m.defn.keySize) = nodes := by
        rw [List.filter_eq_self]
        intro n hn
        have hne := List.lookup_eq_none_iff.mp hnode n hn
        rw [bne_comm]
        exact hne
      rw [hall]
      refine .inr ⟨m, ?_, .inl ⟨nodes, h⟩, contents_hash m nodes h.data⟩
      simp only [LiveMap.apply, LiveMap.deleteElem, h.type, ↓reduceIte, h.data, hnode, Except.map]
  | some a =>
      refine .inr ⟨{ m with
        data := .hash (nodes.filter (fun n => n.1 != key.take m.defn.keySize))
        heap := if m.defn.valueSize = 0 then m.heap else Function.update m.heap a none },
        ?_, ?_, ?_⟩
      · simp only [LiveMap.apply, LiveMap.deleteElem, h.type, ↓reduceIte, h.data, hnode,
          Except.map]
      · refine .inl ⟨_, h.type, rfl, ?_, ?_⟩
        · intro hsize n hn
          rw [List.mem_filter, bne_iff_ne] at hn
          have hne := buffer_ne m nodes h hsize _ a hnode n hn.1 hn.2
          simp only [show ¬ m.defn.valueSize = 0 from hsize, ↓reduceIte, Function.update_of_ne hne]
          exact h.filled hsize n hn.1
        · intro hsize
          exact (h.apart hsize).sublist (List.filter_sublist.map Prod.snd)
      · rw [contents_hash _ _ rfl]
        congr 2
        refine List.map_congr_left ?_
        intro n hn
        rw [List.mem_filter, bne_iff_ne] at hn
        by_cases hsize : m.defn.valueSize = 0
        · simp only [LiveMap.value, hsize, ↓reduceIte]
        · have hne := buffer_ne m nodes h hsize _ a hnode n hn.1 hn.2
          simp only [LiveMap.value, hsize, ↓reduceIte, Function.update_of_ne hne]

/-- A write behind the pointer of a key, inside its value. -/
theorem hash_write (nodes : List (Bytes × Addr)) (h : m.HoldsHash nodes) (key : Bytes)
    (off : Nat) (bytes : Bytes) (a : Addr)
    (ha : nodes.lookup (key.take m.defn.keySize) = some a)
    (hfit : off + bytes.length ≤ (m.value a).length) :
    m.Leads A emptyData (.write key off bytes)
      ⟨m.defn, .hash (insertEntry (nodes.map (fun n => (n.1, m.value n.2)))
        (key.take m.defn.keySize) (overwrite (m.value a) off bytes))⟩ := by
  have hlookup : m.lookupElem key = .ok a := by
    simp only [LiveMap.lookupElem, h.type, ↓reduceIte, h.data, ha, Option.getD_some]
  by_cases hzero : bytes = []
  · have hkeys : (nodes.map (fun n => (n.1, m.value n.2))).lookup (key.take m.defn.keySize) =
        some (m.value a) := by
      rw [lookup_map_snd nodes m.value, ha, Option.map_some]
    rw [hzero, overwrite_nil, insertEntry_same _ _ _ hkeys]
    refine .inr ⟨m, ?_, .inl ⟨nodes, h⟩, contents_hash m nodes h.data⟩
    simp only [LiveMap.apply, hlookup, LiveMap.writeAt, LiveMap.store, List.length_nil, ↓reduceIte]
  · have hlen : ¬ bytes.length = 0 := by
      rw [List.length_eq_zero_iff]
      exact hzero
    rcases lookup_value m nodes h _ a ha with ⟨-, hempty⟩ | ⟨hsize, -, hheap⟩
    -- No byte lies inside an empty value.
    · rw [hempty, List.length_nil] at hfit
      omega
    · refine .inr ⟨{ m with
        heap := Function.update m.heap a (some (overwrite (m.value a) off bytes)) }, ?_, ?_⟩
      · simp only [LiveMap.apply, hlookup, LiveMap.writeAt, LiveMap.blockOf, h.data, LiveMap.store,
          hlen, ↓reduceIte, hheap, Nat.zero_add, hfit]
      · exact hash_assign m nodes h hsize _ _ a ha

/-- Every operation on a hash map. -/
theorem hash_apply (nodes : List (Bytes × Addr)) (h : m.HoldsHash nodes) (op : MapOp)
    (map : BpfMap) (hop : applyMapOp m.contents op = some map) : m.Leads A emptyData op map := by
  rw [contents_hash m nodes h.data] at hop
  cases op with
  | update key value =>
      simp only [applyMapOp, bpfMapUpdateElem, h.type, ↓reduceIte, Option.some.injEq] at hop
      rw [← hop]
      exact hash_update A emptyData m nodes h key value
  | delete key =>
      simp only [applyMapOp, bpfMapDeleteElem, h.type, ↓reduceIte, Option.some.injEq] at hop
      rw [← hop]
      exact hash_delete A emptyData m nodes h key
  | write key off bytes =>
      simp only [applyMapOp, writeThrough, lookup_map_snd nodes m.value] at hop
      cases hnode : nodes.lookup (key.take m.defn.keySize) with
      | none =>
          rw [hnode] at hop
          exact absurd hop (by simp only [Option.map_none, reduceCtorEq, not_false_eq_true])
      | some a =>
          simp only [hnode, Option.map_some] at hop
          split at hop
          · next hfit =>
              rw [Option.some.injEq] at hop
              rw [← hop]
              exact hash_write A emptyData m nodes h key off bytes a hnode hfit
          · exact absurd hop (by simp only [reduceCtorEq, not_false_eq_true])

theorem LiveMap.HoldsArray.not_hash {m : LiveMap} {base : Nat} {block : Bytes}
    (h : m.HoldsArray base block) : ¬ m.defn.type = mapTypeHash := by
  rw [h.type]
  decide

theorem array_lookupElem (base : Nat) (block : Bytes) (h : m.HoldsArray base block)
    (key : Bytes) : m.lookupElem key = .ok ((base + m.slot key) % 2 ^ 64) := by
  rw [LiveMap.lookupElem, if_neg h.not_hash, if_pos h.type]
  simp only [h.data]

/-- Bytes stored inside the block of an array. -/
theorem array_store (base : Nat) (block : Bytes) (h : m.HoldsArray base block) (off : Nat)
    (bytes : Bytes) (hfit : off + bytes.length ≤ block.length) :
    ∃ m', m.store base off bytes = .ok m' ∧ m'.Sound ∧
      m'.contents = ⟨m.defn, .array (overwrite block off bytes)⟩ := by
  by_cases hzero : bytes = []
  · refine ⟨m, ?_, .inr ⟨base, block, h⟩, ?_⟩
    · simp only [hzero, LiveMap.store, List.length_nil, ↓reduceIte]
    · rw [hzero, overwrite_nil, contents_array m base block h]
  · have hlen : ¬ bytes.length = 0 := by
      rw [List.length_eq_zero_iff]
      exact hzero
    have hnew : LiveMap.HoldsArray
        { m with heap := Function.update m.heap base (some (overwrite block off bytes)) }
        base (overwrite block off bytes) := by
      refine ⟨h.type, h.data, by simp only [Function.update_self], h.pos, ?_⟩
      rw [length_overwrite block off bytes hfit]
      exact h.fits
    refine ⟨_, ?_, .inr ⟨base, _, hnew⟩, contents_array _ base _ hnew⟩
    simp only [LiveMap.store, hlen, ↓reduceIte, h.heap, hfit]

/-- The pointer to a byte of the block, and where it leads. -/
theorem array_blockOf (base : Nat) (block : Bytes) (h : m.HoldsArray base block) (off : Nat)
    (hlt : off < block.length) :
    (base + off) % 2 ^ 64 = base + off ∧ m.blockOf (base + off) = (base, off) := by
  have hfits := h.fits
  refine ⟨Nat.mod_eq_of_lt (by omega), ?_⟩
  simp only [LiveMap.blockOf, h.data, Nat.le_add_right, ↓reduceIte, Nat.add_sub_cancel_left]

theorem array_write (base : Nat) (block : Bytes) (h : m.HoldsArray base block) (key : Bytes)
    (off : Nat) (bytes : Bytes) (hfit : m.slot key + off + bytes.length ≤ block.length) :
    m.Leads A emptyData (.write key off bytes)
      ⟨m.defn, .array (overwrite block (m.slot key + off) bytes)⟩ := by
  have hlookup := array_lookupElem m base block h key
  by_cases hzero : bytes = []
  -- Nothing is stored, wherever the pointer leads.
  · refine .inr ⟨m, ?_, .inr ⟨base, block, h⟩, ?_⟩
    · simp only [hzero, LiveMap.apply, hlookup, LiveMap.writeAt, LiveMap.store, List.length_nil,
        ↓reduceIte]
    · rw [hzero, overwrite_nil, contents_array m base block h]
  · have hlen := List.length_pos_of_ne_nil hzero
    rcases array_blockOf m base block h (m.slot key) (by omega) with ⟨hmod, hblock⟩
    rcases array_store m base block h (m.slot key + off) bytes hfit with ⟨m', hstore, hm'⟩
    refine .inr ⟨m', ?_, hm'⟩
    simp only [LiveMap.apply, hlookup, hmod, LiveMap.writeAt, hblock, hstore]

/-- Every operation on an array. -/
theorem array_apply (base : Nat) (block : Bytes) (h : m.HoldsArray base block) (op : MapOp)
    (map : BpfMap) (hop : applyMapOp m.contents op = some map) : m.Leads A emptyData op map := by
  have hhash := h.not_hash
  have hslot (key : Bytes) : arrayOffset ⟨m.defn, .array block⟩ key = m.slot key := rfl
  rw [contents_array m base block h] at hop
  cases op with
  | update key value =>
      simp only [applyMapOp, bpfMapUpdateElem, if_neg hhash, if_pos h.type, hslot] at hop
      split at hop
      · next hfit =>
          have htake : m.slot key + (value.take m.defn.valueSize).length ≤ block.length := by
            rw [List.length_take]
            omega
          rw [Option.some.injEq] at hop
          rcases array_store m base block h (m.slot key) _ htake with ⟨m', hstore, hsound, hmap⟩
          refine .inr ⟨m', ?_, hsound, hmap.trans hop⟩
          rw [LiveMap.apply, LiveMap.updateElem, if_neg hhash, if_pos h.type]
          simp only [h.data, hstore, Except.map]
      · exact absurd hop (by simp only [reduceCtorEq, not_false_eq_true])
  | delete key =>
      -- Slots of an array are not deleted.
      simp only [applyMapOp, bpfMapDeleteElem, if_neg hhash, Option.some.injEq] at hop
      refine .inr ⟨m, ?_, .inr ⟨base, block, h⟩, (contents_array m base block h).trans hop⟩
      rw [LiveMap.apply, LiveMap.deleteElem, if_neg hhash]
      rfl
  | write key off bytes =>
      simp only [applyMapOp, writeThrough, hslot] at hop
      split at hop
      · next hfit =>
          rw [Option.some.injEq] at hop
          rw [← hop]
          exact array_write A emptyData m base block h key off bytes hfit
      · exact absurd hop (by simp only [reduceCtorEq, not_false_eq_true])

/-- What an operation does to the value, it does to the contents of the map in
    memory. -/
theorem apply_contents (h : m.Sound) (op : MapOp) (map : BpfMap)
    (hop : applyMapOp m.contents op = some map) : m.Leads A emptyData op map := by
  rcases h with ⟨nodes, hhash⟩ | ⟨base, block, harray⟩
  · exact hash_apply A emptyData m nodes hhash op map hop
  · exact array_apply A emptyData m base block harray op map hop

end

/-- The same for operations one after another. -/
theorem applyAll_contents (A : Allocator Bytes) (emptyData : Addr) (ops : List MapOp) :
    ∀ (m : LiveMap) (map : BpfMap), m.Sound → Steps.run applyMapOp m.contents ops = some map →
      m.applyAll A emptyData ops = .error .badAlloc ∨
        ∃ m', m.applyAll A emptyData ops = .ok m' ∧ m'.Sound ∧ m'.contents = map := by
  induction ops with
  | nil =>
      intro m map hm hrun
      simp only [Steps.run, Option.some.injEq] at hrun
      exact .inr ⟨m, rfl, hm, hrun⟩
  | cons op ops ih =>
      intro m map hm hrun
      rcases Steps.run_cons_some applyMapOp m.contents map op ops hrun with ⟨mid, hop, hrest⟩
      rcases apply_contents A emptyData m hm op mid hop with hbad | ⟨m', hok, hm', hmid⟩
      · exact .inl (by simp only [LiveMap.applyAll, hbad])
      · rw [← hmid] at hrest
        simp only [LiveMap.applyAll, hok]
        exact ih m' map hm' hrest

section

variable (m : LiveMap) (key : Bytes) (found : Option Bytes)

theorem hash_lookup (nodes : List (Bytes × Addr)) (h : m.HoldsHash nodes)
    (hfound : bpfMapLookupElem m.contents key = some found) :
    ∃ p, m.lookupElem key = .ok p ∧ m.PointsTo p found := by
  rw [contents_hash m nodes h.data, bpfMapLookupElem, if_pos h.type] at hfound
  simp only [lookup_map_snd nodes m.value, Option.some.injEq] at hfound
  have hlookup : m.lookupElem key = .ok ((nodes.lookup (key.take m.defn.keySize)).getD 0) := by
    simp only [LiveMap.lookupElem, h.type, ↓reduceIte, h.data]
  refine ⟨_, hlookup, ?_⟩
  cases hnode : nodes.lookup (key.take m.defn.keySize) with
  | none =>
      rw [hnode, Option.map_none] at hfound
      rw [← hfound]
      rfl
  | some a =>
      rw [hnode, Option.map_some] at hfound
      rw [← hfound, Option.getD_some]
      rcases lookup_value m nodes h _ a hnode with ⟨hsize, hempty⟩ | ⟨hsize, hpos, hheap⟩
      · rw [hempty]
        exact ⟨fun hne => absurd hsize hne, rfl⟩
      · refine ⟨fun _ => hpos, ?_⟩
        simp only [LiveMap.readAt, LiveMap.blockOf, h.data, hheap, Nat.zero_add, le_refl,
          ↓reduceIte, List.drop_zero, List.take_length]
        split
        · next hlen => rw [List.length_eq_zero_iff.mp hlen]
        · rfl

theorem array_lookup (base : Nat) (block : Bytes) (h : m.HoldsArray base block)
    (hfound : bpfMapLookupElem m.contents key = some found) :
    ∃ p, m.lookupElem key = .ok p ∧ m.PointsTo p found := by
  have hhash := h.not_hash
  have hslot : arrayOffset ⟨m.defn, .array block⟩ key = m.slot key := rfl
  have hlookup := array_lookupElem m base block h key
  rw [contents_array m base block h, bpfMapLookupElem, if_neg hhash, if_pos h.type] at hfound
  simp only [hslot] at hfound
  split at hfound
  · next hfit =>
      rw [Option.some.injEq] at hfound
      have hlen : ((block.drop (m.slot key)).take m.defn.valueSize).length =
          m.defn.valueSize := by
        rw [List.length_take, List.length_drop]
        omega
      refine ⟨_, hlookup, ?_⟩
      rw [← hfound]
      by_cases hsize : m.defn.valueSize = 0
      · rw [hsize, List.take_zero]
        exact ⟨fun hne => absurd hsize hne, rfl⟩
      · rcases array_blockOf m base block h (m.slot key) (by omega) with ⟨hmod, hblock⟩
        have hpos : base + m.slot key ≠ 0 :=
          Nat.ne_of_gt (Nat.lt_of_lt_of_le h.pos (Nat.le_add_right base _))
        rw [hmod]
        refine ⟨fun _ => hpos, ?_⟩
        simp only [LiveMap.readAt, hlen, hsize, ↓reduceIte, hblock, h.heap, Nat.add_zero, hfit]
  · exact absurd hfound (by simp only [reduceCtorEq, not_false_eq_true])

/-- What a lookup finds in the value is behind the pointer it returns in
    memory. -/
theorem lookup_contents (h : m.Sound)
    (hfound : bpfMapLookupElem m.contents key = some found) :
    ∃ p, m.lookupElem key = .ok p ∧ m.PointsTo p found := by
  rcases h with ⟨nodes, hhash⟩ | ⟨base, block, harray⟩
  · exact hash_lookup m key found nodes hhash hfound
  · exact array_lookup m key found base block harray hfound

end

/-- A new map is in order and holds what a new value does, if its block was
    allocated and lies inside the address space. -/
theorem contents_new (A : Allocator Bytes) (d : MapDef) (data : MapData) (m : LiveMap)
    (hdata : newMapData d = some data) (hnew : newLiveMap A d = some m)
    (halloc : d.type = mapTypeArray → ∃ base : Nat, A.alloc (fun _ => none) = some base ∧
      base + d.maxEntries * d.valueSize ≤ 2 ^ 64) :
    m.Sound ∧ m.contents = ⟨d, data⟩ := by
  unfold newMapData at hdata
  unfold newLiveMap at hnew
  split at hdata
  · next hhash =>
      rw [if_pos hhash, Option.some.injEq] at hnew
      rw [Option.some.injEq] at hdata
      rw [← hnew, ← hdata]
      refine ⟨.inl ⟨[], hhash, rfl, ?_, fun _ => List.nodup_nil⟩, rfl⟩
      exact fun _ n hn => absurd hn List.not_mem_nil
  next hhash =>
    split at hdata
    · next harray =>
        split at hdata
        · exact absurd hdata (by simp only [reduceCtorEq, not_false_eq_true])
        next hkey =>
          rcases halloc harray with ⟨base, hbase, hfits⟩
          rw [if_neg hhash, if_pos harray, if_neg hkey, hbase, Option.some.injEq] at hnew
          rw [Option.some.injEq] at hdata
          rw [← hnew, ← hdata]
          refine ⟨.inr ⟨base, List.replicate (d.maxEntries * d.valueSize) 0, harray, rfl, ?_,
            A.alloc_pos _ base hbase, ?_⟩, ?_⟩
          · simp only [Function.update_self]
          · rw [List.length_replicate]
            exact hfits
          · simp only [LiveMap.contents, Function.update_self, Option.getD_some]
    · exact absurd hdata (by simp only [reduceCtorEq, not_false_eq_true])

end UniBPF
