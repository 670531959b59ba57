import UniBPF.Lib.Steps
import UniBPF.Theory.HashCells

/-!
# The Capacity of a Hash Map

A definition comes with `max_entries`. Nothing in the helpers looks at it for
a hash map: an update with a new key inserts a node whatever the number of
nodes, and reports success.

So the bound holds along a run exactly as long as no update brings a new key
to a full map. The other half of the promise is always kept: an update of a
key that is there inserts nothing and succeeds.

## Main definitions

* `LiveState.entries`, `LiveState.has`: The entries of a hash map.
* `capStep`: A call as a step, to the state after it if it returns.
* `CapacityKept`, `RoomFor`: The property of a step, and when it holds.
* `WithinCapacity`: A hash map with at most `max_entries` entries.

## Theorems

* `liveStep_new_key`, `liveStep_old_key`: The two kinds of update.
* `capStep_nodes`: What a call does to the nodes.
* `hash_capacity_iff`: The property over whole runs.
-/

namespace UniBPF

/-- The nodes of a hash map. -/
def LiveState.nodes (s : LiveState) : List (Bytes × Addr) :=
  match s.map.data with
  | .hash nodes => nodes
  | .array _ => []

/-- The number of entries of a hash map. -/
def LiveState.entries (s : LiveState) : Nat := s.nodes.length

/-- The map has an entry for the key. -/
def LiveState.has (s : LiveState) (key : Bytes) : Bool :=
  (s.nodes.lookup (key.take s.map.defn.keySize)).isSome

/-- A hash map that keeps to its capacity. -/
structure WithinCapacity (s : LiveState) : Prop where
  type : s.map.defn.type = mapTypeHash
  data : s.map.data = .hash s.nodes
  bound : s.entries ≤ s.map.defn.maxEntries

section

variable (A : Allocator Bytes) (emptyData : Addr)

/-- The state after a call, if it returns. -/
def capStep (s : LiveState) (call : MapCall) : Option LiveState :=
  match liveStep A emptyData s call with
  | .ok (_, s') => some s'
  | .error _ => none

/-- The call leaves the map within its capacity; an update of a full map
    returns an error and changes nothing if the key is new, and succeeds if it
    is not. -/
structure CapacityKept (s : LiveState) (call : MapCall) : Prop where
  bound : ∀ s', capStep A emptyData s call = some s' → s'.entries ≤ s'.map.defn.maxEntries
  refused : ∀ key value, call = .update key value → s.entries = s.map.defn.maxEntries →
    s.has key = false → ∃ code, code ≠ 0 ∧ liveStep A emptyData s call = .ok (.status code, s)
  accepted : ∀ key value, call = .update key value → s.entries = s.map.defn.maxEntries →
    s.has key = true → ∃ s', liveStep A emptyData s call = .ok (.status 0, s')

/-- The call does not bring a new key to a full map. -/
def RoomFor (s : LiveState) (call : MapCall) : Prop :=
  ∀ key value, call = .update key value → s.has key = false →
    s.entries < s.map.defn.maxEntries

/-- A write into a block leaves the rest of the map alone. -/
theorem store_frame (m m' : LiveMap) (base : Addr) (off : Nat) (bytes : Bytes)
    (h : m.store base off bytes = .ok m') : m'.defn = m.defn ∧ m'.data = m.data := by
  unfold LiveMap.store at h
  split at h
  · rw [← Except.ok.inj h]
    exact ⟨rfl, rfl⟩
  · split at h
    · exact absurd h (by simp only [reduceCtorEq, not_false_eq_true])
    · split at h
      · rw [← Except.ok.inj h]
        exact ⟨rfl, rfl⟩
      · exact absurd h (by simp only [reduceCtorEq, not_false_eq_true])

/-- An update with a new key inserts a node and reports success, unless memory
    runs out. -/
theorem liveStep_new_key (s : LiveState) (htype : s.map.defn.type = mapTypeHash)
    (hdata : s.map.data = .hash s.nodes) (key value : Bytes) (hnew : s.has key = false) :
    liveStep A emptyData s (.update key value) = .error .badAlloc ∨
      ∃ a s', liveStep A emptyData s (.update key value) = .ok (.status 0, s') ∧
        s'.map.defn = s.map.defn ∧
        s'.map.data = .hash (s.nodes ++ [(key.take s.map.defn.keySize, a)]) := by
  have hnone : s.nodes.lookup (key.take s.map.defn.keySize) = none := by
    rw [← Option.not_isSome_iff_eq_none]
    unfold LiveState.has at hnew
    rw [hnew]
    exact Bool.false_ne_true
  -- Only a value that is not empty needs memory of its own.
  by_cases hsize : s.map.defn.valueSize = 0
  · refine .inr ⟨emptyData, { s with map := { s.map with
      data := .hash (s.nodes ++ [(key.take s.map.defn.keySize, emptyData)]) } }, ?_, rfl, rfl⟩
    simp only [liveStep, LiveMap.updateElem, htype, ↓reduceIte, hdata, hnone, LiveMap.insertNode,
      hsize]
  · cases halloc : A.alloc s.map.heap with
    | none =>
        refine .inl ?_
        simp only [liveStep, LiveMap.updateElem, htype, ↓reduceIte, hdata, hnone,
          LiveMap.insertNode, hsize, halloc]
    | some a =>
        refine .inr ⟨a, { s with map := { s.map with
          data := .hash (s.nodes ++ [(key.take s.map.defn.keySize, a)])
          heap := Function.update s.map.heap a (some (value.take s.map.defn.valueSize)) } },
          ?_, rfl, rfl⟩
        simp only [liveStep, LiveMap.updateElem, htype, ↓reduceIte, hdata, hnone,
          LiveMap.insertNode, hsize, halloc]

/-- An update of a key that is there keeps the nodes and reports success. -/
theorem liveStep_old_key (s : LiveState) (htype : s.map.defn.type = mapTypeHash)
    (hdata : s.map.data = .hash s.nodes) (key value : Bytes) (hold : s.has key = true) :
    ∃ s', liveStep A emptyData s (.update key value) = .ok (.status 0, s') ∧
      s'.map.defn = s.map.defn ∧ s'.map.data = .hash s.nodes := by
  rcases Option.isSome_iff_exists.mp hold with ⟨a, ha⟩
  refine ⟨{ s with map := s.map.assignNode a (value.take s.map.defn.valueSize) }, ?_, ?_, ?_⟩
  · simp only [liveStep, LiveMap.updateElem, htype, ↓reduceIte, hdata, ha]
  · unfold LiveMap.assignNode
    split <;> rfl
  · unfold LiveMap.assignNode
    split <;> exact hdata

/-- What a call other than an update does to a hash map: the definition stays,
    and there are no more nodes than before. -/
theorem liveStep_nodes (s s' : LiveState) (htype : s.map.defn.type = mapTypeHash)
    (hdata : s.map.data = .hash s.nodes) (call : MapCall) (answer : MapAnswer)
    (hnot : ∀ key value, call ≠ .update key value)
    (h : liveStep A emptyData s call = .ok (answer, s')) :
    s'.map.defn = s.map.defn ∧
      ∃ nodes, s'.map.data = .hash nodes ∧ nodes.length ≤ s.nodes.length := by
  have hsame : ∃ nodes, s.map.data = .hash nodes ∧ nodes.length ≤ s.nodes.length :=
    ⟨s.nodes, hdata, Nat.le_refl _⟩
  cases call with
  | update key value => exact absurd rfl (hnot key value)
  | delete key =>
      simp only [liveStep, LiveMap.deleteElem, htype, ↓reduceIte, hdata] at h
      cases hnode : s.nodes.lookup (key.take s.map.defn.keySize) with
      | none =>
          simp only [hnode, Except.ok.injEq, Prod.mk.injEq] at h
          rw [← h.2]
          exact ⟨rfl, hsame⟩
      | some a =>
          simp only [hnode, Except.ok.injEq, Prod.mk.injEq] at h
          rw [← h.2]
          exact ⟨rfl, _, rfl, List.length_filter_le _ _⟩
  | lookup key =>
      simp only [liveStep, LiveMap.lookupElem, htype, ↓reduceIte, hdata, Except.ok.injEq,
        Prod.mk.injEq] at h
      rw [← h.2]
      exact ⟨rfl, hsame⟩
  | read j off len =>
      simp only [liveStep] at h
      split at h
      · exact absurd h (by simp only [reduceCtorEq, not_false_eq_true])
      · split at h
        · exact absurd h (by simp only [reduceCtorEq, not_false_eq_true])
        · simp only [Except.ok.injEq, Prod.mk.injEq] at h
          rw [← h.2]
          exact ⟨rfl, hsame⟩
  | write j off bytes =>
      simp only [liveStep] at h
      split at h
      · exact absurd h (by simp only [reduceCtorEq, not_false_eq_true])
      · split at h
        · exact absurd h (by simp only [reduceCtorEq, not_false_eq_true])
        next map hwrite =>
          simp only [Except.ok.injEq, Prod.mk.injEq] at h
          -- A write goes into a buffer, and the nodes stay.
          rcases store_frame _ _ _ _ _ hwrite with ⟨hd, hm⟩
          rw [← h.2]
          exact ⟨hd, s.nodes, hm.trans hdata, Nat.le_refl _⟩

theorem nodes_of_data (s : LiveState) (nodes : List (Bytes × Addr))
    (h : s.map.data = .hash nodes) : s.nodes = nodes := by
  rw [LiveState.nodes, h]

theorem capStep_ok (s s' : LiveState) (call : MapCall) (h : capStep A emptyData s call = some s') :
    ∃ answer, liveStep A emptyData s call = .ok (answer, s') := by
  unfold capStep at h
  cases hlive : liveStep A emptyData s call with
  | error fault =>
      rw [hlive] at h
      exact absurd h (by simp only [reduceCtorEq, not_false_eq_true])
  | ok result =>
      simp only [hlive, Option.some.injEq] at h
      exact ⟨result.1, by rw [← h]⟩

/-- What a call that returns does to a hash map: it stays one, with the
    definition it has, and gains a node only by an update with a new key. -/
theorem capStep_nodes (s s' : LiveState) (call : MapCall)
    (htype : s.map.defn.type = mapTypeHash) (hdata : s.map.data = .hash s.nodes)
    (hstep : capStep A emptyData s call = some s') :
    s'.map.defn = s.map.defn ∧ s'.map.data = .hash s'.nodes ∧
      (s'.entries ≤ s.entries ∨
        s'.entries = s.entries + 1 ∧ ∃ key value, call = .update key value ∧
        s.has key = false) := by
  rcases capStep_ok A emptyData s s' call hstep with ⟨answer, hlive⟩
  -- Only an update adds a node, and only one with a new key.
  by_cases hupdate : ∃ key value, call = .update key value
  · rcases hupdate with ⟨key, value, rfl⟩
    cases hhas : s.has key with
    | false =>
        rcases liveStep_new_key A emptyData s htype hdata key value hhas with
          hbad | ⟨a, s₁, hok, hdefn, hdata'⟩
        · rw [hbad] at hlive
          exact absurd hlive (by simp only [reduceCtorEq, not_false_eq_true])
        · rw [hok] at hlive
          simp only [Except.ok.injEq, Prod.mk.injEq] at hlive
          rw [← hlive.2]
          have hnodes := nodes_of_data s₁ _ hdata'
          refine ⟨hdefn, by rw [hnodes, hdata'], .inr ⟨?_, key, value, rfl, hhas⟩⟩
          rw [LiveState.entries, hnodes, List.length_append, List.length_singleton,
            LiveState.entries]
    | true =>
        rcases liveStep_old_key A emptyData s htype hdata key value hhas with
          ⟨s₁, hok, hdefn, hdata'⟩
        rw [hok] at hlive
        simp only [Except.ok.injEq, Prod.mk.injEq] at hlive
        rw [← hlive.2]
        have hnodes := nodes_of_data s₁ _ hdata'
        refine ⟨hdefn, by rw [hnodes, hdata'], .inl ?_⟩
        rw [LiveState.entries, hnodes, LiveState.entries]
  · rcases liveStep_nodes A emptyData s s' htype hdata call answer
      (fun key value heq => hupdate ⟨key, value, heq⟩) hlive with ⟨hdefn, nodes, hdata', hle⟩
    have hnodes := nodes_of_data s' nodes hdata'
    refine ⟨hdefn, by rw [hnodes, hdata'], .inl ?_⟩
    rw [LiveState.entries, hnodes]
    exact hle

/-- One call keeps a hash map within its capacity, and answers as it should on
    a full one, exactly when it does not bring a new key to a full map. -/
theorem capacity_step_iff (s : LiveState) (call : MapCall) (h : WithinCapacity s) :
    CapacityKept A emptyData s call ↔ RoomFor s call := by
  constructor
  · rintro hkept key value rfl hnew
    by_contra hfull
    have hbound := h.bound
    rcases hkept.refused key value rfl (by omega) hnew with ⟨code, hcode, hlive⟩
    -- The new key is taken in all the same.
    rcases liveStep_new_key A emptyData s h.type h.data key value hnew with
      hbad | ⟨a, s', hok, -⟩
    · rw [hbad] at hlive
      exact absurd hlive (by simp only [reduceCtorEq, not_false_eq_true])
    · rw [hok] at hlive
      simp only [Except.ok.injEq, Prod.mk.injEq, MapAnswer.status.injEq] at hlive
      exact hcode hlive.1.symm
  · intro hroom
    have hbound := h.bound
    refine ⟨?_, ?_, ?_⟩
    · intro s' hstep
      rcases capStep_nodes A emptyData s s' call h.type h.data hstep with
        ⟨hdefn, -, hle | ⟨hsucc, key, value, heq, hnew⟩⟩
      · rw [hdefn]
        omega
      · have hlt := hroom key value heq hnew
        rw [hdefn]
        omega
    · intro key value heq hfull hnew
      have hlt := hroom key value heq hnew
      omega
    · rintro key value rfl hfull hhas
      rcases liveStep_old_key A emptyData s h.type h.data key value hhas with ⟨s₁, hok, -⟩
      exact ⟨s₁, hok⟩

/-- Along every run of calls on a new hash map, the map keeps to its capacity
    and answers updates of a full map as it should, exactly when no update
    brings a new key to a full map. -/
theorem hash_capacity_iff (d : MapDef) (hhash : d.type = mapTypeHash) (calls : List MapCall) :
    Steps.Along (capStep A emptyData) (CapacityKept A emptyData) (newHash d) calls ↔
      Steps.Along (capStep A emptyData) RoomFor (newHash d) calls := by
  -- Past the first violation the map may be over its capacity for good.
  refine Steps.along_iff (capStep A emptyData) _ _ WithinCapacity
    (fun s call h => capacity_step_iff A emptyData s call h) ?_ calls (newHash d)
    ⟨hhash, rfl, Nat.zero_le _⟩
  intro s call s' h hkept hstep
  rcases capStep_nodes A emptyData s s' call h.type h.data hstep with ⟨hdefn, hdata, -⟩
  exact ⟨by rw [hdefn, h.type], hdata, hkept.bound s' hstep⟩

end

/-! ## A sample map -/

section Sample

/-- Room for one address. -/
def oneEntry : MapDef := ⟨mapTypeHash, 4, 8, 1, 0, 0, 0⟩

def bufferAllocator : Allocator Bytes :=
  Heap.firstFit 0x10000 0x1000 Heap.page_pos Heap.page_le

/-- An update, a lookup and a second update of the same key. -/
theorem capacity_one_key :
    Steps.Along (capStep bufferAllocator 0) (CapacityKept bufferAllocator 0) (newHash oneEntry)
      [.update [10, 0, 0, 1] (List.replicate 8 0), .lookup [10, 0, 0, 1],
        .update [10, 0, 0, 1] (List.replicate 8 1)] := by
  refine (hash_capacity_iff bufferAllocator 0 oneEntry rfl _).mpr ⟨?_, fun s₁ h₁ => ⟨?_,
    fun s₂ h₂ => ⟨?_, fun _ _ => trivial⟩⟩⟩
  · intro key value _ _
    decide
  · intro key value heq
    exact absurd heq (by simp only [reduceCtorEq, not_false_eq_true])
  -- By now the map is full, but the key is there.
  · have hrun : ((Steps.run (capStep bufferAllocator 0) (newHash oneEntry)
        [.update [10, 0, 0, 1] (List.replicate 8 0), .lookup [10, 0, 0, 1]]).all
          fun s => s.has [10, 0, 0, 1]) = true := by
      decide +kernel
    rw [Steps.run_cons _ _ s₁ _ _ h₁, Steps.run_cons _ _ s₂ _ _ h₂] at hrun
    rintro key value heq hnew
    cases heq
    exact absurd (hnew.symm.trans hrun) Bool.false_ne_true

/-- Two addresses in a map for one. -/
theorem capacity_exceeded :
    ¬ ∀ (A : Allocator Bytes) (emptyData : Addr) (d : MapDef), d.type = mapTypeHash →
      ∀ calls, Steps.Along (capStep A emptyData) (CapacityKept A emptyData) (newHash d) calls := by
  intro hclaim
  have halong := hclaim bufferAllocator 0 oneEntry rfl
    [.update [10, 0, 0, 1] (List.replicate 8 0), .update [10, 0, 0, 2] (List.replicate 8 0)]
  have hrun : ((Steps.run (capStep bufferAllocator 0) (newHash oneEntry)
      [.update [10, 0, 0, 1] (List.replicate 8 0), .update [10, 0, 0, 2] (List.replicate 8 0)]).any
        fun s => decide (s.entries = 2 ∧ s.map.defn.maxEntries = 1)) = true := by
    decide +kernel
  rcases (Option.any_eq_true _ _).mp hrun with ⟨s₂, hrun, htest⟩
  rcases Steps.run_cons_some _ _ _ _ _ hrun with ⟨s₁, h₁, hrun⟩
  rcases Steps.run_cons_some _ _ _ _ _ hrun with ⟨s, h₂, hrun⟩
  rw [← Option.some.inj hrun] at htest
  have hkept := ((halong.2 s₁ h₁).1).bound s h₂
  have hsizes := of_decide_eq_true htest
  omega

end Sample

end UniBPF
