import UniBPF.Core.LiveMap
import UniBPF.Lib.CellStore

/-!
# Hash Maps Are Stores of Cells

What a program may expect of a hash map: keys of `key_size` bytes lead to
cells of `value_size` bytes; a lookup finds the cell of a key that is there
and gives a handle to it, which stays good until the key is deleted. The
specification is the `CellStore` of keys and values, and the calls it allows
are those with whole keys and values and with accesses inside the cell of a
live handle.

The map follows the specification call by call (`sim_step`): the node of a
key is at one address from its insertion to its deletion, and no two keys
share a buffer. One thing is missing when `value_size` is zero. Then the value
has no buffer, `data()` is null, and the lookup of a key that is there looks
like that of one that is not.

## Main definitions

* `Seen`, `MapAnswer.seen`: What a program can tell from an answer.
* `cellStep`, `cellRun`: The specification.
* `liveRun`: A run of calls against the map.
* `Simulates`: The map represents the store.
* `NoRoom`, `RunsOut`: How a run may stop: at a new key, when there is no
  memory for its value.
* `RefinesCells`: Every allowed run shows what the specification says.

## Theorems

* `lookup_filter_ne`: The nodes that are left after an erasure.
* `sim_update`, `sim_delete`, `sim_lookup`, `sim_read`, `sim_write`: The calls.
* `sim_run`: Whole runs.
* `not_refines_of_empty`: Keys without values are never found.
* `hash_refines_iff`: When the map is a store of cells.
-/

namespace UniBPF

/-- What a program can tell from an answer. Of a pointer it can only tell
    whether it is null. -/
inductive Seen where
  | status (code : Int)
  | found (b : Bool)
  | bytes (bs : Bytes)
  | done
deriving DecidableEq, Repr

def MapAnswer.seen : MapAnswer → Seen
  | .status code => .status code
  | .pointer p => .found (p != 0)
  | .bytes bs => .bytes bs
  | .done => .done

/-- Cells of bytes under keys of bytes. -/
abbrev Cells := CellStore Bytes Bytes

/-- One call against the specification. `none` is a call it does not allow: a
    key or a value of the wrong size, a handle whose key is gone, or an access
    past the end of a cell. -/
def cellStep (d : MapDef) (c : Cells) : MapCall → Option (Seen × Cells)
  | .update key value =>
    if key.length = d.keySize ∧ value.length = d.valueSize then
      some (.status 0, c.put key value)
    else none
  | .delete key => if key.length = d.keySize then some (.status 0, c.erase key) else none
  | .lookup key =>
    if key.length = d.keySize then some (.found (c.cells key).isSome, c.point key) else none
  | .read j off len =>
    match c.target j with
    | none => none
    | some key =>
      match c.cells key with
      | none => none
      | some v =>
        if off + len ≤ d.valueSize then some (.bytes ((v.drop off).take len), c) else none
  | .write j off bytes =>
    match c.target j with
    | none => none
    | some key =>
      match c.cells key with
      | none => none
      | some v =>
        if off + bytes.length ≤ d.valueSize then some (.done, c.put key (overwrite v off bytes))
        else none

/-- What the specification shows in a run, as long as it allows the calls. -/
def cellRun (d : MapDef) : Cells → List MapCall → Option (List Seen)
  | _, [] => some []
  | c, call :: calls =>
    match cellStep d c call with
    | none => none
    | some (seen, c') =>
      match cellRun d c' calls with
      | none => none
      | some rest => some (seen :: rest)

section

variable (A : Allocator Bytes) (emptyData : Addr) (d : MapDef)

/-- What the map shows in a run, up to a fault. -/
def liveRun : LiveState → List MapCall → Except MapFault (List Seen)
  | _, [] => .ok []
  | s, call :: calls =>
    match liveStep A emptyData s call with
    | .error fault => .error fault
    | .ok (answer, s') =>
      match liveRun s' calls with
      | .error fault => .error fault
      | .ok rest => .ok (answer.seen :: rest)

/-- A hash map with these nodes represents the store: the same keys, each with
    its cell in a buffer of its own, and behind every live handle the pointer
    to the cell of its key. -/
structure Simulates (nodes : List (Bytes × Addr)) (s : LiveState) (c : Cells) : Prop where
  type : d.type = mapTypeHash
  defn : s.map.defn = d
  data : s.map.data = .hash nodes
  absent : ∀ k, nodes.lookup k = none → c.cells k = none
  present : ∀ k a, nodes.lookup k = some a → a ≠ 0 ∧ ∃ v, c.cells k = some v ∧
    v.length = d.valueSize ∧ (d.valueSize ≠ 0 → s.map.heap a = some v)
  apart : ∀ k k' a, d.valueSize ≠ 0 → nodes.lookup k = some a → nodes.lookup k' = some a → k = k'
  handles : ∀ j k, c.target j = some k → ∃ a, s.pointers[j]? = some a ∧ nodes.lookup k = some a
  count : s.pointers.length = c.handles.length

/-- The call brings a new key, and the allocator has no memory for its
    value. -/
def NoRoom (s : LiveState) (c : Cells) (call : MapCall) : Prop :=
  A.alloc s.map.heap = none ∧ (∃ key value, call = .update key value ∧ c.cells key = none) ∧
    liveStep A emptyData s call = .error .badAlloc

/-- A call goes as the specification says, unless it finds no memory. -/
def FollowsCall (s : LiveState) (c : Cells) (call : MapCall) (seen : Seen) (c' : Cells) : Prop :=
  NoRoom A emptyData s c call ∨
    ∃ answer s' nodes', liveStep A emptyData s call = .ok (answer, s') ∧ answer.seen = seen ∧
      Simulates d nodes' s' c'

/-- A run that should show `seen` does so up to a call that finds no memory. -/
inductive RunsOut : LiveState → Cells → List MapCall → List Seen → Prop where
  | here (s : LiveState) (c : Cells) (call : MapCall) (calls : List MapCall) (seen : List Seen) :
      NoRoom A emptyData s c call → RunsOut s c (call :: calls) seen
  | later (s s' : LiveState) (c c' : Cells) (call : MapCall) (answer : MapAnswer)
      (calls : List MapCall) (seen : List Seen) :
      liveStep A emptyData s call = .ok (answer, s') →
      cellStep d c call = some (answer.seen, c') → RunsOut s' c' calls seen →
      RunsOut s c (call :: calls) (answer.seen :: seen)

theorem RunsOut.badAlloc {s : LiveState} {c : Cells} {calls : List MapCall} {seen : List Seen}
    (h : RunsOut A emptyData d s c calls seen) :
    liveRun A emptyData s calls = .error .badAlloc := by
  induction h with
  | here s c call calls seen hroom => simp only [liveRun, hroom.2.2]
  | later s s' c c' call answer calls seen hlive _ _ ih => simp only [liveRun, hlive, ih]

end

theorem lookup_append_single (nodes : List (Bytes × Addr)) (k k' : Bytes) (a : Addr)
    (h : nodes.lookup k = none) :
    (nodes ++ [(k, a)]).lookup k' = if k' = k then some a else nodes.lookup k' := by
  rw [List.lookup_append]
  by_cases hk : k' = k
  · rw [if_pos hk, hk, h, Option.none_or]
    simp only [List.lookup_cons, beq_self_eq_true]
  · rw [if_neg hk]
    have hne : (k' == k) = false := by rw [beq_eq_false_iff_ne]; exact hk
    simp only [List.lookup_cons, hne, List.lookup_nil, Option.or_none]

/-- After an erasure every other key has the node it had. -/
theorem lookup_filter_ne (nodes : List (Bytes × Addr)) (k k' : Bytes) :
    (nodes.filter (fun n => n.1 != k)).lookup k' = if k' = k then none else nodes.lookup k' := by
  induction nodes with
  | nil => simp only [List.filter_nil, List.lookup_nil, ite_self]
  | cons n nodes ih =>
      rcases n with ⟨key, a⟩
      by_cases hkey : key = k
      · rw [List.filter_cons_of_neg (by simp only [hkey, bne_self_eq_false, Bool.false_eq_true,
          not_false_eq_true]), ih]
        by_cases hk : k' = k
        · rw [if_pos hk, if_pos hk]
        · have hne : (k' == key) = false := by rw [beq_eq_false_iff_ne, hkey]; exact hk
          simp only [hk, ↓reduceIte, List.lookup_cons, hne]
      · rw [List.filter_cons_of_pos (by simp only [bne_iff_ne, ne_eq, hkey, not_false_eq_true])]
        by_cases hsame : k' = key
        · have hk : ¬ k' = k := by rw [hsame]; exact hkey
          simp only [List.lookup_cons, hsame, beq_self_eq_true, hkey, ↓reduceIte]
        · have hne : (k' == key) = false := by rw [beq_eq_false_iff_ne]; exact hsame
          simp only [List.lookup_cons, hne, ih]

theorem lookup_filter_some (nodes : List (Bytes × Addr)) (k k' : Bytes) (a : Addr)
    (h : (nodes.filter (fun n => n.1 != k)).lookup k' = some a) :
    k' ≠ k ∧ nodes.lookup k' = some a := by
  rw [lookup_filter_ne] at h
  by_cases hk : k' = k
  · rw [if_pos hk] at h
    exact absurd h (by simp only [reduceCtorEq, not_false_eq_true])
  · rw [if_neg hk] at h
    exact ⟨hk, h⟩

section

variable (A : Allocator Bytes) (emptyData : Addr) (d : MapDef)
  (nodes : List (Bytes × Addr)) (s : LiveState) (c : Cells)

/-- A cell changes its value in place: its buffer does, and nothing else. -/
theorem simulates_put (h : Simulates d nodes s c) (k : Bytes) (a : Addr) (v : Bytes)
    (ha : nodes.lookup k = some a) (hv : v.length = d.valueSize) (m : LiveMap)
    (hdefn : m.defn = d) (hdata : m.data = .hash nodes)
    (hheap : d.valueSize ≠ 0 → m.heap = Function.update s.map.heap a (some v)) :
    Simulates d nodes { s with map := m } (c.put k v) where
  type := h.type
  defn := hdefn
  data := hdata
  absent k' hk' := by
    have hne : k' ≠ k := by
      rintro rfl
      rw [ha] at hk'
      exact absurd hk' (by simp only [reduceCtorEq, not_false_eq_true])
    simp only [CellStore.put, Function.update_of_ne hne]
    exact h.absent k' hk'
  present k' a' ha' := by
    by_cases hk : k' = k
    · subst hk
      rw [ha, Option.some.injEq] at ha'
      subst ha'
      refine ⟨(h.present k' a ha).1, v, ?_, hv, ?_⟩
      · simp only [CellStore.put, Function.update_self]
      · intro hsize
        simp only [hheap hsize, Function.update_self]
    · rcases h.present k' a' ha' with ⟨hpos, v', hcell, hlen, hbuf⟩
      refine ⟨hpos, v', ?_, hlen, ?_⟩
      · simp only [CellStore.put, Function.update_of_ne hk]
        exact hcell
      -- Another key has another buffer.
      · intro hsize
        have hne : a' ≠ a := by
          rintro rfl
          exact hk (h.apart k' k a' hsize ha' ha)
        simp only [hheap hsize, Function.update_of_ne hne]
        exact hbuf hsize
  apart := h.apart
  handles := h.handles
  count := h.count

theorem sim_update_present (h : Simulates d nodes s c) (k value : Bytes) (a : Addr)
    (ha : nodes.lookup k = some a) (hk : k.length = d.keySize)
    (hv : value.length = d.valueSize) :
    FollowsCall A emptyData d s c (.update k value) (.status 0) (c.put k value) := by
  have hkey : k.take d.keySize = k := List.take_of_length_le (Nat.le_of_eq hk)
  have hvalue : value.take d.valueSize = value := List.take_of_length_le (Nat.le_of_eq hv)
  refine .inr ⟨.status 0, { s with map := s.map.assignNode a value }, nodes, ?_, rfl, ?_⟩
  · simp only [liveStep, LiveMap.updateElem, h.defn, h.type, ↓reduceIte, h.data, hkey, ha, hvalue]
  · refine simulates_put d nodes s c h k a value ha hv _ ?_ ?_ ?_
    · unfold LiveMap.assignNode
      split
      · exact h.defn
      · exact h.defn
    · unfold LiveMap.assignNode
      split
      · exact h.data
      · exact h.data
    · intro hsize
      simp only [LiveMap.assignNode, h.defn, hsize, ↓reduceIte]

/-- A new node, at an address no cell has yet. -/
theorem simulates_insert (h : Simulates d nodes s c) (k v : Bytes) (a : Addr) (m : LiveMap)
    (hnone : nodes.lookup k = none) (hpos : a ≠ 0) (hv : v.length = d.valueSize)
    (hdefn : m.defn = d) (hdata : m.data = .hash (nodes ++ [(k, a)]))
    (hfree : d.valueSize ≠ 0 → s.map.heap a = none)
    (hheap : d.valueSize ≠ 0 → m.heap = Function.update s.map.heap a (some v)) :
    Simulates d (nodes ++ [(k, a)]) { s with map := m } (c.put k v) := by
  -- Cells that are there are elsewhere.
  have hother : d.valueSize ≠ 0 → ∀ k' a', nodes.lookup k' = some a' → a' ≠ a := by
    rintro hsize k' a' ha' rfl
    rcases h.present k' a' ha' with ⟨-, v', -, -, hbuf⟩
    rw [hfree hsize] at hbuf
    exact absurd (hbuf hsize) (by simp only [reduceCtorEq, not_false_eq_true])
  refine ⟨h.type, hdefn, hdata, ?_, ?_, ?_, ?_, h.count⟩
  · intro k' hk'
    rw [lookup_append_single nodes k k' a hnone] at hk'
    by_cases hk : k' = k
    · rw [if_pos hk] at hk'
      exact absurd hk' (by simp only [reduceCtorEq, not_false_eq_true])
    · rw [if_neg hk] at hk'
      simp only [CellStore.put, Function.update_of_ne hk]
      exact h.absent k' hk'
  · intro k' a' ha'
    rw [lookup_append_single nodes k k' a hnone] at ha'
    by_cases hk : k' = k
    · rw [if_pos hk, Option.some.injEq] at ha'
      subst hk ha'
      refine ⟨hpos, v, ?_, hv, ?_⟩
      · simp only [CellStore.put, Function.update_self]
      · intro hsize
        simp only [hheap hsize, Function.update_self]
    · rw [if_neg hk] at ha'
      rcases h.present k' a' ha' with ⟨hpos', v', hcell, hlen, hbuf⟩
      refine ⟨hpos', v', ?_, hlen, ?_⟩
      · simp only [CellStore.put, Function.update_of_ne hk]
        exact hcell
      · intro hsize
        simp only [hheap hsize, Function.update_of_ne (hother hsize k' a' ha')]
        exact hbuf hsize
  · intro k₁ k₂ b hsize h₁ h₂
    rw [lookup_append_single nodes k _ a hnone] at h₁ h₂
    by_cases hk₁ : k₁ = k
    · by_cases hk₂ : k₂ = k
      · rw [hk₁, hk₂]
      · rw [if_pos hk₁, Option.some.injEq] at h₁
        rw [if_neg hk₂] at h₂
        exact absurd h₁.symm (hother hsize k₂ b h₂)
    · rw [if_neg hk₁] at h₁
      by_cases hk₂ : k₂ = k
      · rw [if_pos hk₂, Option.some.injEq] at h₂
        exact absurd h₂.symm (hother hsize k₁ b h₁)
      · rw [if_neg hk₂] at h₂
        exact h.apart k₁ k₂ b hsize h₁ h₂
  · intro j k' htarget
    rcases h.handles j k' htarget with ⟨a', hp, ha'⟩
    refine ⟨a', hp, ?_⟩
    have hne : k' ≠ k := by
      rintro rfl
      rw [hnone] at ha'
      exact absurd ha' (by simp only [reduceCtorEq, not_false_eq_true])
    rw [lookup_append_single nodes k k' a hnone, if_neg hne]
    exact ha'

theorem sim_update_absent (h : Simulates d nodes s c)
    (hcells : d.valueSize ≠ 0 ∨ emptyData ≠ 0) (k value : Bytes)
    (hnone : nodes.lookup k = none) (hk : k.length = d.keySize)
    (hv : value.length = d.valueSize) :
    FollowsCall A emptyData d s c (.update k value) (.status 0) (c.put k value) := by
  have hkey : k.take d.keySize = k := List.take_of_length_le (Nat.le_of_eq hk)
  have hvalue : value.take d.valueSize = value := List.take_of_length_le (Nat.le_of_eq hv)
  by_cases hsize : d.valueSize = 0
  · refine .inr ⟨.status 0,
      { s with map := { s.map with data := .hash (nodes ++ [(k, emptyData)]) } },
      nodes ++ [(k, emptyData)], ?_, rfl, ?_⟩
    · simp only [liveStep, LiveMap.updateElem, h.defn, h.type, ↓reduceIte, h.data, hkey, hnone,
        LiveMap.insertNode, hsize]
    · refine simulates_insert d nodes s c h k value emptyData _ hnone ?_ hv h.defn rfl ?_ ?_
      · exact hcells.resolve_left (fun hne => hne hsize)
      · exact fun hne => absurd hsize hne
      · exact fun hne => absurd hsize hne
  · cases halloc : A.alloc s.map.heap with
    | none =>
        refine .inl ⟨halloc, ⟨k, value, rfl, h.absent k hnone⟩, ?_⟩
        simp only [liveStep, LiveMap.updateElem, h.defn, h.type, ↓reduceIte, h.data, hkey, hnone,
          LiveMap.insertNode, hsize, halloc]
    | some a =>
        refine .inr ⟨.status 0, { s with map := { s.map with
          data := .hash (nodes ++ [(k, a)])
          heap := Function.update s.map.heap a (some value) } }, nodes ++ [(k, a)], ?_, rfl, ?_⟩
        · simp only [liveStep, LiveMap.updateElem, h.defn, h.type, ↓reduceIte, h.data, hkey, hnone,
            LiveMap.insertNode, hsize, halloc, hvalue]
        · have hpos := A.alloc_pos _ a halloc
          exact simulates_insert d nodes s c h k value a _ hnone (Nat.ne_of_gt hpos) hv h.defn rfl
            (fun _ => A.alloc_free _ a halloc) (fun _ => rfl)

theorem sim_update (h : Simulates d nodes s c) (hcells : d.valueSize ≠ 0 ∨ emptyData ≠ 0)
    (k value : Bytes) (hk : k.length = d.keySize) (hv : value.length = d.valueSize) :
    FollowsCall A emptyData d s c (.update k value) (.status 0) (c.put k value) := by
  cases hnode : nodes.lookup k with
  | none => exact sim_update_absent A emptyData d nodes s c h hcells k value hnode hk hv
  | some a => exact sim_update_present A emptyData d nodes s c h k value a hnode hk hv

/-- Erasing a key that is not there: no cell goes, and no handle. -/
theorem simulates_erase_absent (h : Simulates d nodes s c) (k : Bytes)
    (hnone : nodes.lookup k = none) : Simulates d nodes s (c.erase k) where
  type := h.type
  defn := h.defn
  data := h.data
  absent k' hk' := by
    by_cases heq : k' = k
    · simp only [heq, CellStore.erase, Function.update_self]
    · simp only [CellStore.erase, Function.update_of_ne heq]
      exact h.absent k' hk'
  present k' a' ha' := by
    have hne : k' ≠ k := by
      intro heq
      rw [heq, hnone] at ha'
      exact absurd ha' (by simp only [reduceCtorEq, not_false_eq_true])
    simp only [CellStore.erase, Function.update_of_ne hne]
    exact h.present k' a' ha'
  apart := h.apart
  handles j k' htarget := h.handles j k' ((CellStore.target_erase c k k' j).mp htarget).1
  count := by
    rw [CellStore.erase, List.length_map]
    exact h.count

/-- A node goes, and its buffer. The other keys have other buffers. -/
theorem simulates_erase (h : Simulates d nodes s c) (k : Bytes) (a : Addr) (m : LiveMap)
    (ha : nodes.lookup k = some a) (hdefn : m.defn = d)
    (hdata : m.data = .hash (nodes.filter (fun n => n.1 != k)))
    (hheap : d.valueSize ≠ 0 → m.heap = Function.update s.map.heap a none) :
    Simulates d (nodes.filter (fun n => n.1 != k)) { s with map := m } (c.erase k) where
  type := h.type
  defn := hdefn
  data := hdata
  absent k' hk' := by
    rw [lookup_filter_ne] at hk'
    by_cases heq : k' = k
    · simp only [heq, CellStore.erase, Function.update_self]
    · rw [if_neg heq] at hk'
      simp only [CellStore.erase, Function.update_of_ne heq]
      exact h.absent k' hk'
  present k' a' ha' := by
    rcases lookup_filter_some nodes k k' a' ha' with ⟨hk, hold⟩
    rcases h.present k' a' hold with ⟨hpos, v', hcell, hlen, hbuf⟩
    refine ⟨hpos, v', ?_, hlen, ?_⟩
    · simp only [CellStore.erase, Function.update_of_ne hk]
      exact hcell
    · intro hsize
      -- Two keys with one buffer would be the same key.
      have hne : a' ≠ a := by
        intro heq
        rw [heq] at hold
        exact hk (h.apart k' k a hsize hold ha)
      simp only [hheap hsize, Function.update_of_ne hne]
      exact hbuf hsize
  apart k₁ k₂ b hsize h₁ h₂ :=
    h.apart k₁ k₂ b hsize (lookup_filter_some nodes k k₁ b h₁).2
      (lookup_filter_some nodes k k₂ b h₂).2
  handles j k' htarget := by
    rcases (CellStore.target_erase c k k' j).mp htarget with ⟨htarget, hne⟩
    rcases h.handles j k' htarget with ⟨a', hp, ha'⟩
    exact ⟨a', hp, by rw [lookup_filter_ne, if_neg hne, ha']⟩
  count := by
    rw [CellStore.erase, List.length_map]
    exact h.count

theorem sim_delete (h : Simulates d nodes s c) (k : Bytes) (hk : k.length = d.keySize) :
    FollowsCall A emptyData d s c (.delete k) (.status 0) (c.erase k) := by
  have hkey : k.take d.keySize = k := List.take_of_length_le (Nat.le_of_eq hk)
  cases hnode : nodes.lookup k with
  | none =>
      refine .inr ⟨.status 0, s, nodes, ?_, rfl, simulates_erase_absent d nodes s c h k hnode⟩
      simp only [liveStep, LiveMap.deleteElem, h.defn, h.type, ↓reduceIte, h.data, hkey, hnode]
  | some a =>
      refine .inr ⟨.status 0, { s with map := { s.map with
        data := .hash (nodes.filter (fun n => n.1 != k))
        heap := if d.valueSize = 0 then s.map.heap else Function.update s.map.heap a none } },
        nodes.filter (fun n => n.1 != k), ?_, rfl, ?_⟩
      · simp only [liveStep, LiveMap.deleteElem, h.defn, h.type, ↓reduceIte, h.data, hkey, hnode]
      · exact simulates_erase d nodes s c h k a _ hnode h.defn rfl (fun hsize => if_neg hsize)

theorem sim_lookup (h : Simulates d nodes s c) (k : Bytes) (hk : k.length = d.keySize) :
    FollowsCall A emptyData d s c (.lookup k) (.found (c.cells k).isSome) (c.point k) := by
  have hkey : k.take d.keySize = k := List.take_of_length_le (Nat.le_of_eq hk)
  refine .inr ⟨.pointer ((nodes.lookup k).getD 0),
    { s with pointers := s.pointers ++ [(nodes.lookup k).getD 0] }, nodes, ?_, ?_, ?_⟩
  · simp only [liveStep, LiveMap.lookupElem, h.defn, h.type, ↓reduceIte, h.data, hkey]
  · cases hnode : nodes.lookup k with
    | none =>
        simp only [MapAnswer.seen, Option.getD_none, bne_self_eq_false, h.absent k hnode,
          Option.isSome_none]
    | some a =>
        rcases h.present k a hnode with ⟨hpos, v, hcell, -⟩
        simp only [MapAnswer.seen, Option.getD_some, hcell, Option.isSome_some, bne_iff_ne, ne_eq,
          hpos, not_false_eq_true, Seen.found.injEq]
  · refine ⟨h.type, h.defn, h.data, h.absent, h.present, h.apart, ?_, ?_⟩
    · intro j k' htarget
      rcases (CellStore.target_point c k k' j).mp htarget with htarget | ⟨hj, rfl, hcell⟩
      · rcases h.handles j k' htarget with ⟨a', hp, ha'⟩
        have hlt : j < s.pointers.length := (List.getElem?_eq_some_iff.mp hp).1
        exact ⟨a', by rw [List.getElem?_append_left hlt, hp], ha'⟩
      -- The new handle: the key is there, so it has a node.
      · cases hnode : nodes.lookup k' with
        | none =>
            rw [h.absent k' hnode] at hcell
            exact absurd hcell Bool.false_ne_true
        | some a =>
            refine ⟨a, ?_, rfl⟩
            rw [hj, ← h.count, List.getElem?_concat_length]
            rfl
    · simp only [List.length_append, List.length_singleton, CellStore.point, h.count]

theorem overwrite_nil (data : Bytes) (off : Nat) : overwrite data off [] = data := by
  simp only [overwrite, List.nil_append, List.length_nil, Nat.add_zero, List.take_append_drop]

theorem length_overwrite (data : Bytes) (off : Nat) (bytes : Bytes)
    (h : off + bytes.length ≤ data.length) : (overwrite data off bytes).length = data.length := by
  simp only [overwrite, List.length_append, List.length_take, List.length_drop]
  omega

/-- A live handle comes with the pointer to its cell. -/
theorem sim_target (h : Simulates d nodes s c) (j : Nat) (k v : Bytes)
    (htarget : c.target j = some k) (hcell : c.cells k = some v) :
    ∃ a, s.pointers[j]? = some a ∧ nodes.lookup k = some a ∧ v.length = d.valueSize ∧
      (d.valueSize ≠ 0 → s.map.heap a = some v) := by
  rcases h.handles j k htarget with ⟨a, hp, ha⟩
  rcases h.present k a ha with ⟨-, v', hcell', hlen, hbuf⟩
  rw [hcell, Option.some.injEq] at hcell'
  subst hcell'
  exact ⟨a, hp, ha, hlen, hbuf⟩

theorem sim_read (h : Simulates d nodes s c) (j off len : Nat) (k v : Bytes)
    (htarget : c.target j = some k) (hcell : c.cells k = some v) (hfit : off + len ≤ d.valueSize) :
    FollowsCall A emptyData d s c (.read j off len) (.bytes ((v.drop off).take len)) c := by
  rcases sim_target d nodes s c h j k v htarget hcell with ⟨a, hp, -, hlen, hbuf⟩
  refine .inr ⟨.bytes ((v.drop off).take len), s, nodes, ?_, rfl, h⟩
  by_cases hzero : len = 0
  · simp only [liveStep, hp, LiveMap.readAt, hzero, ↓reduceIte, List.take_zero]
  · have hheap := hbuf (by omega)
    have hin : off + len ≤ v.length := by omega
    simp only [liveStep, hp, LiveMap.readAt, hzero, ↓reduceIte, LiveMap.blockOf, h.data, hheap,
      hin, Nat.zero_add]

theorem sim_write (h : Simulates d nodes s c) (j off : Nat) (bytes k v : Bytes)
    (htarget : c.target j = some k) (hcell : c.cells k = some v)
    (hfit : off + bytes.length ≤ d.valueSize) :
    FollowsCall A emptyData d s c (.write j off bytes) .done (c.put k (overwrite v off bytes)) := by
  rcases sim_target d nodes s c h j k v htarget hcell with ⟨a, hp, ha, hlen, hbuf⟩
  have hlen' : (overwrite v off bytes).length = d.valueSize := by
    rw [length_overwrite v off bytes (by omega), hlen]
  by_cases hzero : bytes.length = 0
  -- Nothing is written, and the cell is what it was.
  · have hsame : overwrite v off bytes = v := by
      rw [List.length_eq_zero_iff.mp hzero, overwrite_nil]
    refine .inr ⟨.done, { s with map := s.map }, nodes, ?_, rfl, ?_⟩
    · simp only [liveStep, hp, LiveMap.writeAt, LiveMap.store, hzero, ↓reduceIte]
    · rw [hsame]
      refine simulates_put d nodes s c h k a v ha hlen _ h.defn h.data ?_
      intro hsize
      rw [eq_comm, Function.update_eq_self_iff, hbuf hsize]
  · have hheap := hbuf (by omega)
    have hin : off + bytes.length ≤ v.length := by omega
    refine .inr ⟨.done, { s with map := { s.map with
      heap := Function.update s.map.heap a (some (overwrite v off bytes)) } }, nodes, ?_, rfl, ?_⟩
    · simp only [liveStep, hp, LiveMap.writeAt, LiveMap.store, hzero, ↓reduceIte, LiveMap.blockOf,
        h.data, hheap, hin, Nat.zero_add]
    · exact simulates_put d nodes s c h k a _ ha hlen' _ h.defn h.data (fun _ => rfl)

/-- Every call the specification allows. -/
theorem sim_step (h : Simulates d nodes s c) (hcells : d.valueSize ≠ 0 ∨ emptyData ≠ 0)
    (call : MapCall) (seen : Seen) (c' : Cells) (hstep : cellStep d c call = some (seen, c')) :
    FollowsCall A emptyData d s c call seen c' := by
  -- Each call is a lemma of its own; what is left here is that the specification allows it.
  cases call with
  | update key value =>
      simp only [cellStep] at hstep
      split at hstep
      · next hsize =>
          simp only [Option.some.injEq, Prod.mk.injEq] at hstep
          rw [← hstep.1, ← hstep.2]
          exact sim_update A emptyData d nodes s c h hcells key value hsize.1 hsize.2
      · exact absurd hstep (by simp only [reduceCtorEq, not_false_eq_true])
  | delete key =>
      simp only [cellStep] at hstep
      split at hstep
      · next hsize =>
          simp only [Option.some.injEq, Prod.mk.injEq] at hstep
          rw [← hstep.1, ← hstep.2]
          exact sim_delete A emptyData d nodes s c h key hsize
      · exact absurd hstep (by simp only [reduceCtorEq, not_false_eq_true])
  | lookup key =>
      simp only [cellStep] at hstep
      split at hstep
      · next hsize =>
          simp only [Option.some.injEq, Prod.mk.injEq] at hstep
          rw [← hstep.1, ← hstep.2]
          exact sim_lookup A emptyData d nodes s c h key hsize
      · exact absurd hstep (by simp only [reduceCtorEq, not_false_eq_true])
  | read j off len =>
      simp only [cellStep] at hstep
      split at hstep
      · exact absurd hstep (by simp only [reduceCtorEq, not_false_eq_true])
      next k htarget =>
        split at hstep
        · exact absurd hstep (by simp only [reduceCtorEq, not_false_eq_true])
        next v hcell =>
          split at hstep
          · next hfit =>
              simp only [Option.some.injEq, Prod.mk.injEq] at hstep
              rw [← hstep.1, ← hstep.2]
              exact sim_read A emptyData d nodes s c h j off len k v htarget hcell hfit
          · exact absurd hstep (by simp only [reduceCtorEq, not_false_eq_true])
  | write j off bytes =>
      simp only [cellStep] at hstep
      split at hstep
      · exact absurd hstep (by simp only [reduceCtorEq, not_false_eq_true])
      next k htarget =>
        split at hstep
        · exact absurd hstep (by simp only [reduceCtorEq, not_false_eq_true])
        next v hcell =>
          split at hstep
          · next hfit =>
              simp only [Option.some.injEq, Prod.mk.injEq] at hstep
              rw [← hstep.1, ← hstep.2]
              exact sim_write A emptyData d nodes s c h j off bytes k v htarget hcell hfit
          · exact absurd hstep (by simp only [reduceCtorEq, not_false_eq_true])

end

/-- A run shows what the specification shows, all of it or up to a call that
    finds no memory. -/
theorem sim_run (A : Allocator Bytes) (emptyData : Addr) (d : MapDef)
    (hcells : d.valueSize ≠ 0 ∨ emptyData ≠ 0) (calls : List MapCall) :
    ∀ (nodes : List (Bytes × Addr)) (s : LiveState) (c : Cells) (seen : List Seen),
      Simulates d nodes s c → cellRun d c calls = some seen →
      RunsOut A emptyData d s c calls seen ∨ liveRun A emptyData s calls = .ok seen := by
  induction calls with
  | nil =>
      intro nodes s c seen _ hrun
      simp only [cellRun, Option.some.injEq] at hrun
      exact .inr (by rw [← hrun]; rfl)
  | cons call calls ih =>
      intro nodes s c seen h hrun
      simp only [cellRun] at hrun
      cases hstep : cellStep d c call with
      | none =>
          rw [hstep] at hrun
          exact absurd hrun (by simp only [reduceCtorEq, not_false_eq_true])
      | some first =>
          simp only [hstep] at hrun
          cases hrest : cellRun d first.2 calls with
          | none =>
              rw [hrest] at hrun
              exact absurd hrun (by simp only [reduceCtorEq, not_false_eq_true])
          | some rest =>
              simp only [hrest, Option.some.injEq] at hrun
              rcases sim_step A emptyData d nodes s c h hcells call first.1 first.2 hstep with
                hroom | ⟨answer, s', nodes', hlive, hseen, hsim⟩
              · exact .inl (.here s c call calls seen hroom)
              · rw [← hrun, ← hseen]
                rcases ih nodes' s' first.2 rest hsim hrest with hout | hok
                · refine .inl (.later s s' c first.2 call answer calls rest hlive ?_ hout)
                  rw [hstep, hseen]
                · exact .inr (by simp only [liveRun, hlive, hok])

/-- A map as `do_map_relocation` makes it. -/
def newHash (d : MapDef) : LiveState := ⟨⟨d, .hash [], fun _ => none⟩, []⟩

theorem newLiveMap_hash (A : Allocator Bytes) (d : MapDef) (h : d.type = mapTypeHash) :
    newLiveMap A d = some (newHash d).map := by
  simp only [newLiveMap, h, ↓reduceIte, newHash]

theorem simulates_new (d : MapDef) (h : d.type = mapTypeHash) :
    Simulates d [] (newHash d) CellStore.empty where
  type := h
  defn := rfl
  data := rfl
  absent _ _ := rfl
  present _ _ ha := absurd ha (by simp only [List.lookup_nil, reduceCtorEq, not_false_eq_true])
  apart _ _ _ _ h₁ := absurd h₁ (by simp only [List.lookup_nil, reduceCtorEq, not_false_eq_true])
  handles _ _ htarget := absurd htarget (by
    simp only [CellStore.target, CellStore.empty, List.getElem?_nil, Option.join_none,
      reduceCtorEq, not_false_eq_true])
  count := rfl

/-- Every run of allowed calls on a new map of this definition shows what a
    store of cells would. Only where the allocator has nothing left may it stop
    on the way, at a key that is new. -/
def RefinesCells (emptyData : Addr) (d : MapDef) : Prop :=
  ∀ (A : Allocator Bytes) (map : LiveMap) (calls : List MapCall) (seen : List Seen),
    newLiveMap A d = some map → cellRun d CellStore.empty calls = some seen →
    RunsOut A emptyData d ⟨map, []⟩ CellStore.empty calls seen ∨
      liveRun A emptyData ⟨map, []⟩ calls = .ok seen

/-- Where values are empty and an empty vector has no address, a key that is
    stored and looked up is not found. -/
theorem not_refines_of_empty (d : MapDef) (hhash : d.type = mapTypeHash)
    (hsize : d.valueSize = 0) : ¬ RefinesCells 0 d := by
  intro hrefines
  have hspec : cellRun d CellStore.empty
      [.update (List.replicate d.keySize 0) [], .lookup (List.replicate d.keySize 0)] =
      some [.status 0, .found true] := by
    simp only [cellRun, cellStep, List.length_replicate, List.length_nil, hsize, and_self,
      ↓reduceIte, CellStore.put, Function.update_self, Option.isSome_some]
  have hlive : liveRun (Heap.firstFit 1 1 (by decide) (by decide)) 0 ⟨(newHash d).map, []⟩
      [.update (List.replicate d.keySize 0) [], .lookup (List.replicate d.keySize 0)] =
      .ok [.status 0, .found false] := by
    have htake : (List.replicate d.keySize (0 : UInt8)).take d.keySize =
        List.replicate d.keySize 0 :=
      List.take_of_length_le (by rw [List.length_replicate])
    simp only [liveRun, liveStep, newHash, LiveMap.updateElem, LiveMap.lookupElem, hhash,
      ↓reduceIte, htake, List.lookup_nil, LiveMap.insertNode, hsize, List.nil_append,
      List.lookup_cons, beq_self_eq_true, Option.getD_some, MapAnswer.seen, bne_self_eq_false]
  rcases hrefines _ _ _ _ (newLiveMap_hash (Heap.firstFit 1 1 (by decide) (by decide)) d hhash)
    hspec with hout | hok
  · have hbad := hout.badAlloc
    rw [hlive] at hbad
    exact absurd hbad (by simp only [reduceCtorEq, not_false_eq_true])
  · rw [hlive] at hok
    exact absurd hok (by decide)

/-- A hash map is a store of cells exactly when its values have a size, or the
    C++ library gives an empty vector an address. -/
theorem hash_refines_iff (emptyData : Addr) (d : MapDef) (hhash : d.type = mapTypeHash) :
    RefinesCells emptyData d ↔ d.valueSize ≠ 0 ∨ emptyData ≠ 0 := by
  constructor
  · intro hrefines
    by_contra hnot
    have hsize : d.valueSize = 0 := by
      by_contra hne
      exact hnot (.inl hne)
    have hnull : emptyData = 0 := by
      by_contra hne
      exact hnot (.inr hne)
    rw [hnull] at hrefines
    exact not_refines_of_empty d hhash hsize hrefines
  · intro hcells A map calls seen hnew hrun
    rw [newLiveMap_hash A d hhash, Option.some.injEq] at hnew
    rw [← hnew]
    exact sim_run A emptyData d hcells calls [] _ _ seen (simulates_new d hhash) hrun

/-- The counters of the rate limiter: four-byte addresses, eight-byte states.
    A counter that is written through the pointer to it is read back. -/
theorem rate_limiter_map_refines :
    RefinesCells 0 ⟨mapTypeHash, 4, 8, 1024, 0, 0, 0⟩ ∧
      liveRun (Heap.firstFit 0x10000 16 (by decide) (by decide)) 0
        (newHash ⟨mapTypeHash, 4, 8, 1024, 0, 0, 0⟩)
        [.update [172, 44, 0, 2] [1, 0, 0, 0, 10, 0, 0, 0], .lookup [172, 44, 0, 2],
          .write 0 0 [3], .lookup [172, 44, 0, 3], .read 0 0 8] =
        .ok [.status 0, .found true, .done, .found false, .bytes [3, 0, 0, 0, 10, 0, 0, 0]] :=
  ⟨(hash_refines_iff 0 ⟨mapTypeHash, 4, 8, 1024, 0, 0, 0⟩ rfl).mpr (.inl (by decide)), rfl⟩

/-- A set of addresses: keys without values. -/
theorem address_set_not_refined :
    ¬ ∀ d : MapDef, d.type = mapTypeHash → RefinesCells 0 d :=
  fun hclaim => not_refines_of_empty ⟨mapTypeHash, 4, 0, 1024, 0, 0, 0⟩ rfl rfl (hclaim _ rfl)

end UniBPF
