import UniBPF.Core.Inst
import UniBPF.Lib.Heap

/-!
# Maps and Relocations

`bpf_helpers.cc`: the maps eBPF programs keep their state in, the helpers that
operate on them, and the callback that binds a program's symbols to them when
it is loaded.

A `BpfMapCtx` belongs to one element and outlives the programs loaded into
it. It names maps by the symbol that declared them, and remembers copies of
read-only sections by the address the section had in the file buffer. Both
tables hold pointers, so the context carries the heap those pointers go into.
Nothing in the heap is ever freed.

`doMapRelocation` has one answer for everything: a 64-bit value, which is an
address on success and zero where it printed a message and gave up. A symbol
of size zero is a section and goes to `doDataRelocation`. The definition is
read from the file before its size is looked at, so a definition that lies
outside the buffer has no outcome; `none` stands for that and for an
allocation that fails.

A helper that indexes an array map outside its allocation has no outcome
either. The index arithmetic is the source's, a 32-bit product.

## Main definitions

* `MapDef`, `BpfMap`, `BpfMapCtx`: The data of `bpf_helpers.hh`.
* `bpfMapUpdateElem`, `bpfMapDeleteElem`, `bpfMapLookupElem`: The helpers.
* `MapOp`, `applyMapOp`: What a running program does to a map, in-place
  writes included.
* `RelocRequest`: The arguments of a relocation callback.
* `doDataRelocation`, `doMapRelocation`: The callback.

## Theorems

* `lookup_insertEntry`: Inserting sets one key.
-/

namespace UniBPF

open LittleEndian

/-- `struct bpf_map_def`. -/
structure MapDef where
  type : Nat
  keySize : Nat
  valueSize : Nat
  maxEntries : Nat
  mapFlags : Nat
  innerMapIdx : Nat
  numaNode : Nat
deriving DecidableEq, Repr

/-- `sizeof(struct bpf_map_def)`. -/
def sizeofMapDef : Nat := 28

/-- `BPF_MAP_TYPE_HASH`. -/
def mapTypeHash : Nat := 1

/-- `BPF_MAP_TYPE_ARRAY`. -/
def mapTypeArray : Nat := 2

/-- The definition stored at an offset. -/
def MapDef.parse (bs : Bytes) (off : Nat) : MapDef where
  type := readLE bs off 4
  keySize := readLE bs (off + 4) 4
  valueSize := readLE bs (off + 8) 4
  maxEntries := readLE bs (off + 12) 4
  mapFlags := readLE bs (off + 16) 4
  innerMapIdx := readLE bs (off + 20) 4
  numaNode := readLE bs (off + 24) 4

/-- The comparison of `do_map_relocation`, which leaves out the last three
    fields. -/
def MapDef.same (d e : MapDef) : Bool :=
  d.type == e.type && d.keySize == e.keySize && d.valueSize == e.valueSize &&
    d.maxEntries == e.maxEntries

/-- What `map->data` points to: an `unordered_map` from keys to values, or one
    block of bytes. -/
inductive MapData where
  | hash (entries : List (Bytes × Bytes))
  | array (data : Bytes)
deriving DecidableEq, Repr

/-- `struct bpf_map`. -/
structure BpfMap where
  defn : MapDef
  data : MapData
deriving DecidableEq, Repr

/-- What the relocation code allocates: map objects and copies of
    sections. -/
inductive Obj where
  | bpfMap (map : BpfMap)
  | section (bytes : Bytes)
deriving DecidableEq, Repr

/-- `struct bpf_map_ctx`, with the heap its pointers go into. -/
structure BpfMapCtx where
  mapByName : Bytes → Option Addr
  globalData : Addr → Option Addr
  heap : Heap Obj

/-- `new bpf_map_ctx()`. -/
def BpfMapCtx.empty : BpfMapCtx where
  mapByName := fun _ => none
  globalData := fun _ => none
  heap := fun _ => none

/-- The map object at an address. -/
def BpfMapCtx.mapAt (ctx : BpfMapCtx) (a : Addr) : Option BpfMap :=
  match ctx.heap a with
  | some (.bpfMap map) => some map
  | _ => none

/-- `(*hash_map)[key] = value`. -/
def insertEntry : List (Bytes × Bytes) → Bytes → Bytes → List (Bytes × Bytes)
  | [], key, value => [(key, value)]
  | (k, v) :: es, key, value =>
    if k = key then (k, value) :: es else (k, v) :: insertEntry es key value

/-- Inserting sets one key. -/
theorem lookup_insertEntry (entries : List (Bytes × Bytes)) (key value k : Bytes) :
    (insertEntry entries key value).lookup k
      = if k = key then some value else entries.lookup k := by
  induction entries with
  | nil =>
      simp only [insertEntry, List.lookup_cons, List.lookup_nil]
      by_cases hk : k = key
      · rw [if_pos hk, beq_iff_eq.mpr hk]
      · rw [if_neg hk, beq_eq_false_iff_ne.mpr hk]
  | cons e es ih =>
      rcases e with ⟨k', v⟩
      simp only [insertEntry]
      by_cases hhead : k' = key
      · rw [if_pos hhead, List.lookup_cons, List.lookup_cons, hhead]
        by_cases hk : k = key
        · rw [if_pos hk, beq_iff_eq.mpr hk]
        · rw [if_neg hk, beq_eq_false_iff_ne.mpr hk]
      · rw [if_neg hhead, List.lookup_cons, List.lookup_cons, ih]
        by_cases hk : k = k'
        · have hne : ¬ k = key := fun heq => hhead (hk.symm.trans heq)
          simp only [beq_iff_eq.mpr hk, if_neg hne]
        · simp only [beq_eq_false_iff_ne.mpr hk]

/-- `&data[index * map.def.value_size]`, as an offset. -/
def arrayOffset (map : BpfMap) (key : Bytes) : Nat :=
  readLE key 0 4 * map.defn.valueSize % 2 ^ 32

/-- Overwrite part of a byte string. -/
def overwrite (data : Bytes) (off : Nat) (bytes : Bytes) : Bytes :=
  data.take off ++ (bytes ++ data.drop (off + bytes.length))

/-- `bpf_map_lookup_elem`: the bytes at the pointer it returns, `some none`
    where that is null. -/
def bpfMapLookupElem (map : BpfMap) (key : Bytes) : Option (Option Bytes) :=
  if map.defn.type = mapTypeHash then
    match map.data with
    | .hash entries => some (entries.lookup (key.take map.defn.keySize))
    | .array _ => none
  else if map.defn.type = mapTypeArray then
    match map.data with
    | .array data =>
      if arrayOffset map key + map.defn.valueSize ≤ data.length then
        some (some ((data.drop (arrayOffset map key)).take map.defn.valueSize))
      else none
    | .hash _ => none
  else some none

/-- `bpf_map_update_elem`, which reports success throughout. -/
def bpfMapUpdateElem (map : BpfMap) (key value : Bytes) : Option BpfMap :=
  if map.defn.type = mapTypeHash then
    match map.data with
    | .hash entries =>
      some ⟨map.defn, .hash (insertEntry entries (key.take map.defn.keySize)
        (value.take map.defn.valueSize))⟩
    | .array _ => none
  else if map.defn.type = mapTypeArray then
    match map.data with
    | .array data =>
      if arrayOffset map key + map.defn.valueSize ≤ data.length then
        some ⟨map.defn, .array (overwrite data (arrayOffset map key)
          (value.take map.defn.valueSize))⟩
      else none
    | .hash _ => none
  else some map

/-- `bpf_map_delete_elem`, which only knows hash maps. -/
def bpfMapDeleteElem (map : BpfMap) (key : Bytes) : Option BpfMap :=
  if map.defn.type = mapTypeHash then
    match map.data with
    | .hash entries =>
      some ⟨map.defn, .hash (entries.filter (fun e => e.1 != key.take map.defn.keySize))⟩
    | .array _ => none
  else some map

/-- A program's write through the pointer a lookup of `key` returned. -/
def writeThrough (map : BpfMap) (key : Bytes) (off : Nat) (bytes : Bytes) : Option BpfMap :=
  match map.data with
  | .hash entries =>
    match entries.lookup (key.take map.defn.keySize) with
    | some value =>
      if off + bytes.length ≤ value.length then
        some ⟨map.defn, .hash (insertEntry entries (key.take map.defn.keySize)
          (overwrite value off bytes))⟩
      else none
    | none => none
  | .array data =>
    if arrayOffset map key + off + bytes.length ≤ data.length then
      some ⟨map.defn, .array (overwrite data (arrayOffset map key + off) bytes)⟩
    else none

/-- What a running program does to a map. -/
inductive MapOp where
  | update (key value : Bytes)
  | delete (key : Bytes)
  | write (key : Bytes) (off : Nat) (bytes : Bytes)
deriving DecidableEq, Repr

def applyMapOp (map : BpfMap) : MapOp → Option BpfMap
  | .update key value => bpfMapUpdateElem map key value
  | .delete key => bpfMapDeleteElem map key
  | .write key off bytes => writeThrough map key off bytes

/-- An operation on the map object at an address. -/
def BpfMapCtx.mapOp (ctx : BpfMapCtx) (a : Addr) (op : MapOp) : Option BpfMapCtx :=
  match ctx.mapAt a with
  | none => none
  | some map =>
    match applyMapOp map op with
    | none => none
    | some map' => some { ctx with heap := Function.update ctx.heap a (some (.bpfMap map')) }

/-- The buffer a file was read into. It does not run past the end of the
    address space. -/
structure FileBuffer where
  addr : Nat
  bytes : Bytes
  fits : addr + bytes.length ≤ 2 ^ 64

/-- The arguments of `ubpf_data_relocation`. `mapData` points into the file
    buffer, at offset `dataOff`. -/
structure RelocRequest where
  buffer : FileBuffer
  dataOff : Nat
  mapDataSize : Nat
  symbolName : Bytes
  symbolOffset : Nat
  symbolSize : Nat
  imm : Nat

/-- The `map_data` pointer. -/
def RelocRequest.mapData (r : RelocRequest) : Nat :=
  r.buffer.addr + r.dataOff

/-- The section the request is about. -/
def RelocRequest.contents (r : RelocRequest) : Bytes :=
  (r.buffer.bytes.drop r.dataOff).take r.mapDataSize

/-- The definition at `map_data + symbol_offset`, unless it leaves the
    buffer. -/
def RelocRequest.mapDefinition (r : RelocRequest) : Option MapDef :=
  let a := (r.mapData + r.symbolOffset) % 2 ^ 64
  if r.buffer.addr ≤ a ∧ a + sizeofMapDef ≤ r.buffer.addr + r.buffer.bytes.length then
    some (MapDef.parse r.buffer.bytes (a - r.buffer.addr))
  else none

/-- `do_data_relocation`. -/
def doDataRelocation (A : Allocator Obj) (ctx : BpfMapCtx) (r : RelocRequest) :
    Option (Nat × BpfMapCtx) :=
  -- The key is an address in the file buffer, which does not outlive the load.
  match ctx.globalData r.mapData with
  | some mem => some ((mem + r.imm) % 2 ^ 64, ctx)
  | none =>
    match A.alloc ctx.heap with
    | none => none
    | some mem =>
      some ((mem + r.imm) % 2 ^ 64,
        { ctx with
          heap := Function.update ctx.heap mem (some (.section r.contents))
          globalData := Function.update ctx.globalData r.mapData (some mem) })

/-- The empty contents `do_map_relocation` gives a new map, `none` for a
    definition it does not support. -/
def newMapData (d : MapDef) : Option MapData :=
  if d.type = mapTypeHash then some (.hash [])
  else if d.type = mapTypeArray then
    if d.keySize ≠ 4 then none else some (.array (List.replicate (d.maxEntries * d.valueSize) 0))
  else none

/-- The end of `do_map_relocation`: a map of this definition under this
    name. -/
def bindNewMap (A : Allocator Obj) (ctx : BpfMapCtx) (name : Bytes) (d : MapDef) :
    Option (Nat × BpfMapCtx) :=
  match newMapData d with
  | none => some (0, ctx)
  | some data =>
    match A.alloc ctx.heap with
    | none => none
    | some a =>
      some (a,
        { ctx with
          heap := Function.update ctx.heap a (some (.bpfMap ⟨d, data⟩))
          mapByName := Function.update ctx.mapByName name (some a) })

/-- `do_map_relocation`: the value for the program and the context
    afterwards. -/
def doMapRelocation (A : Allocator Obj) (ctx : BpfMapCtx) (r : RelocRequest) :
    Option (Nat × BpfMapCtx) :=
  -- A symbol without a size is a section.
  if r.symbolSize = 0 then doDataRelocation A ctx r
  else
    -- The definition is read before the size is checked.
    match r.mapDefinition with
    | none => none
    | some d =>
      if r.symbolSize < sizeofMapDef then some (0, ctx)
      else
        match ctx.mapByName r.symbolName with
        | some a =>
          match ctx.mapAt a with
          | none => none
          | some map => if map.defn.same d then some (a, ctx) else some (0, ctx)
        | none => bindNewMap A ctx r.symbolName d

end UniBPF
