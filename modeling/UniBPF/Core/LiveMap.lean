import UniBPF.Core.Maps

/-!
# Maps in Memory

The map helpers of `bpf_helpers.cc` once more, this time with the pointers
they hand out. `Core.Maps` has the contents of a map as a value, which is what
a load is about; a running program sees addresses. A lookup returns one, and
the program reads and writes behind it until the key is deleted, while other
calls come in between.

The value of a hash map entry is a vector in a node of the table. Nodes do not
move, and assigning a vector of the same size to one reuses its buffer, so the
address of a value stays the same until its key is erased. A vector of size
zero has no buffer; what `data()` returns for it is up to the C++ library
(null in the common ones), and is a parameter. An array is one block of
zeroed memory.

The heap is a set of blocks. A call ends in a fault when memory runs out, or
when an access leaves the block it was meant for.

## Main definitions

* `LiveMap`: A map object and the blocks it uses.
* `newLiveMap`: The objects `do_map_relocation` makes.
* `LiveMap.lookupElem`, `LiveMap.updateElem`, `LiveMap.deleteElem`: The
  helpers.
* `LiveMap.readAt`, `LiveMap.writeAt`: A program's access through a pointer.
* `MapCall`, `liveStep`: A run of a program against one map.
-/

namespace UniBPF

open LittleEndian

/-- Why a call does not return: `std::bad_alloc`, or an access outside the
    block it was meant for. -/
inductive MapFault where
  | badAlloc
  | wild
deriving DecidableEq, Repr

/-- What `map->data` points to: the nodes of an `unordered_map`, each with its
    key and the buffer of its value, or the block of an array. -/
inductive LiveData where
  | hash (nodes : List (Bytes × Addr))
  | array (base : Addr)
deriving DecidableEq, Repr

/-- A `struct bpf_map` and the memory behind it. -/
structure LiveMap where
  defn : MapDef
  data : LiveData
  heap : Heap Bytes

section

variable (A : Allocator Bytes) (emptyData : Addr)

/-- The object `do_map_relocation` makes for a definition, in memory that holds
    no block of its own yet; `none` where it makes none. A failed `calloc` is
    not noticed, and leaves an array at address zero. -/
def newLiveMap (d : MapDef) : Option LiveMap :=
  if d.type = mapTypeHash then some ⟨d, .hash [], fun _ => none⟩
  else if d.type = mapTypeArray then
    if d.keySize ≠ 4 then none
    else
      match A.alloc (fun _ => none) with
      | none => some ⟨d, .array 0, fun _ => none⟩
      | some base =>
        some ⟨d, .array base, Function.update (fun _ => none) base
          (some (List.replicate (d.maxEntries * d.valueSize) 0))⟩
  else none

/-- `index * map.def.value_size`, a 32-bit product. -/
def LiveMap.slot (m : LiveMap) (key : Bytes) : Nat :=
  readLE key 0 4 * m.defn.valueSize % 2 ^ 32

/-- `bpf_map_lookup_elem`. Zero is the null pointer. -/
def LiveMap.lookupElem (m : LiveMap) (key : Bytes) : Except MapFault Addr :=
  if m.defn.type = mapTypeHash then
    match m.data with
    | .hash nodes => .ok ((nodes.lookup (key.take m.defn.keySize)).getD 0)
    | .array _ => .error .wild
  else if m.defn.type = mapTypeArray then
    match m.data with
    | .array base => .ok ((base + m.slot key) % 2 ^ 64)
    | .hash _ => .error .wild
  else .ok 0

/-- `(*hash_map)[key] = value` for a key that has no node yet: a new node, and
    a buffer for its value unless that is empty. -/
def LiveMap.insertNode (m : LiveMap) (nodes : List (Bytes × Addr)) (key value : Bytes) :
    Except MapFault LiveMap :=
  if m.defn.valueSize = 0 then .ok { m with data := .hash (nodes ++ [(key, emptyData)]) }
  else
    match A.alloc m.heap with
    | none => .error .badAlloc
    | some a =>
      .ok { m with
        data := .hash (nodes ++ [(key, a)])
        heap := Function.update m.heap a (some value) }

/-- `(*hash_map)[key] = value` for a key whose node is there: the value is
    copied into the buffer it has. -/
def LiveMap.assignNode (m : LiveMap) (a : Addr) (value : Bytes) : LiveMap :=
  if m.defn.valueSize = 0 then m
  else { m with heap := Function.update m.heap a (some value) }

/-- Copying bytes to an offset in a block. -/
def LiveMap.store (m : LiveMap) (base : Addr) (off : Nat) (bytes : Bytes) :
    Except MapFault LiveMap :=
  if bytes.length = 0 then .ok m
  else
    match m.heap base with
    | none => .error .wild
    | some block =>
      if off + bytes.length ≤ block.length then
        .ok { m with heap := Function.update m.heap base (some (overwrite block off bytes)) }
      else .error .wild

/-- `bpf_map_update_elem`, with the number it returns. -/
def LiveMap.updateElem (m : LiveMap) (key value : Bytes) : Except MapFault (Int × LiveMap) :=
  if m.defn.type = mapTypeHash then
    match m.data with
    | .hash nodes =>
      match nodes.lookup (key.take m.defn.keySize) with
      | some a => .ok (0, m.assignNode a (value.take m.defn.valueSize))
      | none =>
        -- The capacity in the definition is not looked at.
        match m.insertNode A emptyData nodes (key.take m.defn.keySize)
            (value.take m.defn.valueSize) with
        | .error fault => .error fault
        | .ok m' => .ok (0, m')
    | .array _ => .error .wild
  else if m.defn.type = mapTypeArray then
    match m.data with
    | .array base =>
      match m.store base (m.slot key) (value.take m.defn.valueSize) with
      | .error fault => .error fault
      | .ok m' => .ok (0, m')
    | .hash _ => .error .wild
  else .ok (0, m)

/-- `bpf_map_delete_elem`, with the number it returns. -/
def LiveMap.deleteElem (m : LiveMap) (key : Bytes) : Except MapFault (Int × LiveMap) :=
  if m.defn.type = mapTypeHash then
    match m.data with
    | .hash nodes =>
      match nodes.lookup (key.take m.defn.keySize) with
      | none => .ok (0, m)
      | some a =>
        .ok (0,
          { m with
            data := .hash (nodes.filter (fun n => n.1 != key.take m.defn.keySize))
            heap := if m.defn.valueSize = 0 then m.heap else Function.update m.heap a none })
    | .array _ => .error .wild
  else .ok (0, m)

/-- The block a pointer of this map goes into, and how far: the value of a hash
    map entry starts its block, a slot of an array does not. -/
def LiveMap.blockOf (m : LiveMap) (p : Addr) : Addr × Nat :=
  match m.data with
  | .hash _ => (p, 0)
  | .array base => if base ≤ p then (base, p - base) else (p, 0)

/-- A program's read of `len` bytes at an offset from a pointer. -/
def LiveMap.readAt (m : LiveMap) (p : Addr) (off len : Nat) : Except MapFault Bytes :=
  if len = 0 then .ok []
  else
    match m.heap (m.blockOf p).1 with
    | none => .error .wild
    | some block =>
      if (m.blockOf p).2 + off + len ≤ block.length then
        .ok ((block.drop ((m.blockOf p).2 + off)).take len)
      else .error .wild

/-- A program's write at an offset from a pointer. -/
def LiveMap.writeAt (m : LiveMap) (p : Addr) (off : Nat) (bytes : Bytes) :
    Except MapFault LiveMap :=
  m.store (m.blockOf p).1 ((m.blockOf p).2 + off) bytes

/-- What a program does with a map. Reads and writes go through the pointer the
    `j`-th lookup returned. -/
inductive MapCall where
  | update (key value : Bytes)
  | delete (key : Bytes)
  | lookup (key : Bytes)
  | read (j off len : Nat)
  | write (j off : Nat) (bytes : Bytes)
deriving DecidableEq, Repr

/-- What comes back. -/
inductive MapAnswer where
  | status (code : Int)
  | pointer (p : Addr)
  | bytes (bs : Bytes)
  | done
deriving DecidableEq, Repr

/-- A map and the pointers its lookups returned so far. -/
structure LiveState where
  map : LiveMap
  pointers : List Addr

/-- One call, or one access through a pointer. -/
def liveStep (s : LiveState) : MapCall → Except MapFault (MapAnswer × LiveState)
  | .update key value =>
    match s.map.updateElem A emptyData key value with
    | .error fault => .error fault
    | .ok (code, map) => .ok (.status code, { s with map := map })
  | .delete key =>
    match s.map.deleteElem key with
    | .error fault => .error fault
    | .ok (code, map) => .ok (.status code, { s with map := map })
  | .lookup key =>
    match s.map.lookupElem key with
    | .error fault => .error fault
    | .ok p => .ok (.pointer p, { s with pointers := s.pointers ++ [p] })
  | .read j off len =>
    match s.pointers[j]? with
    | none => .error .wild
    | some p =>
      match s.map.readAt p off len with
      | .error fault => .error fault
      | .ok bs => .ok (.bytes bs, s)
  | .write j off bytes =>
    match s.pointers[j]? with
    | none => .error .wild
    | some p =>
      match s.map.writeAt p off bytes with
      | .error fault => .error fault
      | .ok map => .ok (.done, { s with map := map })

end

end UniBPF
