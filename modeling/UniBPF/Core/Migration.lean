import UniBPF.Core.Element
import UniBPF.Core.Filters

/-!
# State Migration

`ebpf/src/bin/state-migration-v1.rs` and `state-migration-v2.rs`: two versions
of a filter that lets ten packets through. The first counts them in 32 bits,
the second in 64, in a map of its own. The first packet the second version
sees carries the count over: a flag in a third map says whether that has
happened.

Each map is an array with one element. A program gets at it through a pointer
that the loader put into its code, and the element is changed in place.
Arithmetic wraps.

A load is one of the loader's. It counts as a load of a version if it ended
without an error and the symbols it bound are the maps of that version: it may
have copied read-only sections too, but it named no other map, no map with
another definition, and left none out.

## Main definitions

* `Version`, `Version.maps`: The two programs and the maps they declare.
* `mainV1`, `handleMigration`, `mainV2`: The programs.
* `Version.boundBy`: A load of a version.
* `Filtering`, `filterStep`: An element that is loaded and sees packets.
-/

namespace UniBPF

open LittleEndian

/-- The programs. -/
inductive Version where
  | v1
  | v2
deriving DecidableEq, Repr

def packetCtrV1 : Bytes := helperName "PACKET_CTR_V1"

def packetCtrV2 : Bytes := helperName "PACKET_CTR_V2"

def versionName : Bytes := helperName "VERSION"

/-- An `Array<u32>` with one element. -/
def counterDef32 : MapDef := ⟨mapTypeArray, 4, 4, 1, 0, 0, 0⟩

/-- An `Array<u64>` with one element. -/
def counterDef64 : MapDef := ⟨mapTypeArray, 4, 8, 1, 0, 0, 0⟩

/-- The maps a program declares, by name. -/
def Version.maps : Version → List (Bytes × MapDef)
  | .v1 => [(packetCtrV1, counterDef32)]
  | .v2 => [(packetCtrV2, counterDef64), (packetCtrV1, counterDef32), (versionName, counterDef64)]

/-- `get_ptr_mut(0)` on the map at an address, with what is behind the
    pointer. -/
def getElem0 (ctx : BpfMapCtx) (a : Addr) : Option (Option Bytes) :=
  match ctx.mapAt a with
  | none => none
  | some map => bpfMapLookupElem map (toLE 4 0)

/-- A write through that pointer. -/
def setElem0 (ctx : BpfMapCtx) (a : Addr) (bytes : Bytes) : Option BpfMapCtx :=
  ctx.mapOp a (.write (toLE 4 0) 0 bytes)

/-- `main` of the first version. -/
def mainV1 (ctx : BpfMapCtx) (packetCtr : Addr) : Option (BpfMapCtx × FilterResult) :=
  match getElem0 ctx packetCtr with
  | none => none
  | some none => some (ctx, .abort)
  | some (some value) =>
    let counter := Bytes.u32 value 0 + 1
    (setElem0 ctx packetCtr (toLE 4 counter.toNat)).map fun ctx' =>
      (ctx', if 10 < counter then .drop else .pass)

/-- What `handle_migration` leaves: the context, and whether the count was
    carried over, `none` where it returns an error. -/
structure Migrated where
  ctx : BpfMapCtx
  copied : Option Bool

/-- `handle_migration`. -/
def handleMigration (ctx : BpfMapCtx) (ctrV2 ctrV1 version : Addr) : Option Migrated :=
  match getElem0 ctx version with
  | none => none
  | some none => some ⟨ctx, none⟩
  | some (some current) =>
    if Bytes.u64 current 0 ≠ 2 then
      match getElem0 ctx ctrV1 with
      | none => none
      | some none => some ⟨ctx, none⟩
      | some (some old) =>
        match getElem0 ctx ctrV2 with
        | none => none
        | some none => some ⟨ctx, none⟩
        | some (some _) =>
          match setElem0 ctx ctrV2 (toLE 8 (Bytes.u32 old 0).toNat) with
          | none => none
          | some copied => (setElem0 copied version (toLE 8 2)).map fun ctx' => ⟨ctx', some true⟩
    else some ⟨ctx, some false⟩

/-- `main` of the second version, with whether it carried the count over. -/
def mainV2 (ctx : BpfMapCtx) (ctrV2 ctrV1 version : Addr) :
    Option (BpfMapCtx × FilterResult × Bool) :=
  match handleMigration ctx ctrV2 ctrV1 version with
  | none => none
  | some ⟨ctx, none⟩ => some (ctx, .abort, false)
  | some ⟨ctx, some copied⟩ =>
    match getElem0 ctx ctrV2 with
    | none => none
    | some none => some (ctx, .abort, copied)
    | some (some value) =>
      let currentCount := Bytes.u64 value 0 + 1
      (setElem0 ctx ctrV2 (toLE 8 currentCount.toNat)).map fun ctx' =>
        (ctx', if 10 < currentCount then .drop else .pass, copied)

/-- A relocation a program of this version has: of a read-only section, or of
    one of its maps. -/
def Version.requests (v : Version) (r : RelocRequest) : Bool :=
  r.symbolSize == 0 || (decide (sizeofMapDef ≤ r.symbolSize) &&
    match r.mapDefinition with
    | some d => v.maps.contains (r.symbolName, d)
    | none => false)

/-- A relocation of the map with this name. -/
def RelocCall.isFor (c : RelocCall) (name : Bytes) : Bool :=
  c.request.symbolSize != 0 && c.request.symbolName == name

/-- The relocations of a load are those of a program of this version. -/
def Version.boundBy (v : Version) (calls : List RelocCall) : Bool :=
  calls.all (fun c => v.requests c.request) &&
    v.maps.all (fun e => calls.any (fun c => c.isFor e.1))

/-- The address of a map in the code: what the callback returned for it. -/
def addressIn (calls : List RelocCall) (name : Bytes) : Addr :=
  match calls.find? (fun c => c.isFor name) with
  | some c => c.result
  | none => 0

/-- The arguments of a load. -/
structure LoadFile where
  vm : Vm
  base : Addr
  buffer : FileBuffer
  main : Option Bytes

/-- The program that runs, with the calls that bound its maps. -/
structure RunningProgram where
  version : Version
  calls : List RelocCall

/-- An element with one of the programs: its maps, the answers it has given,
    and how often the count was carried over. -/
structure Filtering where
  ctx : BpfMapCtx
  program : Option RunningProgram
  answers : List FilterResult
  copies : Nat

def Filtering.new : Filtering := ⟨.empty, none, [], 0⟩

inductive FilterEvent where
  | load (version : Version) (file : LoadFile)
  | packet

variable (A : Allocator Obj)

/-- A load of a version. -/
def loadVersion (s : Filtering) (v : Version) (file : LoadFile) : Option Filtering :=
  match ubpfLoadElfEx (doMapRelocation A) file.base file.vm s.ctx file.buffer file.main with
  | none => none
  | some loaded =>
    if loaded.error.isNone && v.boundBy loaded.calls then
      some { s with ctx := loaded.ctx, program := some ⟨v, loaded.calls⟩ }
    else none

/-- A packet, given to the program that is loaded. -/
def filterPacket (s : Filtering) : Option Filtering :=
  match s.program with
  | none => none
  | some ⟨.v1, calls⟩ =>
    (mainV1 s.ctx (addressIn calls packetCtrV1)).map fun out =>
      { s with ctx := out.1, answers := s.answers ++ [out.2] }
  | some ⟨.v2, calls⟩ =>
    (mainV2 s.ctx (addressIn calls packetCtrV2) (addressIn calls packetCtrV1)
      (addressIn calls versionName)).map fun out =>
        { s with
          ctx := out.1
          answers := s.answers ++ [out.2.1]
          copies := s.copies + if out.2.2 then 1 else 0 }

def filterStep (s : Filtering) : FilterEvent → Option Filtering
  | .load v file => loadVersion A s v file
  | .packet => filterPacket s

end UniBPF
