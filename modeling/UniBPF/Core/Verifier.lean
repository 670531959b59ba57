import UniBPF.Core.Maps

/-!
# The Verifier's View of an Object

The parts of `ubpf_verifier` that are this repository's own: the platform
description `click_platform.cpp` hands to the verifier, which turns the maps
section of an object into descriptors and a numeric map type into a kind of
map, and `find_main_program` of `main.cpp`, which chooses the function to
verify.

Reading the object and creating a map belong to the verifier library. Both
are parameters. The library keeps a cache of the maps it made up, so creating
one takes a state along.

The build does not define `__click__`. Then a map can only be made up, and a
platform type is not compared with the entry it selects in the table.

## Main definitions

* `EbpfMapType`, `getMapTypeClick`: The table of map types.
* `BpfLoadMapDef`, `loadMapDef`: A map definition as the verifier reads it.
* `EbpfMapDescriptor`, `parseMapsSectionClick`: The maps section.
* `RawProgram`, `findMainProgram`: The function that is verified.
-/

namespace UniBPF

open LittleEndian

/-- `EbpfMapType`. -/
structure EbpfMapType where
  platformSpecificType : Nat
  name : String
  isArray : Bool
deriving DecidableEq, Repr

/-- `click_map_types[0]`. -/
def clickMapHash : EbpfMapType := ⟨0, "HASH", false⟩

/-- `click_map_types[1]`. -/
def clickMapArray : EbpfMapType := ⟨0, "ARRAY", true⟩

def clickMapTypes : List EbpfMapType := [clickMapHash, clickMapArray]

/-- `get_map_type_click`. -/
def getMapTypeClick (platformSpecificType : Nat) : EbpfMapType :=
  let index := platformSpecificType
  if index = 0 ∨ clickMapTypes.length ≤ index then clickMapHash
  else
    { clickMapTypes.getD index clickMapHash with
      platformSpecificType := platformSpecificType }

/-- `struct bpf_load_map_def`. -/
structure BpfLoadMapDef where
  type : Nat
  keySize : Nat
  valueSize : Nat
  maxEntries : Nat
  mapFlags : Nat
  innerMapIdx : Nat
  numaNode : Nat
deriving DecidableEq, Repr

/-- `sizeof(struct bpf_load_map_def)`. -/
def sizeofLoadMapDef : Nat := 28

/-- One round of the first loop of `parse_maps_section_click`: a zeroed
    definition, over which as many bytes are copied as both sides have. `none`
    where the copy leaves the section. -/
def loadMapDef (data : Bytes) (mapDefSize i : Nat) : Option BpfLoadMapDef :=
  let off := i * mapDefSize % 2 ^ 64
  let len := min mapDefSize sizeofLoadMapDef
  if data.length < off + len then none
  else
    let raw := (data.drop off).take len ++ List.replicate (sizeofLoadMapDef - len) 0
    some
      { type := readLE raw 0 4
        keySize := readLE raw 4 4
        valueSize := readLE raw 8 4
        maxEntries := readLE raw 12 4
        mapFlags := readLE raw 16 4
        innerMapIdx := readLE raw 20 4
        numaNode := readLE raw 24 4 }

/-- The first loop, from index `i` on. -/
def loadMapDefs (data : Bytes) (mapDefSize : Nat) : Nat → Nat → Option (List BpfLoadMapDef)
  | 0, _ => some []
  | n + 1, i =>
    match loadMapDef data mapDefSize i with
    | none => none
    | some d =>
      match loadMapDefs data mapDefSize n (i + 1) with
      | none => none
      | some ds => some (d :: ds)

/-- `EbpfMapDescriptor`. -/
structure EbpfMapDescriptor where
  originalFd : Int
  type : Nat
  keySize : Nat
  valueSize : Nat
  maxEntries : Nat
  innerMapFd : Nat
deriving DecidableEq, Repr

/-- `create_map_crab`: a descriptor number for a map of this kind, key size,
    value size and capacity. -/
abbrev CreateMapCrab (σ : Type) := σ → EbpfMapType → Nat → Nat → Nat → Int × σ

section

variable {σ : Type} (createMapCrab : CreateMapCrab σ) (mockMapFds : Bool)

/-- `create_map_click`, which throws unless maps are made up. -/
def createMapClick (s : σ) (mapType keySize valueSize maxEntries : Nat) : Option (Int × σ) :=
  if mockMapFds then
    some (createMapCrab s (getMapTypeClick mapType) keySize valueSize maxEntries)
  else none

/-- The second loop of `parse_maps_section_click`. -/
def describeMaps (s : σ) : List BpfLoadMapDef → Option (List EbpfMapDescriptor × σ)
  | [] => some ([], s)
  | d :: ds =>
    match createMapClick createMapCrab mockMapFds s d.type d.keySize d.valueSize d.maxEntries with
    | none => none
    | some (fd, s') =>
      match describeMaps s' ds with
      | none => none
      | some (es, s'') =>
        some
          ({ originalFd := fd
             type := d.type
             keySize := d.keySize
             valueSize := d.valueSize
             maxEntries := d.maxEntries
             innerMapFd := d.innerMapIdx } :: es, s'')

/-- `parse_maps_section_click`. -/
def parseMapsSectionClick (s : σ) (data : Bytes) (mapDefSize mapCount : Nat) :
    Option (List EbpfMapDescriptor × σ) :=
  match loadMapDefs data mapDefSize mapCount 0 with
  | none => none
  | some mapdefs => describeMaps createMapCrab mockMapFds s mapdefs

end

/-- `raw_program`, as far as its place in the object goes: the name of the
    function, the section it is in, and where it starts there. -/
structure RawProgram where
  functionName : Bytes
  sectionIndex : Nat
  offset : Nat
deriving DecidableEq, Repr

/-- The name `find_main_program` looks for. -/
def mainFunctionName : Bytes := [0x6d, 0x61, 0x69, 0x6e]

/-- `find_main_program`. `none` where `read_elf` throws or nothing is
    found. -/
def findMainProgram (readElf : Bytes → Option (List RawProgram)) (elf : Bytes) :
    Option RawProgram :=
  match readElf elf with
  | none => none
  | some rawPrograms => rawPrograms.find? (fun p => p.functionName == mainFunctionName)

end UniBPF
