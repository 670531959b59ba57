import UniBPF.Core.Elf

/-!
# Linking and Loading

The second half of `ubpf_load_elf_ex`: the relocation pass over the linked
program, and the hand-over to `ubpf_load`.

Relocations are applied in file order to one growing state, the linked
program and the user context of the relocation callback. The pass stops at
the first entry it rejects, and what it did before stays done: the linked
program is thrown away, but the callback's context is the element's own. So
the pass returns its state beside the reason it stopped.

The callback is generic in its context, as `void *user_context` is. Each call
is recorded with its arguments, the place it patches and the value it
returned, and so is every immediate that is written, which is all that a
later reader of the load needs to know about relocations. Nothing in the load
reads the two records.

An entry belongs to the function whose byte range holds its offset. The test
is the source's, strict at both ends.

## Main definitions

* `Rel`, `RelocSite`: A relocation entry, and what it applies to.
* `LinkState`: The linked program, the context, and the callback's calls.
* `relocateData`, `relocateCall`: The two relocation types.
* `relocateSections`: The relocation pass.
* `Loaded`, `ubpfLoadElfEx`: The load.
-/

namespace UniBPF

open LittleEndian

/-- `Elf64_Rel`, with `r_info` taken apart. -/
structure Rel where
  offset : Nat
  sym : Nat
  type : Nat
deriving DecidableEq, Repr

/-- `sizeof(Elf64_Rel)`. -/
def sizeofRel : Nat := 16

def parseRel (elf : Bytes) (off : Nat) : Except Stop Rel :=
  if elf.length < off + sizeofRel then .error .undefined
  else .ok
    { offset := readLE elf off 8
      sym := readLE elf (off + 8) 8 / 2 ^ 32
      type := readLE elf (off + 8) 8 % 2 ^ 32 }

/-- `R_BPF_64_64`. -/
def rBpf64x64 : Nat := 1

/-- `R_BPF_64_32`. -/
def rBpf64x32 : Nat := 2

/-- The arguments of `ubpf_data_relocation` and its answer, `none` where the
    call has no outcome. -/
abbrev DataRelocation (σ : Type) := σ → RelocRequest → Option (Nat × σ)

/-- One call of the callback: the arguments, the offset of the patched
    instruction in the linked program, and the value returned. -/
structure RelocCall where
  request : RelocRequest
  pos : Nat
  result : Nat

/-- A 32-bit immediate written into the linked program. -/
structure Patch where
  offset : Nat
  value : Nat
deriving DecidableEq, Repr

/-- The state of the relocation pass. -/
structure LinkState (σ : Type) where
  code : Bytes
  ctx : σ
  calls : List RelocCall
  patches : List Patch

/-- What the loader knows of an entry before it looks at its type. -/
structure RelocSite where
  rel : Rel
  sym : Sym
  appliesTo : Section
  source : RelocatedFunction
deriving DecidableEq, Repr

/-- `applies_to_inst`, as an offset in the linked program. -/
def RelocSite.pos (site : RelocSite) : Nat :=
  site.source.linkedData + (site.rel.offset - site.source.nativeSectionStart)

/-- `applies_to_inst_index`. -/
def RelocSite.index (site : RelocSite) : Nat :=
  site.source.landed + (site.rel.offset - site.source.nativeSectionStart) / 8

/-- The search for the function an entry belongs to. -/
def findSource (functions : List RelocatedFunction) (sec : Section) (offset : Nat) :
    Option RelocatedFunction :=
  functions.find? fun f =>
    sec.shdr == f.shdr && decide (f.nativeSectionStart < offset) &&
      decide (offset < (f.nativeSectionStart + f.size) % 2 ^ 64)

/-- The checks every entry goes through. -/
def resolveEntry (elf : Bytes) (layout : Layout) (appliesTo symtab : Section) (rel : Rel) :
    Except Stop RelocSite :=
  if symtab.size / sizeofSym % 2 ^ 32 ≤ rel.sym then .error (.error .badRelocationSymbol)
  else
    match parseSym elf (symtab.offset + rel.sym * sizeofSym) with
    | .error stop => .error stop
    | .ok sym =>
      if layout.strtab.size ≤ sym.name then .error (.error .badRelocationName)
      else
        match findSource layout.functions appliesTo rel.offset with
        | none => .error (.error .relocationOutsideFunctions)
        | some source => .ok ⟨rel, sym, appliesTo, source⟩

variable {σ : Type}

/-- Write an immediate. -/
def applyPatch (code : Bytes) (p : Patch) : Bytes :=
  writeLE code p.offset 4 p.value

/-- The two immediates of a double-word load that hold a 64-bit value, half in
    each slot. -/
def lddwPatches (pos imm : Nat) : List Patch :=
  [⟨pos + 4, imm⟩, ⟨pos + 12, imm / 2 ^ 32⟩]

/-- An immediate as the callback receives it, sign-extended to 64 bits. -/
def signExtend (imm : Nat) : Nat :=
  if imm < 2 ^ 31 then imm else imm + (2 ^ 64 - 2 ^ 32)

/-- The request an `R_BPF_64_64` entry makes. -/
def dataRequest (buffer : FileBuffer) (map : Section) (name : Bytes) (site : RelocSite)
    (code : Bytes) : RelocRequest where
  buffer := buffer
  dataOff := map.offset
  mapDataSize := map.size
  symbolName := name
  symbolOffset := site.sym.value
  symbolSize := site.sym.size
  imm := signExtend (readLE code (site.pos + 4) 4)

/-- The section types and flags a data relocation accepts. -/
def Section.holdsData (map : Section) : Bool :=
  map.type == shtProgbits || map.flags == shfAlloc + shfWrite || map.flags == shfAlloc ||
    map.flags == shfAlloc + shfStrings

/-- The checks of the `R_BPF_64_64` case, up to the callback: the section the
    symbol is in. -/
def checkData (layout : Layout) (site : RelocSite) (code : Bytes) : Except Stop Section :=
  -- The order of the checks is the source's, and so are the sums modulo 2 ^ 64.
  if site.appliesTo.size < (site.rel.offset + 8) % 2 ^ 64 then
    .error (.error .badRelocationOffset)
  else if layout.sections.length < site.sym.shndx then .error (.error .badRelocationSection)
  else
    match layout.sections[site.sym.shndx]? with
    | none => .error .undefined
    | some map =>
      if !map.holdsData then .error (.error .badRelocationSectionType)
      else if map.size < (site.sym.size + site.sym.value) % 2 ^ 64 then
        .error (.error .badRelocationSize)
      else if code[site.pos]? ≠ some 0x18 then .error (.error .badRelocationInstruction)
      else if site.appliesTo.size < (site.rel.offset + 16) % 2 ^ 64 then
        .error (.error .badRelocationOffset)
      else .ok map

/-- The `R_BPF_64_64` case. Both halves of the load are written, so the pair
    has to lie inside the linked program. -/
def relocateData (reloc : DataRelocation σ) (buffer : FileBuffer) (layout : Layout)
    (site : RelocSite) (s : LinkState σ) : Option Stop × LinkState σ :=
  match checkData layout site s.code with
  | .error stop => (some stop, s)
  | .ok map =>
    if s.code.length < site.pos + 16 then (some .undefined, s)
    else
      match cString buffer.bytes (layout.strtab.offset + site.sym.name) with
      | none => (some .undefined, s)
      | some name =>
        let request := dataRequest buffer map name site s.code
        -- Whatever the callback returns is taken for an address, zero included.
        match reloc s.ctx request with
        | none => (some .undefined, s)
        | some (imm, ctx) =>
          (none,
            { code := (lddwPatches site.pos imm).foldl applyPatch s.code
              ctx := ctx
              calls := s.calls ++ [⟨request, site.pos, imm⟩]
              patches := s.patches ++ lddwPatches site.pos imm })

/-- The new immediate of a local call. -/
def localCallImm (layout : Layout) (site : RelocSite) (code : Bytes) : Except Stop Nat :=
  match layout.sections[site.sym.shndx]? with
  | none => .error .undefined
  | some sec =>
    let offsetInTarget := (readLE code (site.pos + 4) 4 + 1) * 8 % 2 ^ 32
    match layout.functions.find? (fun f =>
        sec.shdr == f.shdr && offsetInTarget == f.nativeSectionStart) with
    | none => .error (.error .unknownCallTarget)
    | some target => .ok ((target.landed + 2 ^ 32 - (site.index + 1) % 2 ^ 32) % 2 ^ 32)

/-- The new immediate of a helper call. -/
def helperCallImm (vm : Vm) (buffer : FileBuffer) (layout : Layout) (site : RelocSite) :
    Except Stop Nat :=
  match cString buffer.bytes (layout.strtab.offset + site.sym.name) with
  | none => .error .undefined
  | some name =>
    match ubpfLookupRegisteredFunction vm name with
    | none => .error (.error .unknownHelper)
    | some idx => .ok idx

/-- The `R_BPF_64_32` case: a local call when the source register says so, a
    helper call by name otherwise. The opcode is not looked at. -/
def relocateCall (vm : Vm) (buffer : FileBuffer) (layout : Layout) (site : RelocSite)
    (s : LinkState σ) : Option Stop × LinkState σ :=
  if s.code.length < site.pos + 8 then (some .undefined, s)
  else
    -- The source register is the high half of the second byte.
    let imm :=
      if readLE s.code (site.pos + 1) 1 / 16 = 1 then localCallImm layout site s.code
      else helperCallImm vm buffer layout site
    match imm with
    | .error stop => (some stop, s)
    | .ok imm =>
      (none,
        { s with
          code := applyPatch s.code ⟨site.pos + 4, imm⟩
          patches := s.patches ++ [⟨site.pos + 4, imm⟩] })

/-- One round of the relocation loop. An unknown type is skipped. -/
def relocateEntry (reloc : DataRelocation σ) (vm : Vm) (buffer : FileBuffer) (layout : Layout)
    (appliesTo symtab relo : Section) (j : Nat) (s : LinkState σ) : Option Stop × LinkState σ :=
  match parseRel buffer.bytes (relo.offset + j * sizeofRel) with
  | .error stop => (some stop, s)
  | .ok rel =>
    match resolveEntry buffer.bytes layout appliesTo symtab rel with
    | .error stop => (some stop, s)
    | .ok site =>
      if rel.type = rBpf64x64 then relocateData reloc buffer layout site s
      else if rel.type = rBpf64x32 then relocateCall vm buffer layout site s
      else (none, s)

/-- Go through a list until one element stops. -/
def untilStop {α S : Type} (f : α → S → Option Stop × S) : List α → S → Option Stop × S
  | [], s => (none, s)
  | x :: xs, s =>
    match f x s with
    | (none, s') => untilStop f xs s'
    | (some stop, s') => (some stop, s')

/-- One round of the section loop. Section indices are kept in an `int`, so
    the largest ones are negative and pass the check. -/
def relocateSection (reloc : DataRelocation σ) (vm : Vm) (buffer : FileBuffer) (layout : Layout)
    (relo : Section) (s : LinkState σ) : Option Stop × LinkState σ :=
  if relo.type ≠ shtRel then (none, s)
  else
    match layout.sections[relo.info]? with
    | none => (some .undefined, s)
    | some appliesTo =>
      -- Relocations of data sections are not applied.
      if !appliesTo.isExec then (none, s)
      else if relo.link < 2 ^ 31 ∧ layout.sections.length ≤ relo.link then
        (some (.error .badSymbolTableIndex), s)
      else
        match layout.sections[relo.link]? with
        | none => (some .undefined, s)
        | some symtab =>
          untilStop (relocateEntry reloc vm buffer layout appliesTo symtab relo)
            (List.range (relo.size / sizeofRel)) s

/-- The relocation pass. -/
def relocateSections (reloc : DataRelocation σ) (vm : Vm) (buffer : FileBuffer)
    (layout : Layout) (ctx : σ) : Option Stop × LinkState σ :=
  untilStop (relocateSection reloc vm buffer layout) layout.sections
    ⟨layout.code, ctx, [], []⟩

/-- A load that came to an end: the error if it failed, the machine and the
    context as they are left, and the two records. -/
structure Loaded (σ : Type) where
  error : Option LoadError
  vm : Vm
  ctx : σ
  calls : List RelocCall
  patches : List Patch

/-- `ubpf_load_elf_ex`. `base` is the address `ubpf_load` allocates the
    instruction store at. -/
def ubpfLoadElfEx (reloc : DataRelocation σ) (base : Addr) (vm : Vm) (ctx : σ)
    (buffer : FileBuffer) (mainName : Option Bytes) : Option (Loaded σ) :=
  match parseElf buffer.bytes mainName with
  | .error .undefined => none
  | .error (.error e) => some ⟨some e, vm, ctx, [], []⟩
  | .ok layout =>
    match relocateSections reloc vm buffer layout ctx with
    | (some .undefined, _) => none
    -- The linked program is thrown away, what the callback did is not.
    | (some (.error e), s) => some ⟨some e, vm, s.ctx, s.calls, s.patches⟩
    | (none, s) =>
      some ⟨(ubpfLoad vm base s.code).1, (ubpfLoad vm base s.code).2, s.ctx, s.calls, s.patches⟩

end UniBPF
