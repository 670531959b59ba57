import UniBPF.Core.Maps
import UniBPF.Core.Vm

/-!
# ELF Objects

The first half of `ubpf_load_elf_ex`: finding the sections, the string and
symbol tables and the functions of an ELF object, and laying the functions
out one after another in the linked program.

A load can stop for two reasons. It can reject the object with a message, and
it can run into memory it does not own. The second happens because the loader
does not check everything it reads: a section header is checked for eight
bytes and then read in full, a section index equal to the section count
passes the test meant to reject it, and the bytes of a function are copied
with no look at the size of its section. `Stop.undefined` is where the model
ends when that happens. Inside the file buffer a read past the end of a
section is an ordinary read, as in the source.

A section is known by the address of its header, which is what the loader
compares; here that is the header's offset in the file.

## Main definitions

* `Stop`: Why a load ends early.
* `boundsCheck`: The loader's range test, in 64-bit arithmetic.
* `parseEhdr`, `parseSections`: The headers.
* `collectFunctions`: The function symbols.
* `placeFunctions`: Laying out the linked program.
* `Layout`, `parseElf`: Everything the relocation pass needs.
-/

namespace UniBPF

open LittleEndian

/-- Why a load ends early: it left the memory it may touch, or it reported an
    error. -/
inductive Stop where
  | undefined
  | error (e : LoadError)
deriving DecidableEq, Repr

/-- `bounds_check`. -/
def boundsCheck (size offset len : Nat) : Bool :=
  !(decide (size < (offset + len) % 2 ^ 64) || decide ((offset + len) % 2 ^ 64 < offset))

/-- `Elf64_Ehdr`, as far as it is used after the checks. -/
structure Ehdr where
  shoff : Nat
  shentsize : Nat
  shnum : Nat
deriving DecidableEq, Repr

/-- `ELFMAG`. -/
def elfMag : Bytes := [0x7f, 0x45, 0x4c, 0x46]

/-- The checks on the ELF header. -/
def parseEhdr (elf : Bytes) : Except Stop Ehdr :=
  if !boundsCheck elf.length 0 64 then .error (.error .notEnoughData)
  else if elf.take 4 ≠ elfMag then .error (.error .wrongMagic)
  else if readLE elf 4 1 ≠ 2 then .error (.error .wrongClass)
  else if readLE elf 5 1 ≠ 1 then .error (.error .wrongByteOrder)
  else if readLE elf 6 1 ≠ 1 then .error (.error .wrongVersion)
  else if readLE elf 7 1 ≠ 0 then .error (.error .wrongOsAbi)
  else if readLE elf 16 2 ≠ 1 then .error (.error .wrongType)
  else if readLE elf 18 2 ≠ 0 ∧ readLE elf 18 2 ≠ 247 then .error (.error .wrongMachine)
  else if 32 < readLE elf 60 2 then .error (.error .tooManySections)
  else .ok
    { shoff := readLE elf 40 8
      shentsize := readLE elf 58 2
      shnum := readLE elf 60 2 }

/-- A section: where its header is, the fields of `Elf64_Shdr` that are used,
    and where its data is. -/
structure Section where
  shdr : Nat
  name : Nat
  type : Nat
  flags : Nat
  offset : Nat
  size : Nat
  link : Nat
  info : Nat
deriving DecidableEq, Repr

/-- `SHT_PROGBITS`, `SHT_SYMTAB`, `SHT_STRTAB` and `SHT_REL`. -/
def shtProgbits : Nat := 1
def shtSymtab : Nat := 2
def shtStrtab : Nat := 3
def shtRel : Nat := 9

/-- `SHF_WRITE`, `SHF_ALLOC`, `SHF_EXECINSTR` and `SHF_STRINGS`. -/
def shfWrite : Nat := 1
def shfAlloc : Nat := 2
def shfExecinstr : Nat := 4
def shfStrings : Nat := 32

/-- The section holds instructions. -/
def Section.isExec (sec : Section) : Bool :=
  sec.type == shtProgbits && sec.flags == shfAlloc + shfExecinstr

/-- One round of the section header loop. The check covers the size of a
    pointer, the reads after it the header up to `sh_info`. -/
def parseSection (elf : Bytes) (off : Nat) : Except Stop Section :=
  if !boundsCheck elf.length off 8 then .error (.error .badSectionHeader)
  else if elf.length < off + 48 then .error .undefined
  else if !boundsCheck elf.length (readLE elf (off + 24) 8) (readLE elf (off + 32) 8) then
    .error (.error .badSection)
  else .ok
    { shdr := off
      name := readLE elf off 4
      type := readLE elf (off + 4) 4
      flags := readLE elf (off + 8) 8
      offset := readLE elf (off + 24) 8
      size := readLE elf (off + 32) 8
      link := readLE elf (off + 40) 4
      info := readLE elf (off + 44) 4 }

/-- The section header loop. -/
def parseSections (elf : Bytes) (shentsize : Nat) : Nat → Nat → Except Stop (List Section)
  | 0, _ => .ok []
  | n + 1, off =>
    match parseSection elf off with
    | .error stop => .error stop
    | .ok sec =>
      match parseSections elf shentsize n ((off + shentsize) % 2 ^ 64) with
      | .error stop => .error stop
      | .ok secs => .ok (sec :: secs)

/-- `Elf64_Sym`. -/
structure Sym where
  name : Nat
  info : Nat
  shndx : Nat
  value : Nat
  size : Nat
deriving DecidableEq, Repr

/-- `sizeof(Elf64_Sym)`. -/
def sizeofSym : Nat := 24

def parseSym (elf : Bytes) (off : Nat) : Except Stop Sym :=
  if elf.length < off + sizeofSym then .error .undefined
  else .ok
    { name := readLE elf off 4
      info := readLE elf (off + 4) 1
      shndx := readLE elf (off + 6) 2
      value := readLE elf (off + 8) 8
      size := readLE elf (off + 16) 8 }

/-- A string table: where it starts, and its size as the loader keeps it, in
    an `int` that is compared as unsigned. -/
structure StrTab where
  offset : Nat
  size : Nat
deriving DecidableEq, Repr

/-- `!strcmp`, of the string at an offset with a constant. -/
def strEq (elf : Bytes) (off : Nat) (lit : Bytes) : Except Stop Bool :=
  let rest := elf.drop off
  if rest.take (lit.length + 1) = lit ++ [0] then .ok true
  else if rest.length ≤ lit.length ∧ rest = lit.take rest.length then .error .undefined
  else .ok false

/-- The NUL-terminated string at an offset. -/
def cString (elf : Bytes) (off : Nat) : Option Bytes :=
  let name := (elf.drop off).takeWhile (· != 0)
  if off + name.length < elf.length then some name else none

/-- `struct relocated_function`. `nativeData` and `linkedData` are offsets in
    the file and in the linked program. -/
structure RelocatedFunction where
  name : Nat
  shdr : Nat
  nativeData : Nat
  nativeSectionStart : Nat
  size : Nat
  linkedData : Nat
  landed : Nat
deriving DecidableEq, Repr

/-- The functions found so far: slot 0, the slots after it in order, and the
    32-bit sum of the sizes. -/
structure Functions where
  main : Option RelocatedFunction
  others : List RelocatedFunction
  linkedSize : Nat
deriving DecidableEq, Repr

/-- Whether a function symbol is the entry point: by name, or as the start of
    `.text` where no name is given. -/
def isMainFunction (elf : Bytes) (strtab : StrTab) (mainName : Option Bytes) (sec : Section)
    (sym : Sym) : Except Stop Bool :=
  match mainName with
  | some name => strEq elf (strtab.offset + sym.name) name
  | none =>
    match strEq elf (strtab.offset + sec.name) [0x2e, 0x74, 0x65, 0x78, 0x74] with
    | .error stop => .error stop
    | .ok isText => .ok (isText && sym.value == 0)

/-- One round of the symbol loop. A second entry point replaces the first; a
    function with no slot left in the array is written past its end. -/
def collectFunction (elf : Bytes) (sections : List Section) (strtab : StrTab)
    (mainName : Option Bytes) (totalSymbols : Nat) (sym : Sym) (acc : Functions) :
    Except Stop Functions :=
  -- Only `STT_FUNC` symbols are collected.
  if sym.info % 16 ≠ 2 then .ok acc
  else if strtab.size ≤ sym.name then .error (.error .badFunctionName)
  else if sections.length < sym.shndx then .error (.error .badFunctionSection)
  else
    match sections[sym.shndx]? with
    | none => .error .undefined
    | some sec =>
      if !sec.isExec then
        -- The message takes the number of the name for the name itself.
        .error (if sym.name = 0 then .error .nonExecutableSection else .undefined)
      else
        let rf : RelocatedFunction :=
          { name := strtab.offset + sym.name
            shdr := sec.shdr
            nativeData := sec.offset + sym.value
            nativeSectionStart := sym.value
            size := sym.size
            linkedData := 0
            landed := 0 }
        -- `linked_program_size` is a `uint`, the sizes are 64-bit.
        let linkedSize := (acc.linkedSize + sym.size) % 2 ^ 32
        match isMainFunction elf strtab mainName sec sym with
        | .error stop => .error stop
        | .ok true => .ok { acc with main := some rf, linkedSize := linkedSize }
        | .ok false =>
          if totalSymbols ≤ acc.others.length + 1 then .error .undefined
          else .ok { acc with others := acc.others ++ [rf], linkedSize := linkedSize }

/-- The symbol loop, over `n` symbols from offset `off`. -/
def collectFunctions (elf : Bytes) (sections : List Section) (strtab : StrTab)
    (mainName : Option Bytes) (totalSymbols : Nat) : Nat → Nat → Functions → Except Stop Functions
  | 0, _, acc => .ok acc
  | n + 1, off, acc =>
    match parseSym elf off with
    | .error stop => .error stop
    | .ok sym =>
      match collectFunction elf sections strtab mainName totalSymbols sym acc with
      | .error stop => .error stop
      | .ok acc' =>
        collectFunctions elf sections strtab mainName totalSymbols n (off + sizeofSym) acc'

/-- Copy the functions into the linked program, from `spot` on. -/
def placeFunctions (elf : Bytes) : List RelocatedFunction → Nat →
    Except Stop (List RelocatedFunction × Bytes)
  | [], _ => .ok ([], [])
  | rf :: rfs, spot =>
    if elf.length < rf.nativeData + rf.size then .error .undefined
    else
      match placeFunctions elf rfs (spot + rf.size) with
      | .error stop => .error stop
      | .ok (placed, code) =>
        .ok ({ rf with linkedData := spot, landed := spot / 8 } :: placed,
          (elf.drop rf.nativeData).take rf.size ++ code)

/-- The object after the first half of the load. -/
structure Layout where
  sections : List Section
  strtab : StrTab
  functions : List RelocatedFunction
  code : Bytes
deriving DecidableEq, Repr

/-- A section size kept in an `int`, where it is next divided by a
    `size_t`. -/
def intAsSize (n : Nat) : Nat :=
  if n % 2 ^ 32 < 2 ^ 31 then n % 2 ^ 32 else n % 2 ^ 32 + (2 ^ 64 - 2 ^ 32)

/-- From the tables to the layout. -/
def layoutFunctions (elf : Bytes) (sections : List Section) (strtab : StrTab)
    (found : Functions) : Except Stop Layout :=
  match found.main with
  | none => .error (.error .mainNotFound)
  | some main =>
    match placeFunctions elf (main :: found.others) 0 with
    | .error stop => .error stop
    | .ok (functions, code) =>
      -- The copies must fit the block that was sized by the 32-bit sum.
      if found.linkedSize < code.length then .error .undefined
      else .ok
        { sections := sections
          strtab := strtab
          functions := functions
          code := code ++ List.replicate (found.linkedSize - code.length) 0 }

/-- `ubpf_load_elf_ex` up to the relocations. -/
def parseElf (elf : Bytes) (mainName : Option Bytes) : Except Stop Layout :=
  match parseEhdr elf with
  | .error stop => .error stop
  | .ok ehdr =>
    match parseSections elf ehdr.shentsize ehdr.shnum ehdr.shoff with
    | .error stop => .error stop
    | .ok sections =>
      match sections.find? (fun s => s.type == shtStrtab) with
      | none => .error (.error .noStringTable)
      | some str =>
        match sections.find? (fun s => s.type == shtSymtab) with
        | none => .error (.error .noSymbolTable)
        | some symtab =>
          let strtab : StrTab := ⟨str.offset, str.size % 2 ^ 32⟩
          let totalSymbols := intAsSize symtab.size / sizeofSym
          -- With no symbol at all the array of functions has no slot 0 to look at.
          if totalSymbols = 0 then .error .undefined
          else
            match collectFunctions elf sections strtab mainName totalSymbols totalSymbols
                symtab.offset ⟨none, [], 0⟩ with
            | .error stop => .error stop
            | .ok found => layoutFunctions elf sections strtab found

end UniBPF
