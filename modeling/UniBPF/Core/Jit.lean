import UniBPF.Core.Vm

/-!
# Compiled Code and the Page Table

`ubpf_jit.c` as this system changed it. Compiled code does not go wherever
`mmap` would put it: `ubpf_compile_ex` maps pages at one fixed virtual
address, the same for every machine in the unikernel, copies the translation
there and makes it executable. `ubpf_unload_code` gives the pages back.

The page table is shared by all machines, so the operations take it and
return it beside the machine. Mapping fails when a page of the range is
already mapped, and may fail for want of frames; making the pages executable
may fail too. Both are inputs (`PageEnv`), since neither is decided by the
code modelled here. The two page counts are the source's own: mapping takes
`size / 4096 + 1` pages, unmapping covers the pages of `size` bytes.

The translation itself is a parameter. It reads the machine only through its
program view and the size of the buffer it may fill.

## Main definitions

* `AddressSpace`: Mapped pages and the bytes in them.
* `ukplatPageMap`, `munmap`, `memcpyTo`: What the code does to it.
* `AddressSpace.read`: The bytes at an address, if they are mapped.
* `Translate`: A translator of programs to native code.
* `ubpfCompileEx`, `ubpfCompileNoBuffer`: Compiling the loaded program.
* `ubpfUnloadCode`: Dropping the loaded program and its compiled code.
* `handleJitDump`: The effect of a JIT dump on the machine.
-/

namespace UniBPF

/-- `__PAGE_SIZE`. -/
def pageSize : Nat := 4096

/-- Where `ubpf_compile_ex` maps compiled code, in every machine. -/
def jitWindow : Nat := 0x80000000

/-- The active page table, by page number, and the bytes behind it. -/
structure AddressSpace where
  mapped : Nat → Bool
  mem : Nat → UInt8

/-- The page range starting at an address holds this page. -/
def inPages (addr pages page : Nat) : Bool :=
  decide (addr / pageSize ≤ page ∧ page < addr / pageSize + pages)

/-- No page of the range is mapped yet. -/
def AddressSpace.isFree (as : AddressSpace) (addr pages : Nat) : Bool :=
  (List.range pages).all (fun i => !as.mapped (addr / pageSize + i))

/-- `ukplat_page_map` at a given virtual address, with frames of its own
    choosing. -/
def ukplatPageMap (as : AddressSpace) (addr pages : Nat) (frames : Bool) : Option AddressSpace :=
  if frames && as.isFree addr pages then
    some { as with mapped := fun page => inPages addr pages page || as.mapped page }
  else none

/-- `munmap`, which covers every page of the byte range. -/
def munmap (as : AddressSpace) (addr len : Nat) : AddressSpace :=
  { as with mapped := fun page =>
      !inPages addr ((len + (pageSize - 1)) / pageSize) page && as.mapped page }

/-- `memcpy` into the address space. -/
def memcpyTo (as : AddressSpace) (addr : Nat) (bytes : Bytes) : AddressSpace :=
  { as with mem := fun a =>
      if addr ≤ a ∧ a < addr + bytes.length then bytes.getD (a - addr) 0 else as.mem a }

/-- The `len` bytes at an address, unless one of them is unmapped. -/
def AddressSpace.read (as : AddressSpace) (addr : Nat) (len : Nat) : Option Bytes :=
  if (List.range len).all (fun i => as.mapped ((addr + i) / pageSize)) then
    some ((List.range len).map (fun i => as.mem (addr + i)))
  else none

/-- A translator: given the size of the buffer and the mode, the native code
    of a program, or `none` where translation fails. -/
abbrev Translate := Nat → JitMode → ProgramView → Option Bytes

/-- What the page table operations of one compilation answer beyond the rule
    about mapped pages: frames are left, and the pages can be made
    executable. -/
structure PageEnv where
  frames : Bool
  attrs : Bool
deriving DecidableEq, Repr

/-- The error messages of `ubpf_compile_ex`. -/
inductive CompileError where
  | notLoaded
  | translation
  | pageMap
  | protect
deriving DecidableEq, Repr

/-- The machine and the page table after a compilation. The returned function
    is `vm.jitted`, a null one standing for failure. -/
structure Compiled where
  error : Option CompileError
  vm : Vm
  space : AddressSpace

/-- Unmapping old code, which `ubpf_compile_ex` and `ubpf_unload_code` both
    begin with. -/
def dropJitted (vm : Vm) (as : AddressSpace) : Vm × AddressSpace :=
  match vm.jitted with
  | some addr => ({ vm with jitted := none, jittedSize := 0 }, munmap as addr vm.jittedSize)
  | none => (vm, as)

/-- `ubpf_compile_ex` from the translation on: map, copy, protect. When the
    protection fails the pointer is already forgotten, so the pages stay. -/
def installCode (env : PageEnv) (vm : Vm) (as : AddressSpace) (code : Bytes) : Compiled :=
  match ukplatPageMap as jitWindow (code.length / pageSize + 1) env.frames with
  | none => ⟨some .pageMap, vm, as⟩
  | some as' =>
    if env.attrs then
      ⟨none, { vm with jitted := some jitWindow, jittedSize := code.length },
        memcpyTo as' jitWindow code⟩
    else ⟨some .protect, vm, memcpyTo as' jitWindow code⟩

/-- `ubpf_compile_ex`. -/
def ubpfCompileEx (translate : Translate) (env : PageEnv) (mode : JitMode) (vm : Vm)
    (as : AddressSpace) : Compiled :=
  if vm.jitted.isSome && vm.jittedResult.success && vm.jittedResult.jitMode == mode then
    ⟨none, vm, as⟩
  else
    -- Old code goes before anything is known about the new one.
    let (vm, as) := dropJitted vm as
    match vm.view with
    | none => ⟨some .notLoaded, vm, as⟩
    | some view =>
      match translate vm.jitterBufferSize mode view with
      | none => ⟨some .translation, { vm with jittedResult := ⟨false, mode⟩ }, as⟩
      | some code => installCode env { vm with jittedResult := ⟨true, mode⟩ } as code

/-- `ubpf_compile_ex` where the buffer for the translation cannot be
    allocated. -/
def ubpfCompileNoBuffer (mode : JitMode) (vm : Vm) (as : AddressSpace) : Vm × AddressSpace :=
  if vm.jitted.isSome && vm.jittedResult.success && vm.jittedResult.jitMode == mode then (vm, as)
  else dropJitted vm as

/-- `ubpf_compile`. -/
def ubpfCompile (translate : Translate) (env : PageEnv) (vm : Vm) (as : AddressSpace) : Compiled :=
  ubpfCompileEx translate env .basic vm as

/-- `ubpf_unload_code`. -/
def ubpfUnloadCode (vm : Vm) (as : AddressSpace) : Vm × AddressSpace :=
  let (vm, as) := dropJitted vm as
  match vm.insts with
  | some _ => ({ vm with insts := none, numInsts := 0 }, as)
  | none => (vm, as)

/-- `handle_jit_dump` translates once more, into a buffer of its own, and
    leaves only the result behind. The size it passes is not initialised, so
    whether it succeeds is an input. -/
def handleJitDump (vm : Vm) (ok : Bool) : Vm :=
  { vm with jittedResult := ⟨ok, .basic⟩ }

end UniBPF
