import UniBPF.Core.Jit
import UniBPF.Core.Loader
import UniBPF.Lib.RwLock

/-!
# The Element

`bpfelement.cc`: a Click element that owns a virtual machine, loads a program
into it when it is configured and runs the program on every packet pushed
through it. A running element can be configured again, which is what live
reconfiguration is.

`configure` is kept as the sequence of steps the source goes through, each a
definition of its own: committing the arguments, reading the file, creating
the machine the first time, and then, under the write lock, unloading,
loading, verifying, compiling and dumping. A failing step returns there and
then. The steps before it are not taken back and the lock is not released,
so what a failed call leaves behind is read off the world it returns.

What the call finds outside the element is an input of the call: the file
system, once for each of the three reads since files can change in between,
the addresses the allocator hands out and the answers of the page table. Two
things are parameters of the platform, the argument parser of Click, which
commits every field or none, and the signature primitives.

Members without an initialiser hold whatever was in memory, so a new element
is a function of that (`Uninit`).

`execPath` says what a packet would be run by, without running it. Compiled
code counts as the machine's own only when the function pointer is the one
the machine holds; a call through any other pointer is `wild`.

## Main definitions

* `Platform`, `ConfigureCall`: The parameters of the element and of a call.
* `Element`, `World`: The element, and the page table beside it.
* `configure`: `BPFElement::configure`.
* `execPath`: What `BPFElement::exec` runs.
* `push`: `push` of the three element classes, as far as the lock goes.
* `Event`, `step`: The life of an element, one operation after another.
-/

namespace UniBPF

/-- The keyword arguments of `configure`; a keyword that was not given is
    `none` and leaves its member alone. -/
structure ConfArgs where
  id : Option Nat
  jit : Option Bool
  dumpJit : Option Bool
  file : Option Bytes
  signature : Option Bytes
deriving DecidableEq, Repr

/-- What the element is compiled against. `verify` is the signature check on
    a file's contents, `none` where the build leaves it out. -/
structure Platform where
  parseArgs : List Bytes → Option ConfArgs
  verify : Option (Bytes → Bytes → Bool)
  translate : Translate
  allocator : Allocator Obj

/-- The three element classes. -/
inductive ElementClass where
  | bpfilter
  | bpfclassifier
  | bpfrewriter
deriving DecidableEq, Repr

/-- `class BPFElement`. The map context is not looked at before there is a
    machine. -/
structure Element where
  lock : RwLock
  vm : Option Vm
  id : Nat
  jit : Bool
  dumpJit : Bool
  bpfFile : Bytes
  signatureFile : Bytes
  mapCtx : BpfMapCtx
  jitFn : Option Addr

/-- The members no constructor sets. -/
structure Uninit where
  id : Nat
  jit : Bool
  dumpJit : Bool
  jitFn : Option Addr
deriving DecidableEq, Repr

/-- A new element. -/
def Element.new (junk : Uninit) : Element where
  lock := .free
  vm := none
  id := junk.id
  jit := junk.jit
  dumpJit := junk.dumpJit
  bpfFile := []
  signatureFile := []
  mapCtx := .empty
  jitFn := junk.jitFn

/-- The element and the page table. -/
structure World where
  element : Element
  space : AddressSpace

/-- One call of `configure`: the arguments and what the call finds. The file
    is read twice, and `readFile` also says where the first buffer lies; a
    file that cannot be read is empty. -/
structure ConfigureCall where
  conf : List Bytes
  readFile : Bytes → FileBuffer
  readAgain : Bytes → Bytes
  readSignature : Bytes → Bytes
  created : Bool
  instsAddr : Addr
  pages : PageEnv
  dumped : Bool

/-- Where a call of `configure` returned. -/
inductive Result where
  | noArguments
  | badArguments
  | unreadable
  | noVm
  | loadFailed (e : LoadError)
  | rejected
  | compileFailed (e : CompileError)
  | success
deriving DecidableEq, Repr

/-- A call returns, or waits for the lock with the steps before it done. -/
inductive Outcome where
  | returned (result : Result) (world : World)
  | waiting (world : World)

/-- `Args(...).complete()`. -/
def commitArgs (args : ConfArgs) (e : Element) : Element :=
  { e with
    id := args.id.getD e.id
    jit := args.jit.getD e.jit
    dumpJit := args.dumpJit.getD e.dumpJit
    bpfFile := args.file.getD e.bpfFile
    signatureFile := args.signature.getD e.signatureFile }

/-- The helpers every element registers, by index. -/
def bpfHelpers : List (Nat × String) :=
  [(1, "bpf_map_lookup_elem"), (2, "bpf_map_update_elem"), (3, "bpf_map_delete_elem"),
    (5, "bpf_ktime_get_ns"), (6, "bpf_trace_printk"), (7, "bpf_get_prandom_u32"), (20, "unwind")]

/-- `register_additional_bpf_helpers`. -/
def additionalBpfHelpers : ElementClass → List (Nat × String)
  | .bpfilter | .bpfclassifier => []
  | .bpfrewriter => [(60, "bpf_packet_add_space")]

/-- The bytes of a helper's name. -/
def helperName (name : String) : Bytes :=
  name.toList.map (fun c => UInt8.ofNat c.toNat)

/-- The machine `init_ubpf_vm` builds. -/
def initUbpfVm (cls : ElementClass) : Vm :=
  let vm := { ubpfCreate with jitterBufferSize := 128 * 1024 }
  let vm := bpfHelpers.foldl (fun vm h => ubpfRegister vm h.1 (helperName h.2)) vm
  let vm := { vm with unwindStackExtensionIndex := some 20 }
  (additionalBpfHelpers cls).foldl (fun vm h => ubpfRegister vm h.1 (helperName h.2)) vm

/-- The machine to load into, made now if there is none. -/
def ensureVm (cls : ElementClass) (created : Bool) (e : Element) : Option (Vm × Element) :=
  match e.vm with
  | some vm => some (vm, e)
  | none =>
    if created then
      some (initUbpfVm cls, { e with vm := some (initUbpfVm cls), mapCtx := .empty })
    else none

/-- `ubpf_unload_code`, on an element that had a machine before the call. -/
def unload (reconfigure : Bool) (vm : Vm) (as : AddressSpace) : Vm × AddressSpace :=
  if reconfigure then ubpfUnloadCode vm as else (vm, as)

/-- `"main"`. -/
def mainName : Bytes := helperName "main"

/-- The load of the file into the machine, with `do_map_relocation` as the
    relocation callback. -/
def load (P : Platform) (call : ConfigureCall) (buffer : FileBuffer) (vm : Vm)
    (ctx : BpfMapCtx) : Option (Loaded BpfMapCtx) :=
  ubpfLoadElfEx (doMapRelocation P.allocator) call.instsAddr vm ctx buffer (some mainName)

/-- `check_bpf_verification_signature`. It reads both files itself. -/
def checkBpfVerificationSignature (verify : Bytes → Bytes → Bool) (call : ConfigureCall)
    (e : Element) : Bool :=
  !(call.readAgain e.bpfFile).isEmpty && !(call.readSignature e.signatureFile).isEmpty &&
    verify (call.readAgain e.bpfFile) (call.readSignature e.signatureFile)

/-- The signature is in order, or the build does not ask for one. -/
def signatureOk (P : Platform) (call : ConfigureCall) (e : Element) : Bool :=
  match P.verify with
  | none => true
  | some verify => checkBpfVerificationSignature verify call e

/-- The compilation. `_ubpf_jit_fn` takes what `ubpf_compile` returned, a null
    pointer included. -/
def compile (P : Platform) (call : ConfigureCall) (vm : Vm) (w : World) :
    Option CompileError × World :=
  if w.element.jit then
    let c := ubpfCompile P.translate call.pages vm w.space
    -- The old pointer is overwritten before the result is looked at.
    (c.error, ⟨{ w.element with vm := some c.vm, jitFn := c.vm.jitted }, c.space⟩)
  else (none, ⟨{ w.element with vm := some vm }, w.space⟩)

/-- The JIT dump, where it is asked for. -/
def dump (call : ConfigureCall) (e : Element) : Element :=
  if e.dumpJit then { e with vm := e.vm.map (fun vm => handleJitDump vm call.dumped) } else e

/-- `configure` after the program is loaded, up to the unlock. -/
def finish (P : Platform) (call : ConfigureCall) (vm : Vm) (w : World) : Result × World :=
  if !signatureOk P call w.element then (.rejected, ⟨{ w.element with vm := some vm }, w.space⟩)
  else
    match compile P call vm w with
    | (some e, w') => (.compileFailed e, w')
    | (none, w') =>
      (.success, ⟨{ dump call w'.element with lock := w'.element.lock.wunlock }, w'.space⟩)

/-- `configure` with the write lock held. `none` is a load that leaves the
    memory it may touch. -/
def configureLocked (P : Platform) (call : ConfigureCall) (reconfigure : Bool)
    (buffer : FileBuffer) (vm : Vm) (w : World) : Option (Result × World) :=
  let (vm, as) := unload reconfigure vm w.space
  match load P call buffer vm w.element.mapCtx with
  | none => none
  | some loaded =>
    match loaded.error with
    -- The early returns do not unlock.
    | some e =>
      some (.loadFailed e, ⟨{ w.element with vm := some loaded.vm, mapCtx := loaded.ctx }, as⟩)
    | none => some (finish P call loaded.vm ⟨{ w.element with mapCtx := loaded.ctx }, as⟩)

/-- `configure` from the file read on, with the arguments committed. -/
def configureCommitted (P : Platform) (cls : ElementClass) (w : World) (call : ConfigureCall) :
    Option Outcome :=
  let buffer := call.readFile w.element.bpfFile
  -- From here on the new members are in place, whatever becomes of the call.
  if buffer.bytes.isEmpty then some (.returned .unreadable w)
  else
    match ensureVm cls call.created w.element with
    | none => some (.returned .noVm w)
    | some (vm, e) =>
      match e.lock.wlock with
      | none => some (.waiting ⟨e, w.space⟩)
      | some lock =>
        (configureLocked P call w.element.vm.isSome buffer vm
          ⟨{ e with lock := lock }, w.space⟩).map
          fun r => .returned r.1 r.2

/-- `BPFElement::configure`. -/
def configure (P : Platform) (cls : ElementClass) (w : World) (call : ConfigureCall) :
    Option Outcome :=
  if call.conf.isEmpty then some (.returned .noArguments w)
  else
    match P.parseArgs call.conf with
    | none => some (.returned .badArguments w)
    | some args => configureCommitted P cls ⟨commitArgs args w.element, w.space⟩ call

/-- What a packet is run by. -/
inductive ExecPath where
  | native (fn : Addr) (code : Bytes)
  | interpreted (program : ProgramView)
  | noCode
  | wild
deriving DecidableEq, Repr

/-- The branch of `BPFElement::exec` for compiled code. -/
def nativePath (e : Element) (as : AddressSpace) : ExecPath :=
  match e.jitFn, e.vm with
  | some fn, some vm =>
    -- The pointer is called as it is, so the code must still be mapped there.
    if vm.jitted = some fn then
      match as.read fn vm.jittedSize with
      | some code => .native fn code
      | none => .wild
    else .wild
  | _, _ => .wild

/-- The branch of `BPFElement::exec` for the interpreter, which reports a
    machine without a program as an error. -/
def interpretedPath (e : Element) : ExecPath :=
  match e.vm with
  | none => .wild
  | some vm =>
    match vm.view with
    | some program => .interpreted program
    | none => .noCode

/-- What `BPFElement::exec` runs. -/
def execPath (w : World) : ExecPath :=
  if w.element.jit then nativePath w.element w.space else interpretedPath w.element

/-- What a program does to the maps, one operation after another. -/
def runOps : BpfMapCtx → List (Addr × MapOp) → Option BpfMapCtx
  | ctx, [] => some ctx
  | ctx, (a, op) :: ops =>
    match ctx.mapOp a op with
    | none => none
    | some ctx' => runOps ctx' ops

/-- `BPFElement::exec`, for a program that does these operations to the maps.
    A wild call has no outcome. -/
def exec (w : World) (ops : List (Addr × MapOp)) : Option World :=
  match execPath w with
  | .wild => none
  | .noCode => some w
  | .native .. | .interpreted _ =>
    (runOps w.element.mapCtx ops).map fun ctx => ⟨{ w.element with mapCtx := ctx }, w.space⟩

/-- A packet: whether `uniqueify` gives a writable one, and what the program
    does to the maps on it. -/
structure PacketRun where
  unique : Bool
  ops : List (Addr × MapOp)

/-- The classes that need a packet of their own before they run the
    program. -/
def ElementClass.uniqueifies : ElementClass → Bool
  | .bpfilter => false
  | .bpfclassifier | .bpfrewriter => true

/-- What becomes of a push: the packet is lost before the lock is asked for,
    it waits for the lock, or it was run. -/
inductive PushOutcome where
  | lost
  | waiting
  | ran (path : ExecPath) (world : World)

/-- `push` of the three classes: lock, run, unlock. -/
def push (cls : ElementClass) (w : World) (p : PacketRun) : Option PushOutcome :=
  if cls.uniqueifies && !p.unique then some .lost
  else
    match w.element.lock.rlock with
    | none => some .waiting
    | some lock =>
      (exec ⟨{ w.element with lock := lock }, w.space⟩ p.ops).map fun w' =>
        .ran (execPath w) ⟨{ w'.element with lock := w'.element.lock.runlock }, w'.space⟩

/-- An operation on an element. -/
inductive Event where
  | configure (call : ConfigureCall)
  | push (packet : PacketRun)

/-- The world after an operation that comes to an end. -/
def step (P : Platform) (cls : ElementClass) (w : World) : Event → Option World
  | .configure call =>
    match configure P cls w call with
    | some (.returned _ w') => some w'
    | _ => none
  | .push p =>
    match push cls w p with
    | some .lost => some w
    | some (.ran _ w') => some w'
    | _ => none

end UniBPF
