import UniBPF.Theory.NativeFrame
import UniBPF.Theory.NativeRun

/-!
# Calling Compiled Code

The compiled program as a function of the host. It is called with the packet
in `rdi` and its length in `rsi`, and in extended mode with a stack in `rdx`
and its size in `rcx`. The entry saves the caller's registers and sets up the
frame pointer of the program, the epilogue brings everything back.

In basic mode the stack of the program is on the native stack, right below
the saved registers, and holds what was there before.

## Main definitions

* `Site.inner`, `Site.trim`: The site inside the frame, and at its end.
* `gapWords`, `startState`: The stack of the program and the state it starts
  in.
* `Mirrors`: The machine has what the interpreter has.

## Theorems

* `InPlace.saves`, `InPlace.frames`, `InPlace.starts`, `InPlace.enters`: From
  the call to the first instruction.
* `InPlace.epilogue`: Back to the caller.
* `InPlace.call`, `native_returns`: The whole call.
* `InPlace.accompanies`, `native_goes`: A call that has not returned yet.
-/

namespace UniBPF

open LittleEndian X86 Relocations

theorem Site.loaded_inner (t : Site) (m : Memory) (n gap : Nat) (h : n + gap ≤ t.ground.room)
    (k : Nat) (b : UInt8) (hb : t.code[k]? = some b) :
    (t.ground.inner m n gap h).fixed (t.base + BitVec.ofNat 64 k) = some b := by
  have hfixed := t.loaded k b hb
  have hapart := t.ground.apart _ _ hfixed
  simp only [Ground.inner]
  rw [if_neg (by omega)]
  exact hfixed

/-- The site inside a frame. -/
def Site.inner (t : Site) (m : Memory) (n gap : Nat) (h : n + gap ≤ t.ground.room) : Site where
  ground := t.ground.inner m n gap h
  base := t.base
  code := t.code
  marks := t.marks
  host := t.host
  loaded := t.loaded_inner m n gap h
  inside := t.inside

/-- The site at the end of a frame. -/
def Site.trim (t : Site) (n : Nat) (h : n ≤ t.ground.room) : Site where
  ground := t.ground.trim n h
  base := t.base
  code := t.code
  marks := t.marks
  host := t.host
  loaded := t.loaded
  inside := t.inside

/-- The words of the native stack that are the program's. -/
def gapWords : JitMode → Nat
  | .basic => 64
  | .extended => 0

/-- Where the program's stack starts and how long it is. -/
def stackStart (mode : JitMode) (g : Ground) (c : Cpu) : Word :=
  match mode with
  | .basic => g.sp 72
  | .extended => c.regs rdx

def stackLength (mode : JitMode) (c : Cpu) : Nat :=
  match mode with
  | .basic => ebpfStackSize
  | .extended => (c.regs rcx).toNat

/-- The state the program starts in: whatever is in the registers is there
    still. -/
def startState (mode : JitMode) (g : Ground) (c : Cpu) (mem : Memory) : ExecState :=
  execStart (fun r => c.regs (mapRegister r)) (exposed g c.mem 8 (gapWords mode) mem)
    (c.regs rdi) (c.regs rsi) (stackStart mode g c) (stackLength mode c)

/-! ## Instructions of the entry and the epilogue -/

theorem X86.Cpu.set_other (c : Cpu) (r q : Reg) (v : Word) (h : q ≠ r) :
    (c.set r v).regs q = c.regs q := Function.update_of_ne h _ _

/-- Making room for a word. -/
theorem Site.Reaches.reserve (t : Site) (a : Abs) {off : Nat}
    (hlist : (Encoded.binImm .sub true 8 rsp).linkedBytes t.marks off <+: t.code.drop off)
    (hroom : a.stack.length < t.ground.room) :
    t.Reaches off a (off + 7)
      (fun a' => ∃ f w, a' = ⟨{ a.cpu with flags := f }, w :: a.stack⟩) := by
  intro c hc
  have hstep := t.step_listed hc off _ hlist
  rcases hc with ⟨m, hm, rfl⟩
  have hinstr : (Encoded.binImm .sub true 8 rsp).linkedInstr t.marks off =
    .op (.bin .sub true (.imm 8) rsp) := rfl
  have hresult : BinOp.sub.result (t.ground.sp a.stack.length) (BitVec.ofInt 64 8) =
    some (t.ground.sp (a.stack.length + 1)) := congrArg some (t.ground.sp_succ a.stack.length)
  have hsize : (Encoded.binImm .sub true 8 rsp).size = 7 := rfl
  rw [hinstr, hsize, Instr.exec, a.cpu.bin_sp _ m .sub 8 _ _ hresult, Option.map_some] at hstep
  generalize BinOp.sub.flags _ _ _ = f at hstep
  rcases hm.grow hroom with ⟨w, hw⟩
  exact ⟨⟨{ a.cpu with flags := f }, w :: a.stack⟩, _, ⟨f, w, rfl⟩, ⟨m, hw, rfl⟩,
    Relation.ReflTransGen.single hstep⟩

/-- Copying the stack pointer. -/
theorem Site.Runs.movSp (t : Site) (a : Abs) (dst : Reg) (hdst : dst ≠ rsp) {off : Nat}
    (hlist : (Encoded.bin .mov true rsp dst).linkedBytes t.marks off <+: t.code.drop off) :
    t.Runs off a (off + (Encoded.bin .mov true rsp dst).size)
      ⟨a.cpu.set dst (t.ground.sp a.stack.length), a.stack⟩ := by
  refine Site.Runs.single _ hlist (fun m hm => ⟨m, hm, ?_⟩)
  have hinstr : (Encoded.bin .mov true rsp dst).linkedInstr t.marks off =
    .op (.bin .mov true (.reg rsp) dst) := rfl
  have hbin := a.cpu.bin_at (t.ground.sp a.stack.length) m .mov true
    (t.ground.sp a.stack.length) dst hdst
  rw [hinstr]
  simp only [Instr.exec, Op.exec, Src.value, a.cpu.at_sp, hbin, Option.map_some, cpu_mov]

/-- Taking a word off the stack, however little room there is. -/
theorem Site.Runs.pop (t : Site) (c : Cpu) (r : Reg) (hr : r ≠ rsp) (v : Word)
    (stack : List Word) {off : Nat}
    (hlist : (Encoded.pop r).linkedBytes t.marks off <+: t.code.drop off) :
    t.Runs off ⟨c, v :: stack⟩ (off + (Encoded.pop r).size) ⟨c.set r v, stack⟩ := by
  refine Site.Runs.single _ hlist (fun m hm => ⟨m, hm.tail, ?_⟩)
  have hinstr : (Encoded.pop r).linkedInstr t.marks off = .op (.pop r) := rfl
  rw [hinstr]
  simp only [Instr.exec, Op.exec, List.length_cons, hm.cpu_pop c, Option.map_some,
    c.at_set _ m r v hr]

/-! ## The entry -/

section Calling

variable {t : Site} {program : ProgramView} {mode : JitMode} {host : HostAddresses} {size : Nat}
  {ext : Externals}

/-- What the entry leaves on the stack: a word nobody looks at, the registers
    of the caller and where to return to. -/
def callerWords (c : Cpu) (ret w : Word) : List Word :=
  [w, c.regs r15, c.regs r14, c.regs r13, c.regs r12, c.regs rbx, c.regs rbp, ret]

/-- The processor after the registers are saved. -/
def savedCpu (g : Ground) (c : Cpu) (f : Option Flags) : Cpu :=
  { c.set r11 (c.regs rdi) with flags := f }.set rbp (g.sp 8)

/-- Saving the registers of the caller. -/
theorem InPlace.saves (ht : InPlace t host program size mode) (hroom : 8 ≤ t.ground.room)
    (c : Cpu) (ret : Word) :
    (t.trim 8 hroom).Reaches 0 ⟨c, [ret]⟩ 23
      (fun a => ∃ f w, a = ⟨savedCpu t.ground c f, callerWords c ret w⟩) := by
  have hlist : Listed (t.trim 8 hroom).marks (t.trim 8 hroom).code 0 saveCode :=
    ht.listed_entry.append.1
  have hpush : ∀ r stack, r ≠ rsp → Computes [.push r] ⟨c, stack⟩ ⟨c, c.regs r :: stack⟩ :=
    fun r stack hr => computes_push r ⟨c, stack⟩ hr
  have hmov : ∀ stack, Computes [.bin .mov true rdi r11] ⟨c, stack⟩
    ⟨c.set r11 (c.regs rdi), stack⟩ :=
    fun stack => computes_mov rdi r11 ⟨c, stack⟩ ⟨by decide, by decide⟩
  have hcomp := (hpush rbp [ret] (by decide)).append ((hpush rbx _ (by decide)).append
    ((hpush r12 _ (by decide)).append ((hpush r13 _ (by decide)).append
    ((hpush r14 _ (by decide)).append ((hpush r15 _ (by decide)).append (hmov _))))))
  have hsplit : saveCode = [.push rbp, .push rbx, .push r12, .push r13, .push r14, .push r15,
    .bin .mov true rdi r11] ++ [.binImm .sub true 8 rsp, .bin .mov true rsp rbp] := rfl
  rw [hsplit] at hlist
  rcases hlist.append with ⟨hpushes, hrest⟩
  have hfirst := hcomp.runs (t.trim 8 hroom) hpushes (Nat.le_of_ble_eq_true rfl)
  refine (hfirst.reaches (P := fun a' => a' = ⟨c.set r11 (c.regs rdi), _⟩) rfl).bind
    (fun a' ha' => ?_)
  subst ha'
  refine (Site.Reaches.reserve (t.trim 8 hroom) _ hrest.1 (Nat.le_of_ble_eq_true rfl)).bind
    (fun a' ha' => ?_)
  rcases ha' with ⟨f, w, rfl⟩
  have hcopy := Site.Runs.movSp (t.trim 8 hroom) ⟨{ c.set r11 (c.regs rdi) with flags := f },
    callerWords c ret w⟩ rbp (by decide) hrest.2.1
  exact hcopy.reaches ⟨f, w, rfl⟩

theorem exposed_congr (g : Ground) (m m' : Memory) (n gap : Nat) (mem : Memory)
    (hroom : n + gap ≤ g.room)
    (h : ∀ a, 8 * n < depth g.top a → depth g.top a ≤ 8 * g.room → m a = m' a) :
    exposed g m n gap mem = exposed g m' n gap mem := by
  funext a
  by_cases hgap : 8 * n < depth g.top a ∧ depth g.top a ≤ 8 * (n + gap)
  · rw [exposed, exposed, if_pos hgap, if_pos hgap]
    exact h a hgap.1 (by omega)
  · rw [exposed, exposed, if_neg hgap, if_neg hgap]

/-- The machine inside the frame. -/
structure Framed (g : Ground) (mode : JitMode) (c : Cpu) (mem : Memory) (a : Abs) : Prop where
  stack : a.stack = []
  mem : a.cpu.mem = exposed g c.mem 8 (gapWords mode) mem
  pointer : a.cpu.regs r15 = stackStart mode g c + BitVec.ofNat 64 (stackLength mode c)
  base : a.cpu.regs rbp = g.sp 8
  other : ∀ r, r ≠ r15 → r ≠ rbp → r ≠ r11 → a.cpu.regs r = c.regs r

/-- The machine with the registers saved. -/
structure Saved (g : Ground) (h8 : 8 ≤ g.room) (c : Cpu) (cpu : Cpu) (saved : List Word) :
    Prop where
  length : saved.length = 8
  mem : cpu.mem = (g.trim 8 h8).hide c.mem
  base : cpu.regs rbp = g.sp 8
  other : ∀ r, r ≠ rbp → r ≠ r11 → cpu.regs r = c.regs r

theorem Ground.inner_sp (g : Ground) (m : Memory) (n gap : Nat) (h : n + gap ≤ g.room) :
    (g.inner m n gap h).sp 0 = g.sp (n + gap) := by
  rw [Ground.sp]
  exact BitVec.sub_zero _

theorem savedCpu_other (g : Ground) (c : Cpu) (f : Option Flags) (r : Reg) (hrbp : r ≠ rbp)
    (hr11 : r ≠ r11) : (savedCpu g c f).regs r = c.regs r := by
  simp only [savedCpu, Cpu.set]
  rw [Function.update_of_ne hrbp, Function.update_of_ne hr11]

/-- Moving the stack pointer by a constant. -/
theorem Site.step_moveSp (t : Site) {cpu : Cpu} {stack : List Word} {m : Memory}
    (hm : Holds t.ground cpu.mem stack m) (op : ImmOp) (n : Int)
    (hn : -2 ^ 31 ≤ n ∧ n < 2 ^ 31) (q : Word)
    (hresult : op.toBin.result (t.ground.sp stack.length) (BitVec.ofInt 64 n) = some q) {off : Nat}
    (hlist : (Encoded.binImm op true n rsp).linkedBytes t.marks off <+: t.code.drop off) :
    ∃ f, nativeStep t.host ⟨cpu.at (t.ground.sp stack.length) m, t.at off⟩ =
      some ⟨({ cpu with flags := f } : Cpu).at q m,
        t.at (off + (Encoded.binImm op true n rsp).size)⟩ := by
  have hrep : t.Rep ⟨cpu, stack⟩ (cpu.at (t.ground.sp stack.length) m) := ⟨m, hm, rfl⟩
  have hstep := t.step_listed hrep off _ hlist
  have hinstr : (Encoded.binImm op true n rsp).linkedInstr t.marks off =
    .op (.bin op.toBin true (.imm (wrap32 n)) rsp) := rfl
  rw [hinstr, wrap32_eq n hn, Instr.exec, cpu.bin_sp _ m op.toBin n q _ hresult,
    Option.map_some] at hstep
  exact ⟨_, hstep⟩

/-- In basic mode the stack pointer moves over the program's stack. -/
theorem InPlace.frames_basic (ht : InPlace t host program size .basic)
    (hroom : 8 + gapWords .basic ≤ t.ground.room) (h8 : 8 ≤ t.ground.room) {c cpu : Cpu}
    {mem : Memory} {ret : Word} {saved : List Word} (hm : Holds t.ground mem [ret] c.mem)
    (hsaved : Saved t.ground h8 c cpu saved) {c1 : Cpu} (hc1 : (t.trim 8 h8).Rep ⟨cpu, saved⟩ c1) :
    ∃ m a c2, Holds t.ground mem saved m ∧ Framed t.ground .basic c mem a ∧
      (t.inner m 8 (gapWords .basic) hroom).Rep a c2 ∧
      t.Steps ⟨c1, t.at 23⟩ ⟨c2, t.at (23 + codeLength (modeCode .basic))⟩ := by
  have hlist : Listed t.marks t.code 23 (modeCode .basic) :=
    ht.listed_entry.append.2.append.1
  rcases Site.Runs.movSp (t.trim 8 h8) ⟨cpu, saved⟩ (mapRegister 10) (mapRegister_free 10).1
    hlist.1 c1 hc1 with ⟨c2, ⟨m, hm2, rfl⟩, hsteps⟩
  have hpointer : (cpu.set (mapRegister 10) (t.ground.sp 8)).regs r15 = t.ground.sp 8 :=
    Cpu.set_self _ r15 _
  have hbase : (cpu.set (mapRegister 10) (t.ground.sp 8)).regs rbp = t.ground.sp 8 :=
    (Cpu.set_other cpu _ rbp _ (by decide)).trans hsaved.base
  have hother : ∀ r, r ≠ r15 → r ≠ rbp → r ≠ r11 →
      (cpu.set (mapRegister 10) (t.ground.sp 8)).regs r = c.regs r :=
    fun r h15 hbp h11 => (Cpu.set_other cpu _ r _ h15).trans (hsaved.other r hbp h11)
  have hmem : (cpu.set (mapRegister 10) (t.ground.sp 8)).mem = (t.ground.trim 8 h8).hide c.mem :=
    hsaved.mem
  have hsp : (t.trim 8 h8).ground.sp saved.length = t.ground.sp 8 := by
    rw [hsaved.length]
    rfl
  simp only [hsp] at hm2 hsteps
  generalize cpu.set (mapRegister 10) (t.ground.sp 8) = cpu2
    at hm2 hsteps hpointer hbase hother hmem
  have hresult : BinOp.sub.result ((t.trim 8 h8).ground.sp saved.length) (BitVec.ofInt 64 512) =
      some (t.ground.sp 72) := by
    have hdiff : t.ground.sp 8 - BitVec.ofInt 64 512 = t.ground.sp 72 := by
      rw [Ground.sp, Ground.sp, BitVec.sub_sub]
      rfl
    rw [hsp]
    exact congrArg some hdiff
  rcases (t.trim 8 h8).step_moveSp hm2 .sub ebpfStackSize (by decide) _ hresult hlist.2.1 with
    ⟨f, hstep⟩
  rw [hsp] at hstep
  rw [hmem] at hm2
  rcases hm.widen h8 hm2 with ⟨hwide, hdeep⟩
  have hroom' : saved.length + gapWords .basic ≤ t.ground.room := by
    rw [hsaved.length]
    exact hroom
  have henter := hwide.enter (gapWords .basic) hroom'
  simp only [hsaved.length] at henter
  rw [exposed_congr t.ground m c.mem 8 (gapWords .basic) mem hroom hdeep] at henter
  refine ⟨m, ⟨{ cpu2 with flags := f, mem := exposed t.ground c.mem 8 (gapWords .basic) mem }, []⟩,
    ({ cpu2 with flags := f } : Cpu).at (t.ground.sp 72) m, hwide,
    ⟨rfl, rfl, ?_, hbase, hother⟩, ⟨m, henter, ?_⟩, hsteps.tail hstep⟩
  · have hfp : t.ground.sp 72 + BitVec.ofNat 64 ebpfStackSize = t.ground.sp 8 := by
      rw [Ground.sp, Ground.sp]
      have h72 : BitVec.ofNat 64 (8 * 72) = BitVec.ofNat 64 (8 * 8) + BitVec.ofNat 64 512 := rfl
      rw [h72, ← BitVec.sub_sub, ebpfStackSize, BitVec.sub_add_cancel]
    exact hpointer.trans hfp.symm
  · have hinner : (t.inner m 8 (gapWords .basic) hroom).ground.sp ([] : List Word).length =
      t.ground.sp 72 := Ground.inner_sp t.ground m 8 (gapWords .basic) hroom
    rw [hinner]
    rfl

/-- In extended mode the caller has given the program a stack. -/
theorem InPlace.frames_extended (ht : InPlace t host program size .extended)
    (hroom : 8 + gapWords .extended ≤ t.ground.room) (h8 : 8 ≤ t.ground.room)
    (hwide : 16 ≤ t.ground.room) {c cpu : Cpu} {mem : Memory} {ret : Word} {saved : List Word}
    (hm : Holds t.ground mem [ret] c.mem) (hsaved : Saved t.ground h8 c cpu saved) {c1 : Cpu}
    (hc1 : (t.trim 8 h8).Rep ⟨cpu, saved⟩ c1) :
    ∃ m a c2, Holds t.ground mem saved m ∧ Framed t.ground .extended c mem a ∧
      (t.inner m 8 (gapWords .extended) hroom).Rep a c2 ∧
      t.Steps ⟨c1, t.at 23⟩ ⟨c2, t.at (23 + codeLength (modeCode .extended))⟩ := by
  have hlist : Listed t.marks t.code 23 (modeCode .extended) :=
    ht.listed_entry.append.2.append.1
  rcases hc1 with ⟨m, hm2, rfl⟩
  rw [hsaved.mem] at hm2
  rcases hm.widen h8 hm2 with ⟨hwide', hdeep⟩
  have hroom' : saved.length + gapWords .extended ≤ t.ground.room := by
    rw [hsaved.length]
    exact hroom
  have henter := hwide'.enter (gapWords .extended) hroom'
  simp only [hsaved.length] at henter
  rw [exposed_congr t.ground m c.mem 8 (gapWords .extended) mem hroom hdeep] at henter
  have hcomp : Computes (modeCode .extended)
      ⟨{ cpu with mem := exposed t.ground c.mem 8 (gapWords .extended) mem }, []⟩ _ :=
    (computes_mov rdx (mapRegister 10) _ ⟨by decide, by decide⟩).append
      (computes_bin .add true rcx (mapRegister 10) _ ⟨by decide, by decide⟩)
  have hrun := hcomp.runs (t.inner m 8 (gapWords .extended) hroom) hlist
    (show 0 + 2 ≤ t.ground.room - (8 + 0) by omega)
  have hinner : (t.inner m 8 (gapWords .extended) hroom).ground.sp ([] : List Word).length =
    t.ground.sp 8 := Ground.inner_sp t.ground m 8 (gapWords .extended) hroom
  have hsp : (t.trim 8 h8).ground.sp saved.length = t.ground.sp 8 := by
    rw [hsaved.length]
    rfl
  rcases hrun (cpu.at (t.ground.sp 8) m) ⟨m, henter, by rw [hinner]; rfl⟩ with
    ⟨c2, hc2, hsteps⟩
  have hrdx : cpu.regs rdx = c.regs rdx := hsaved.other rdx (by decide) (by decide)
  have hrcx : cpu.regs rcx = c.regs rcx := hsaved.other rcx (by decide) (by decide)
  refine ⟨m, _, c2, hwide', ⟨rfl, rfl, ?_, ?_, fun r h15 hbp h11 => ?_⟩, hc2, ?_⟩
  · have hsum : stackStart .extended t.ground c + BitVec.ofNat 64 (stackLength .extended c) =
        cpu.regs rdx + cpu.regs rcx := by
      rw [hrdx, hrcx, stackStart, stackLength, BitVec.ofNat_toNat, BitVec.setWidth_eq]
    rw [hsum]
    rfl
  · exact hsaved.base
  · have hne : r ≠ mapRegister 10 := h15
    simp only [Cpu.bin, Cpu.set, BinOp.result, if_true]
    rw [Function.update_of_ne hne, Function.update_of_ne hne]
    exact hsaved.other r hbp h11
  · rw [hsp]
    exact hsteps

/-- Either way the machine is inside the frame. -/
theorem InPlace.frames (ht : InPlace t host program size mode)
    (hroom : 8 + gapWords mode ≤ t.ground.room) (h8 : 8 ≤ t.ground.room) {c cpu : Cpu}
    {mem : Memory} {ret : Word} {saved : List Word} (hm : Holds t.ground mem [ret] c.mem)
    (hsaved : Saved t.ground h8 c cpu saved) {c1 : Cpu} (hc1 : (t.trim 8 h8).Rep ⟨cpu, saved⟩ c1) :
    ∃ m a c2, Holds t.ground mem saved m ∧ Framed t.ground mode c mem a ∧
      (t.inner m 8 (gapWords mode) hroom).Rep a c2 ∧
      t.Steps ⟨c1, t.at 23⟩ ⟨c2, t.at (23 + codeLength (modeCode mode))⟩ := by
  have hwide := ht.room
  cases mode with
  | basic => exact ht.frames_basic hroom h8 hm hsaved hc1
  | extended => exact ht.frames_extended hroom h8 (by omega) hm hsaved hc1

/-- The code is the same inside the frame. -/
theorem InPlace.inner (ht : InPlace t host program size mode) (m : Memory)
    (hroom : 8 + gapWords mode ≤ t.ground.room)
    (hdeep : 8 + gapWords mode + 128 ≤ t.ground.room) :
    InPlace (t.inner m 8 (gapWords mode) hroom) host program size mode where
  validated := ht.validated
  bases := ht.bases
  marks := ht.marks
  code := ht.code
  short := ht.short
  room := by
    simp only [Site.inner, Ground.inner]
    omega

/-- The registers of the program are set up. -/
theorem Framed.regs {g : Ground} {c : Cpu} {mem : Memory} {a : Abs} (h : Framed g mode c mem a)
    (r : Nat) (hr : r ≤ 10) : a.cpu.regs (mapRegister r) = (startState mode g c mem).regs r := by
  have hfree := mapRegister_free r
  simp only [startState, execStart]
  by_cases h10 : r = 10
  · subst h10
    rw [Function.update_self]
    exact h.pointer
  · have hne : mapRegister r ≠ r15 :=
      fun heq => h10 (mapRegister_inj r 10 hr (le_refl _) heq)
    rw [Function.update_of_ne h10, h.other _ hne hfree.2.2.1 hfree.2.2.2.2]
    by_cases h2 : r = 2
    · subst h2
      rw [Function.update_self]
      rfl
    · rw [Function.update_of_ne h2]
      by_cases h1 : r = 1
      · subst h1
        rw [Function.update_self]
        rfl
      · rw [Function.update_of_ne h1]

/-- The call of the program, and its prolog. -/
theorem InPlace.starts (ht : InPlace t host program size mode) {g : Ground} {c : Cpu}
    {mem : Memory} {a : Abs} (hframed : Framed g mode c mem a)
    (hstart : IsStart program.insts 0) :
    ∃ a', Related t program mode (g.sp 8) (startState mode g c mem) a' ∧
      t.Runs (23 + codeLength (modeCode mode)) a (instAt program mode 0) a' := by
  have hroom := ht.room
  rcases hstart.exists_inst with ⟨inst, hinst⟩
  have hunit := (ht.listed_unit 0 inst hinst hstart).1
  rw [unitCode] at hunit
  have hfalls : program.fallsInto 0 = false := rfl
  have hprolog : startCode program 0 (unitAt program mode 0) = prologCode 0 := by
    simp only [startCode, hfalls, Bool.false_eq_true, if_false, true_or, if_true,
      usageAt_zero program ht.validated.usage]
  have hbody : unitAt program mode 0 = 23 + codeLength (modeCode mode) + 10 := by
    cases mode with
    | basic => rfl
    | extended => rfl
  have hreturn : 23 + codeLength (modeCode mode) + 5 = bodyStart mode - 5 := by
    cases mode with
    | basic => rfl
    | extended => rfl
  have hlist := hunit.append.1
  have hplace := instAt_eq program mode 0
  rw [hprolog] at hlist hplace
  rw [length_prolog] at hplace
  have hover : Listed t.marks t.code (23 + codeLength (modeCode mode))
    [.callOver, .jmp targetPcExit 0] := ht.listed_entry.append.2.append.2
  have hcall := Site.Runs.callOver t a hover.1 (by rw [hframed.stack, List.length_nil]; omega)
  rw [hframed.stack] at hcall
  rcases Site.Runs.prolog t ⟨a.cpu, [t.at (23 + codeLength (modeCode mode) + 5)]⟩ 0 hlist
    (by rw [List.length_singleton]; omega) with ⟨f, hrun⟩
  rw [← hplace, hbody] at hrun
  refine ⟨⟨{ a.cpu with flags := f }, _⟩, ⟨hframed.regs, hframed.mem, hframed.base, ?_,
    fun _ => rfl, Nat.zero_le _, fun d hd => absurd hd (Nat.not_lt_zero d)⟩, hcall.trans hrun⟩
  rw [hreturn]
  rfl

/-! ## The epilogue -/

/-- The machine when the call is over. -/
structure Returned (g : Ground) (c : Cpu) (v : Word) (mem : Memory) (c' : Cpu) : Prop where
  result : c'.regs rax = v
  stack : c'.regs rsp = g.sp 0
  saved : ∀ r ∈ platformNonvolatileRegisters, c'.regs r = c.regs r
  mem : ∀ a, ¬ g.Private a → c'.mem a = mem a

/-- Taking registers off the stack, one after the other. -/
theorem Site.Runs.pops (t : Site) (v : Reg → Word) (stack : List Word) (rs : List Reg)
    (hrs : ∀ r ∈ rs, r ≠ rsp) (c : Cpu) {off : Nat}
    (hlist : Listed t.marks t.code off (rs.map Encoded.pop)) :
    ∃ c', t.Runs off ⟨c, rs.map v ++ stack⟩ (off + codeLength (rs.map Encoded.pop)) ⟨c', stack⟩ ∧
      c'.mem = c.mem ∧ (∀ r ∈ rs, c'.regs r = v r) ∧ ∀ r, r ∉ rs → c'.regs r = c.regs r := by
  induction rs generalizing c off with
  | nil => exact ⟨c, Site.Runs.refl t off _, rfl, fun r hr => absurd hr List.not_mem_nil,
      fun _ _ => rfl⟩
  | cons r rs ih =>
      have hpop := Site.Runs.pop t c r (hrs r List.mem_cons_self) (v r) (rs.map v ++ stack) hlist.1
      rcases ih (fun q hq => hrs q (List.mem_cons_of_mem _ hq)) (c.set r (v r)) hlist.2 with
        ⟨c', hrun, hmem, hin, hout⟩
      have hlen : off + codeLength ((r :: rs).map Encoded.pop) =
          off + (Encoded.pop r).size + codeLength (rs.map Encoded.pop) := by
        rw [List.map_cons, codeLength, pieces, List.map_cons, layout_cons, List.length_append,
          ← Nat.add_assoc]
        rfl
      rw [hlen]
      refine ⟨c', hpop.trans hrun, hmem, fun q hq => ?_, fun q hq => ?_⟩
      · by_cases hrest : q ∈ rs
        · exact hin q hrest
        · rcases List.mem_cons.mp hq with rfl | hq
          · exact (hout q hrest).trans (Cpu.set_self c q _)
          · exact absurd hq hrest
      · rw [List.mem_cons, not_or] at hq
        exact (hout q hq.2).trans (Cpu.set_other c r q _ hq.1)

/-- The registers of the caller are taken off the stack. -/
theorem InPlace.restores_caller (ht : InPlace t host program size mode)
    (h8 : 8 ≤ t.ground.room) (c cpu : Cpu) (ret w : Word) :
    (t.trim 8 h8).Reaches (exitStart program mode + 3) ⟨cpu, callerWords c ret w⟩
      (exitStart program mode + 20) (fun a => a.stack = [ret] ∧ a.cpu.mem = cpu.mem ∧
        a.cpu.regs rax = cpu.regs rax ∧
        ∀ r ∈ platformNonvolatileRegisters, a.cpu.regs r = c.regs r) := by
  have hlist : Listed (t.trim 8 h8).marks (t.trim 8 h8).code (exitStart program mode)
    ([.bin .mov true rbp rsp, .binImm .add true 8 rsp] ++
      (platformNonvolatileRegisters.reverse.map Encoded.pop ++ [.ret])) := ht.listed_exit.1
  rcases Site.Runs.drop (t.trim 8 h8) cpu w _ hlist.2.1 with ⟨f, hdrop⟩
  rcases Site.Runs.pops (t.trim 8 h8) c.regs [ret] platformNonvolatileRegisters.reverse
    (by decide) { cpu with flags := f } hlist.append.2.append.1 with ⟨c', hrun, hmem, hin, hout⟩
  refine (hdrop.trans hrun).reaches ⟨rfl, hmem, hout rax (by decide), fun r hr => ?_⟩
  exact hin r (List.mem_reverse.mpr hr)

/-- Out of the frame, whatever is on the stack there. -/
theorem InPlace.unframes (ht : InPlace t host program size mode) {m mem : Memory}
    {saved : List Word} (hroom : 8 + gapWords mode ≤ t.ground.room) (h8 : 8 ≤ t.ground.room)
    (hlen : saved.length = 8) (hm : Holds t.ground mem saved m) {a : Abs}
    (ha : a.cpu.regs rbp = t.ground.sp 8) {c1 : Cpu}
    (hc1 : (t.inner m 8 (gapWords mode) hroom).Rep a c1) :
    ∃ m' c2, (∀ x, ¬ t.ground.Private x → m' x = a.cpu.mem x) ∧
      (t.trim 8 h8).Rep ⟨{ a.cpu with mem := (t.ground.trim 8 h8).hide m' }, saved⟩ c2 ∧
      t.Steps ⟨c1, t.at (exitStart program mode)⟩ ⟨c2, t.at (exitStart program mode + 3)⟩ := by
  have hmove := (t.inner m 8 (gapWords mode) hroom).step_listed hc1 _ _ ht.listed_exit.1.1
  rcases hc1 with ⟨m1, hm1, rfl⟩
  have hback : ∀ p, (a.cpu.at p m1).bin .mov true (t.ground.sp 8) rsp =
    a.cpu.at (t.ground.sp 8) m1 := fun p => (cpu_mov _ _ rsp).trans (a.cpu.at_set_sp p _ m1)
  have hinstr : (Encoded.bin .mov true rbp rsp).linkedInstr
    (t.inner m 8 (gapWords mode) hroom).marks (exitStart program mode) =
    .op (.bin .mov true (.reg rbp) rsp) := rfl
  rw [hinstr, Instr.exec, Op.exec, Src.value, a.cpu.at_regs _ _ rbp (by decide), ha, hback,
    Option.map_some] at hmove
  have hleave : Holds (t.ground.trim 8 h8) ((t.ground.trim 8 h8).hide m1) saved m1 ∧
      ∀ x, ¬ t.ground.Private x → m1 x = a.cpu.mem x := by
    have hroom' : saved.length + gapWords mode ≤ t.ground.room := by omega
    have hback := fun h' : Holds (t.ground.inner m saved.length (gapWords mode) hroom')
      a.cpu.mem a.stack m1 => hm.leave hroom' h'
    simp only [hlen] at hback
    exact hback hm1
  refine ⟨m1, _, hleave.2, ⟨m1, hleave.1, ?_⟩, Relation.ReflTransGen.single hmove⟩
  have hsp : (t.trim 8 h8).ground.sp saved.length = t.ground.sp 8 := by
    rw [hlen]
    rfl
  rw [hsp]
  rfl

/-- The last instruction. -/
theorem InPlace.goes_back (ht : InPlace t host program size mode) (h8 : 8 ≤ t.ground.room)
    {a : Abs} {ret : Word} (hstack : a.stack = [ret]) {c1 : Cpu} (hc1 : (t.trim 8 h8).Rep a c1) :
    ∃ c', t.Steps ⟨c1, t.at (exitStart program mode + 20)⟩ ⟨c', ret⟩ ∧
      c'.regs rsp = t.ground.sp 0 ∧ (∀ r, r ≠ rsp → c'.regs r = a.cpu.regs r) ∧
      ∀ x, ¬ (t.ground.trim 8 h8).Private x → c'.mem x = a.cpu.mem x := by
  have hlist : Listed t.marks t.code (exitStart program mode)
    (([.bin .mov true rbp rsp, .binImm .add true 8 rsp] ++
      platformNonvolatileRegisters.reverse.map Encoded.pop) ++ [.ret]) := ht.listed_exit.1
  have hplace : Listed t.marks t.code (exitStart program mode + 20) [.ret] := hlist.append.2
  have hret := (t.trim 8 h8).step_listed hc1 (exitStart program mode + 20) .ret hplace.1
  rcases hc1 with ⟨m, hm, rfl⟩
  rw [hstack] at hm hret ⊢
  have hinstr : Encoded.ret.linkedInstr (t.trim 8 h8).marks (exitStart program mode + 20) =
    .ctl .ret := rfl
  rw [hinstr, Instr.exec, Ctl.exec, List.length_cons, hm.cpu_pop a.cpu, Option.map_some,
    Option.map_some] at hret
  have hsp : (t.trim 8 h8).ground.sp ([] : List Word).length = t.ground.sp 0 := rfl
  rw [hsp] at hret
  exact ⟨a.cpu.at (t.ground.sp 0) m, Relation.ReflTransGen.single hret, a.cpu.at_sp _ m,
    fun r hr => a.cpu.at_regs _ m r hr, fun x hx => hm.seen x hx⟩

/-- Back to the caller. -/
theorem InPlace.epilogue (ht : InPlace t host program size mode) {m mem mem' : Memory}
    {c : Cpu} {ret w v : Word} (hroom : 8 + gapWords mode ≤ t.ground.room)
    (hm : Holds t.ground mem (callerWords c ret w) m) {a : Abs}
    (ha : Finished (t.ground.sp 8) v mem' a) {c1 : Cpu}
    (hc1 : (t.inner m 8 (gapWords mode) hroom).Rep a c1) :
    ∃ c', Returned t.ground c v mem' c' ∧
      t.Steps ⟨c1, t.at (exitStart program mode)⟩ ⟨c', ret⟩ := by
  have h8 : 8 ≤ t.ground.room := hm.fits
  rcases ht.unframes hroom h8 rfl hm ha.frame hc1 with ⟨m1, c2, hseen, hc2, hmove⟩
  rcases ht.restores_caller h8 c _ ret w c2 hc2 with
    ⟨a3, c3, ⟨hstack, hmem, hrax, hsaved⟩, hc3, hrestore⟩
  rcases ht.goes_back h8 hstack hc3 with ⟨c', hback, hsp, hregs, hmem'⟩
  refine ⟨c', ⟨?_, hsp, fun r hr => ?_, fun x hx => ?_⟩, hmove.trans (hrestore.trans hback)⟩
  · exact (hregs rax (by decide)).trans (hrax.trans ha.result)
  · have hne : ∀ q ∈ platformNonvolatileRegisters, q ≠ rsp := by decide
    exact (hregs r (hne r hr)).trans (hsaved r hr)
  · have hopen : ¬ (t.ground.trim 8 h8).Private x := fun hprivate =>
      hx (hprivate.imp_right (fun hbelow => ⟨hbelow.1,
        le_trans hbelow.2 (Nat.mul_le_mul_left 8 h8)⟩))
    calc c'.mem x = a3.cpu.mem x := hmem' x hopen
      _ = (t.ground.trim 8 h8).hide m1 x := congrFun hmem x
      _ = m1 x := if_neg hopen
      _ = a.cpu.mem x := hseen x hx
      _ = mem' x := congrFun ha.mem x

/-! ## The whole call -/

/-- From the call to the first instruction of the program. -/
theorem InPlace.enters (ht : InPlace t host program size mode)
    (hroom : 8 + gapWords mode ≤ t.ground.room) (hdeep : 8 + gapWords mode + 128 ≤ t.ground.room)
    {c : Cpu} {mem : Memory} {ret : Word} (hsp : c.regs rsp = t.ground.sp 1)
    (hm : Holds t.ground mem [ret] c.mem) (hstart : IsStart program.insts 0) :
    ∃ m w a c', Holds t.ground mem (callerWords c ret w) m ∧
      InPlace (t.inner m 8 (gapWords mode) hroom) host program size mode ∧
      Related (t.inner m 8 (gapWords mode) hroom) program mode (t.ground.sp 8)
        (startState mode t.ground c mem) a ∧
      (t.inner m 8 (gapWords mode) hroom).Rep a c' ∧
      t.Steps ⟨c, t.at 0⟩ ⟨c', t.at (instAt program mode 0)⟩ := by
  have h8 : 8 ≤ t.ground.room := by omega
  -- Up to the frame.
  have hrep : (t.trim 8 h8).Rep ⟨{ c with mem := (t.ground.trim 8 h8).hide c.mem }, [ret]⟩ c := by
    refine ⟨c.mem, hm.narrow 8 h8 (Nat.le_of_ble_eq_true rfl), ?_⟩
    have hregs : Function.update c.regs rsp (t.ground.sp 1) = c.regs := by
      rw [← hsp, Function.update_eq_self]
    have hsame : c.at (t.ground.sp 1) c.mem = c := by
      rw [Cpu.at, hregs]
    exact hsame.symm
  rcases ht.saves h8 _ ret c hrep with ⟨a1, c1, ⟨f, w, rfl⟩, hc1, hsave⟩
  have hsaved : Saved t.ground h8 c
      (savedCpu t.ground { c with mem := (t.ground.trim 8 h8).hide c.mem } f)
      (callerWords c ret w) :=
    ⟨rfl, rfl, Cpu.set_self _ rbp _, savedCpu_other t.ground _ f⟩
  rcases ht.frames hroom h8 hm hsaved hc1 with ⟨m, a2, c2, hm2, hframed, hc2, hframe⟩
  -- Inside of it.
  have hin := ht.inner m hroom hdeep
  rcases hin.starts hframed hstart with ⟨a3, hrel, hcall⟩
  rcases hcall c2 hc2 with ⟨c3, hc3, hprolog⟩
  exact ⟨m, w, a3, c3, hm2, hin, hrel, hc3, hsave.trans (hframe.trans hprolog)⟩

/-- The compiled program, called, returns what every run of it returns. -/
theorem InPlace.call (ht : InPlace t host program size mode)
    (hdeep : 8 + gapWords mode + 128 ≤ t.ground.room)
    (hserves : ∀ m hroom, ServesHelpers (t.inner m 8 (gapWords mode) hroom) host program ext)
    (hdispatcher : host.dispatcher = 0) (havoids : AvoidsRetpoline program) {c : Cpu}
    {mem mem' : Memory} {ret v : Word} (hsp : c.regs rsp = t.ground.sp 1)
    (hm : Holds t.ground mem [ret] c.mem)
    (hends : Ends program ext (startState mode t.ground c mem) v mem') :
    ∃ c', Returned t.ground c v mem' c' ∧ t.Steps ⟨c, t.at 0⟩ ⟨c', ret⟩ := by
  have hroom : 8 + gapWords mode ≤ t.ground.room := by omega
  rcases ht.enters hroom hdeep hsp hm (hends.start ht.validated) with
    ⟨m, w, a1, c1, hm1, hin, hrel, hc1, henter⟩
  rcases hin.run (hserves m hroom) hdispatcher havoids hends hrel c1 hc1 with
    ⟨a2, c2, hfinished, hc2, hrun⟩
  rcases ht.epilogue hroom hm1 hfinished hc2 with ⟨c', hreturned, hleave⟩
  exact ⟨c', hreturned, henter.trans (hrun.trans hleave)⟩

/-- The machine has what the interpreter has: its registers, and its memory as
    far as there is any. -/
structure Mirrors (s : ExecState) (c : Cpu) : Prop where
  regs : ∀ r ≤ 10, c.regs (mapRegister r) = s.regs r
  mem : ∀ a b, s.mem a = some b → c.mem a = some b

theorem Related.mirrors {fp : Word} {s : ExecState} {a : Abs} {c : Cpu}
    (hrel : Related t program mode fp s a) (hc : t.Rep a c) : Mirrors s c := by
  rcases hc with ⟨m, hm, rfl⟩
  refine ⟨fun r hr => ?_, fun x b hb => ?_⟩
  · rw [a.cpu.at_regs _ m _ (mapRegister_free r).1]
    exact hrel.regs r hr
  · have hopen : ¬ t.ground.Private x := by
      intro hprivate
      rw [← hrel.mem, hm.hidden x hprivate] at hb
      exact absurd hb (Option.some_ne_none b).symm
    calc m x = a.cpu.mem x := hm.seen x hopen
      _ = s.mem x := congrFun hrel.mem x
      _ = some b := hb

/-- The compiled program, called, stays with the interpreter. -/
theorem InPlace.accompanies (ht : InPlace t host program size mode)
    (hdeep : 8 + gapWords mode + 128 ≤ t.ground.room)
    (hserves : ∀ m hroom, ServesHelpers (t.inner m 8 (gapWords mode) hroom) host program ext)
    (hdispatcher : host.dispatcher = 0) (havoids : AvoidsRetpoline program) {c : Cpu}
    {mem : Memory} {ret : Word} (hsp : c.regs rsp = t.ground.sp 1)
    (hm : Holds t.ground mem [ret] c.mem) (n : Nat)
    (hgoes : GoesOn program ext n (startState mode t.ground c mem)) :
    ∃ s c', Goes program ext n (startState mode t.ground c mem) s ∧ Mirrors s c' ∧
      t.Steps ⟨c, t.at 0⟩ ⟨c', t.at (instAt program mode s.pc)⟩ := by
  have hroom : 8 + gapWords mode ≤ t.ground.room := by omega
  -- In, and on from there.
  rcases ht.enters hroom hdeep hsp hm (hgoes.start ht.validated n) with
    ⟨m, w, a1, c1, -, hin, hrel, hc1, henter⟩
  rcases hin.follows (hserves m hroom) hdispatcher havoids n hgoes hrel hc1 with
    ⟨s, a', c', hrun, hrel', hc', hsteps⟩
  exact ⟨s, c', hrun, hrel'.mirrors hc', henter.trans hsteps⟩

/-- Code at an address: its bytes are private, and no function of the host
    starts in it. -/
structure CodeAt (g : Ground) (calls : HostCode) (base : Word) (code : Bytes) : Prop where
  loaded : ∀ k b, code[k]? = some b → g.fixed (base + BitVec.ofNat 64 k) = some b
  inside : ∀ k < code.length, calls (base + BitVec.ofNat 64 k) = none

/-- The functions of the host do what the helpers do, and need no more than so
    many words of stack. -/
def HelpersServe (calls : HostCode) (host : HostAddresses) (program : ProgramView)
    (ext : Externals) (need : Nat) : Prop :=
  ∀ t : Site, t.host = calls → need ≤ t.ground.room → ServesHelpers t host program ext

/-- The code is the translation of a program, and of one that the translator
    does right. -/
structure Compiles (host : HostAddresses) (size : Nat) (mode : JitMode) (program : ProgramView)
    (code : Bytes) : Prop where
  bases : BasesOk program.insts
  avoids : AvoidsRetpoline program
  complete : Complete host program size mode
  translated : ubpfTranslateX86 host size mode program = .ok code
  small : size < 2 ^ 31
  dispatcher : host.dispatcher = 0

/-- Code at an address is in place there. -/
theorem Compiles.inPlace {code : Bytes} {calls : HostCode} {g : Ground} {base : Word}
    (hcode : Compiles host size mode program code) (hvalidated : Validated program)
    (hat : CodeAt g calls base code) (hroom : 128 ≤ g.room) :
    InPlace ⟨g, base, code, imageMarks program size mode, calls, hat.loaded, hat.inside⟩
      host program size mode := by
  have hlinked := (translated_linked host program size mode code hcode.bases hcode.complete
    hcode.translated).1
  have hlength := translated_length host program size mode code hcode.bases hcode.complete
    hcode.translated
  exact ⟨hvalidated, hcode.bases, rfl, hlinked, lt_of_le_of_lt hlength hcode.small, hroom⟩

/-- A call of compiled code, from the state the caller leaves the machine in.
    Whatever the runs of the program return in the interpreter, the call
    returns, with the registers of the caller and its memory as they should
    be. -/
theorem native_returns {code : Bytes} {calls : HostCode} {g : Ground} {base ret v : Word}
    {c : Cpu} {mem mem' : Memory} {need : Nat} (hvalidated : Validated program)
    (hcode : Compiles host size mode program code) (hat : CodeAt g calls base code)
    (hserves : HelpersServe calls host program ext need) (hneed : 128 ≤ need)
    (hroom : 8 + gapWords mode + need ≤ g.room) (hsp : c.regs rsp = g.sp 1)
    (hmem : Holds g mem [ret] c.mem)
    (hends : Ends program ext (startState mode g c mem) v mem') :
    ∃ c', Returned g c v mem' c' ∧ Relation.ReflTransGen
      (fun s s' => nativeStep calls s = some s') ⟨c, base⟩ ⟨c', ret⟩ := by
  have ht := hcode.inPlace hvalidated hat (by omega)
  have hcall := ht.call (show _ ≤ g.room by omega)
    (fun m hroom' => hserves _ rfl (show need ≤ g.room - (8 + gapWords mode) by omega))
    hcode.dispatcher hcode.avoids hsp hmem hends
  rw [Site.at, BitVec.add_zero] at hcall
  exact hcall

/-- As long as the runs of the program go on, the call stays with them. -/
theorem native_goes {code : Bytes} {calls : HostCode} {g : Ground} {base ret : Word}
    {c : Cpu} {mem : Memory} {need : Nat} (hvalidated : Validated program)
    (hcode : Compiles host size mode program code) (hat : CodeAt g calls base code)
    (hserves : HelpersServe calls host program ext need) (hneed : 128 ≤ need)
    (hroom : 8 + gapWords mode + need ≤ g.room) (hsp : c.regs rsp = g.sp 1)
    (hmem : Holds g mem [ret] c.mem) (n : Nat)
    (hgoes : GoesOn program ext n (startState mode g c mem)) :
    ∃ s c', Goes program ext n (startState mode g c mem) s ∧ Mirrors s c' ∧
      Relation.ReflTransGen (fun s s' => nativeStep calls s = some s') ⟨c, base⟩
        ⟨c', base + BitVec.ofNat 64 (instAt program mode s.pc)⟩ := by
  have ht := hcode.inPlace hvalidated hat (by omega)
  have hcall := ht.accompanies (show _ ≤ g.room by omega)
    (fun m hroom' => hserves _ rfl (show need ≤ g.room - (8 + gapWords mode) by omega))
    hcode.dispatcher hcode.avoids hsp hmem n hgoes
  rw [Site.at, BitVec.add_zero] at hcall
  exact hcall

end Calling

end UniBPF
