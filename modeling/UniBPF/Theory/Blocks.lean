import UniBPF.Theory.NativeMemory
import UniBPF.Theory.Patching
import Mathlib.Logic.Relation

/-!
# Running Compiled Code

From instructions to blocks. `Abs` is the machine as compiled code makes use
of it: registers and flags, the memory of the program, and the stack as a
list of words. An instruction that names the stack pointer only to push, pop
or look at the top has a meaning there, `Op.run`, which is a plain function
on lists, and a block of such instructions can be evaluated.

`Site` is compiled code in place: the code is in memory, its bytes are
private, and no function of the host starts in it. `Site.Runs` says that the
machine gets from one place of the code to another, and takes the one
abstract machine to the other. The rules that follow are one for blocks and
one for each instruction that chooses the next.

## Main definitions

* `Cpu.at`: A processor with another stack pointer and memory.
* `Abs`, `Op.run`, `runBlock`: The abstract machine.
* `Op.Tame`: The instruction is one of those described.
* `Site`, `Site.Rep`, `Site.Runs`: Compiled code in place, and its runs.

## Theorems

* `Op.run_refines`: The processor does what the abstract machine does.
* `Site.step_listed`: Executing an instruction of the listing.
* `Site.Runs.ops`: Executing a block.
* `Site.Runs.jmp`, `Site.Runs.jcc`, `Site.Runs.call`, `Site.Runs.ret`: The
  others.
-/

namespace UniBPF

open LittleEndian X86 Relocations

/-! ## The abstract machine -/

/-- A processor with another stack pointer and another memory. -/
def X86.Cpu.at (c : Cpu) (p : Word) (m : Memory) : Cpu where
  regs := Function.update c.regs rsp p
  flags := c.flags
  mem := m

theorem X86.Cpu.at_regs (c : Cpu) (p : Word) (m : Memory) (r : Reg) (h : r ≠ rsp) :
    (c.at p m).regs r = c.regs r := Function.update_of_ne h _ _

theorem X86.Cpu.at_sp (c : Cpu) (p : Word) (m : Memory) : (c.at p m).regs rsp = p := by
  simp only [Cpu.at, Function.update_self]

theorem X86.Cpu.at_set (c : Cpu) (p : Word) (m : Memory) (r : Reg) (v : Word) (h : r ≠ rsp) :
    (c.at p m).set r v = (c.set r v).at p m := by
  simp only [Cpu.at, Cpu.set, Function.update_comm h]

theorem X86.Cpu.at_set_sp (c : Cpu) (p q : Word) (m : Memory) :
    (c.at p m).set rsp q = c.at q m := by
  simp only [Cpu.at, Cpu.set, Function.update_idem]

theorem X86.Cpu.bin_at (c : Cpu) (p : Word) (m : Memory) (op : BinOp) (wide : Bool) (b : Word)
    (dst : Reg) (h : dst ≠ rsp) :
    (c.at p m).bin op wide b dst = (c.bin op wide b dst).at p m := by
  have hdst := c.at_regs p m dst h
  cases wide with
  | true =>
      simp only [Cpu.bin, if_true, hdst]
      cases op.result (c.regs dst) b with
      | none => rfl
      | some v => simp only [Cpu.at, Function.update_comm h]
  | false =>
      simp only [Cpu.bin, Bool.false_eq_true, if_false, hdst]
      cases op.result ((c.regs dst).setWidth 32) (b.setWidth 32) with
      | none => rfl
      | some v => simp only [Cpu.at, Function.update_comm h]

theorem X86.Cpu.bin_mem (c : Cpu) (op : BinOp) (wide : Bool) (b : Word) (dst : Reg) :
    (c.bin op wide b dst).mem = c.mem := by
  cases wide with
  | true => rfl
  | false => rfl

theorem X86.Cpu.div_mem {c c' : Cpu} {wide : Bool} {src : Reg} (h : c.div wide src = some c') :
    c'.mem = c.mem := by
  simp only [Cpu.div] at h
  generalize (if wide then 64 else 32) = w at h
  split at h
  · exact absurd h (by simp only [reduceCtorEq, not_false_eq_true])
  · rw [← Option.some.inj h]
    rfl

theorem X86.Cpu.mul_at (c : Cpu) (p : Word) (m : Memory) (wide : Bool) (src : Reg)
    (h : src ≠ rsp) : (c.at p m).mul wide src = (c.mul wide src).at p m := by
  simp only [Cpu.mul, c.at_regs p m rax (by decide), c.at_regs p m src h,
    c.at_set p m rax _ (by decide)]
  rw [Cpu.at_set _ p m rdx _ (by decide)]
  rfl

theorem X86.Cpu.div_at (c : Cpu) (p : Word) (m : Memory) (wide : Bool) (src : Reg)
    (h : src ≠ rsp) : (c.at p m).div wide src = (c.div wide src).map (·.at p m) := by
  simp only [Cpu.div, c.at_regs p m rax (by decide), c.at_regs p m rdx (by decide),
    c.at_regs p m src h, c.at_set p m rax _ (by decide)]
  rw [Cpu.at_set _ p m rdx _ (by decide)]
  generalize (if wide then 64 else 32) = w
  generalize (c.regs src).toNat % 2 ^ w = divisor
  generalize (c.regs rdx).toNat % 2 ^ w * 2 ^ w + (c.regs rax).toNat % 2 ^ w = dividend
  by_cases hfault : divisor = 0 ∨ 2 ^ w ≤ dividend / divisor
  · rw [if_pos hfault, if_pos hfault, Option.map_none]
  · rw [if_neg hfault, if_neg hfault, Option.map_some]
    rfl

theorem X86.Src.value_at (c : Cpu) (p : Word) (m : Memory) (src : Src) (h : src ≠ .reg rsp) :
    src.value (c.at p m) = src.value c := by
  cases src with
  | reg r => exact c.at_regs p m r (fun hr => h (congrArg Src.reg hr))
  | imm v => rfl

theorem X86.Cpu.shift_at (c : Cpu) (p : Word) (m : Memory) (op : ShiftOp) (wide : Bool) (n : Nat)
    (dst : Reg) (h : dst ≠ rsp) :
    (c.at p m).shift op wide n dst = (c.shift op wide n dst).at p m := by
  simp only [Cpu.shift, c.at_regs p m dst h, c.at_set p m dst _ h]
  rfl

/-- The machine as compiled code makes use of it. The memory is the program's,
    and the stack pointer stands for nothing. -/
structure Abs where
  cpu : Cpu
  stack : List Word

/-- The top of the stack read into an operation. -/
def Abs.binTop (a : Abs) (op : BinOp) (dst : Reg) : Option Abs :=
  match a.stack with
  | v :: _ => some ⟨a.cpu.bin op true v dst, a.stack⟩
  | [] => none

def Abs.pop (a : Abs) : Option (Word × Abs) :=
  match a.stack with
  | v :: vs => some (v, ⟨a.cpu, vs⟩)
  | [] => none

def X86.Op.run (o : Op) (a : Abs) : Option Abs :=
  match o with
  | .push r => some ⟨a.cpu, a.cpu.regs r :: a.stack⟩
  | .pop r => a.pop.map fun (v, a) => ⟨a.cpu.set r v, a.stack⟩
  | .pushfq => a.cpu.flags.map fun f => ⟨a.cpu, f.toWord :: a.stack⟩
  | .popfq => a.pop.map fun (v, a) => ⟨{ a.cpu with flags := some (.ofWord v) }, a.stack⟩
  | .binMem op _ dst => a.binTop op dst
  | o => (o.exec 0 a.cpu).map fun c => ⟨c, a.stack⟩

/-- The operand of an access of the program: a register and a distance. -/
def X86.MemRef.Plain (m : MemRef) : Prop := ∃ r, m.base = .reg r ∧ r ≠ rsp ∧ m.index = none

/-- Instructions that name the stack pointer only to push, pop or look at the
    top. -/
def X86.Op.Tame : Op → Prop
  | .push r => r ≠ rsp
  | .pop r => r ≠ rsp
  | .pushfq => True
  | .popfq => True
  | .bin _ _ (.reg src) dst => src ≠ rsp ∧ dst ≠ rsp
  | .bin _ _ (.imm _) dst => dst ≠ rsp
  | .shift _ _ _ dst => dst ≠ rsp
  | .rol16 _ dst => dst ≠ rsp
  | .neg _ dst => dst ≠ rsp
  | .mul _ src => src ≠ rsp
  | .div _ src => src ≠ rsp
  | .bswap _ dst => dst ≠ rsp
  | .movabs _ dst => dst ≠ rsp
  | .load _ m dst => m.Plain ∧ dst ≠ rsp
  | .store size src m => m.Plain ∧ src ≠ rsp ∧ size ≤ 8
  | .storeImm size _ m => m.Plain ∧ size ≤ 8
  | .binMem _ m dst => m = stackTop ∧ dst ≠ rsp
  | .lea _ _ => False
  | .cmove src dst => src ≠ rsp ∧ dst ≠ rsp
  | .pause => True

theorem X86.MemRef.Plain.addr_at {r : MemRef} (h : r.Plain) (c : Cpu) (p : Word) (m : Memory)
    (next : Word) : r.addr next (c.at p m) = r.addr 0 c := by
  rcases h with ⟨reg, hbase, hne, hindex⟩
  simp only [MemRef.addr, hbase, hindex, c.at_regs p m reg hne]

theorem stackTop_addr (c : Cpu) (p : Word) (m : Memory) (next : Word) :
    stackTop.addr next (c.at p m) = p := by
  have hzero : (0 : Word) + BitVec.ofInt 64 0 = 0#64 := rfl
  simp only [stackTop, MemRef.addr, c.at_sp]
  rw [BitVec.add_assoc, hzero, BitVec.add_zero]

theorem Holds.cpu_push {g : Ground} {mem m : Memory} {stack : List Word} (h : Holds g mem stack m)
    (c : Cpu) (v : Word) (hroom : stack.length < g.room) :
    ∃ m', (c.at (g.sp stack.length) m).push v = some (c.at (g.sp (stack.length + 1)) m') ∧
      Holds g mem (v :: stack) m' := by
  rcases h.push v hroom with ⟨m', hstore, hm'⟩
  refine ⟨m', ?_, hm'⟩
  have hmem : (c.at (g.sp stack.length) m).mem = m := rfl
  simp only [Cpu.push, c.at_sp, g.sp_succ, Cpu.at_set_sp, hmem, hstore, Option.map_some]
  rfl

theorem Holds.cpu_pop {g : Ground} {mem m : Memory} {v : Word} {stack : List Word}
    (h : Holds g mem (v :: stack) m) (c : Cpu) :
    (c.at (g.sp (stack.length + 1)) m).pop = some (v, c.at (g.sp stack.length) m) := by
  have hmem : (c.at (g.sp (stack.length + 1)) m).mem = m := rfl
  simp only [Cpu.pop, c.at_sp, hmem, h.top, Option.map_some, g.sp_pred, BitVec.ofNat_toNat,
    BitVec.setWidth_eq, Cpu.at_set_sp]

/-- The processor does what the abstract machine does. -/
theorem X86.Op.run_refines (g : Ground) (o : Op) (a a' : Abs) (m : Memory) (next : Word)
    (htame : o.Tame) (hrun : o.run a = some a') (hm : Holds g a.cpu.mem a.stack m)
    (hroom : a.stack.length < g.room) :
    ∃ m', o.exec next (a.cpu.at (g.sp a.stack.length) m) =
        some (a'.cpu.at (g.sp a'.stack.length) m') ∧ Holds g a'.cpu.mem a'.stack m' := by
  cases o with
  | push r =>
      simp only [Op.run, Option.some.injEq] at hrun
      subst hrun
      rcases hm.cpu_push a.cpu (a.cpu.regs r) hroom with ⟨m', hpush, hm'⟩
      refine ⟨m', ?_, hm'⟩
      simp only [Op.exec, a.cpu.at_regs _ m r htame]
      exact hpush
  | pop r =>
      rcases a with ⟨c, stack⟩
      cases stack with
      | nil => exact absurd hrun (by simp only [Op.run, Abs.pop, Option.map_none, reduceCtorEq,
          not_false_eq_true])
      | cons v vs =>
          simp only [Op.run, Abs.pop, Option.map_some, Option.some.injEq] at hrun
          subst hrun
          refine ⟨m, ?_, hm.tail⟩
          simp only [Op.exec, List.length_cons, hm.cpu_pop c, Option.map_some,
            c.at_set _ m r v htame]
  | pushfq =>
      simp only [Op.run] at hrun
      rcases Option.map_eq_some_iff.mp hrun with ⟨f, hf, ha'⟩
      subst ha'
      rcases hm.cpu_push a.cpu f.toWord hroom with ⟨m', hpush, hm'⟩
      refine ⟨m', ?_, hm'⟩
      have hflags : (a.cpu.at (g.sp a.stack.length) m).flags = some f := hf
      simp only [Op.exec, hflags, Option.bind_some]
      exact hpush
  | popfq =>
      rcases a with ⟨c, stack⟩
      cases stack with
      | nil => exact absurd hrun (by simp only [Op.run, Abs.pop, Option.map_none, reduceCtorEq,
          not_false_eq_true])
      | cons v vs =>
          simp only [Op.run, Abs.pop, Option.map_some, Option.some.injEq] at hrun
          subst hrun
          refine ⟨m, ?_, hm.tail⟩
          simp only [Op.exec, List.length_cons, hm.cpu_pop c, Option.map_some]
          rfl
  | bin op wide src dst =>
      simp only [Op.run, Op.exec, Option.map_some, Option.some.injEq] at hrun
      subst hrun
      have htame : src ≠ .reg rsp ∧ dst ≠ rsp := by
        cases src with
        | reg r => exact ⟨fun h => htame.1 (Src.reg.inj h), htame.2⟩
        | imm v => exact ⟨Src.noConfusion, htame⟩
      refine ⟨m, ?_, ?_⟩
      · simp only [Op.exec, Src.value_at _ _ _ _ htame.1, Cpu.bin_at _ _ _ _ _ _ _ htame.2]
      · rw [Cpu.bin_mem]
        exact hm
  | shift op wide count dst =>
      simp only [Op.run, Op.exec, Option.map_some, Option.some.injEq] at hrun
      subst hrun
      have hcount : count.value (a.cpu.at (g.sp a.stack.length) m) = count.value a.cpu := by
        cases count with
        | cl => simp only [Count.value, a.cpu.at_regs _ m rcx (by decide)]
        | imm n => rfl
      exact ⟨m, by simp only [Op.exec, hcount, Cpu.shift_at _ _ _ _ _ _ _ htame], hm⟩
  | rol16 n dst =>
      simp only [Op.run, Op.exec, Option.map_some, Option.some.injEq] at hrun
      subst hrun
      refine ⟨m, ?_, hm⟩
      simp only [Op.exec, a.cpu.at_regs _ m dst htame, a.cpu.at_set _ m dst _ htame]
      rfl
  | neg wide dst =>
      simp only [Op.run, Op.exec, Option.map_some, Option.some.injEq] at hrun
      subst hrun
      refine ⟨m, ?_, hm⟩
      simp only [Op.exec, a.cpu.at_regs _ m dst htame, a.cpu.at_set _ m dst _ htame]
      rfl
  | mul wide src =>
      simp only [Op.run, Op.exec, Option.map_some, Option.some.injEq] at hrun
      subst hrun
      exact ⟨m, by simp only [Op.exec, Cpu.mul_at _ _ _ _ _ htame], hm⟩
  | div wide src =>
      simp only [Op.run, Op.exec] at hrun
      rcases Option.map_eq_some_iff.mp hrun with ⟨c, hc, ha'⟩
      subst ha'
      refine ⟨m, ?_, ?_⟩
      · simp only [Op.exec, Cpu.div_at _ _ _ _ _ htame, hc, Option.map_some]
      · rw [Cpu.div_mem hc]
        exact hm
  | bswap wide dst =>
      simp only [Op.run, Op.exec, Option.map_some, Option.some.injEq] at hrun
      subst hrun
      refine ⟨m, ?_, hm⟩
      simp only [Op.exec, a.cpu.at_regs _ m dst htame, a.cpu.at_set _ m dst _ htame]
  | movabs v dst =>
      simp only [Op.run, Op.exec, Option.map_some, Option.some.injEq] at hrun
      subst hrun
      exact ⟨m, by simp only [Op.exec, a.cpu.at_set _ m dst _ htame], hm⟩
  | load size r dst =>
      simp only [Op.run, Op.exec, Option.map_map] at hrun
      rcases Option.map_eq_some_iff.mp hrun with ⟨v, hv, ha'⟩
      subst ha'
      have hload := hm.load _ _ _ hv
      refine ⟨m, ?_, hm⟩
      have hmem : (a.cpu.at (g.sp a.stack.length) m).mem = m := rfl
      simp only [Op.exec, htame.1.addr_at, hmem, hload, Option.map_some,
        a.cpu.at_set _ m dst _ htame.2, Function.comp]
  | store size src r =>
      simp only [Op.run, Op.exec, Option.map_map] at hrun
      rcases Option.map_eq_some_iff.mp hrun with ⟨mem', hmem', ha'⟩
      subst ha'
      rcases hm.store _ size _ (by have := htame.2.2; omega) hmem' with ⟨m', hstore, hm'⟩
      refine ⟨m', ?_, hm'⟩
      have hmem : (a.cpu.at (g.sp a.stack.length) m).mem = m := rfl
      simp only [Op.exec, htame.1.addr_at, hmem, a.cpu.at_regs _ m src htame.2.1, hstore,
        Option.map_some, Function.comp]
      rfl
  | storeImm size imm r =>
      simp only [Op.run, Op.exec, Option.map_map] at hrun
      rcases Option.map_eq_some_iff.mp hrun with ⟨mem', hmem', ha'⟩
      subst ha'
      rcases hm.store _ size _ (by have := htame.2; omega) hmem' with ⟨m', hstore, hm'⟩
      refine ⟨m', ?_, hm'⟩
      have hmem : (a.cpu.at (g.sp a.stack.length) m).mem = m := rfl
      simp only [Op.exec, htame.1.addr_at, hmem, hstore, Option.map_some, Function.comp]
      rfl
  | binMem op r dst =>
      rcases a with ⟨c, stack⟩
      cases stack with
      | nil => exact absurd hrun (by simp only [Op.run, Abs.binTop, reduceCtorEq,
          not_false_eq_true])
      | cons v vs =>
          simp only [Op.run, Abs.binTop, Option.some.injEq] at hrun
          subst hrun
          have hload : (c.at (g.sp (v :: vs).length) m).mem.load (g.sp (v :: vs).length) 8 =
            some v.toNat := hm.top
          have haddr := stackTop_addr c (g.sp (v :: vs).length) m next
          refine ⟨m, ?_, ?_⟩
          · simp only [Op.exec, htame.1, haddr, hload, Option.map_some, BitVec.ofNat_toNat,
              BitVec.setWidth_eq, Cpu.bin_at _ _ _ _ _ _ _ htame.2]
          · rw [Cpu.bin_mem]
            exact hm
  | lea r dst => exact absurd htame not_false
  | cmove src dst =>
      simp only [Op.run, Op.exec, Option.map_map] at hrun
      rcases Option.map_eq_some_iff.mp hrun with ⟨f, hf, ha'⟩
      subst ha'
      have hflags : (a.cpu.at (g.sp a.stack.length) m).flags = some f := hf
      simp only [Op.exec, hflags, Option.map_some, a.cpu.at_regs _ m src htame.1,
        a.cpu.at_set _ m dst _ htame.2, Function.comp]
      cases f.zero with
      | true => exact ⟨m, rfl, hm⟩
      | false => exact ⟨m, rfl, hm⟩
  | pause =>
      simp only [Op.run, Op.exec, Option.map_some, Option.some.injEq] at hrun
      subst hrun
      exact ⟨m, rfl, hm⟩

/-- A block of instructions. -/
def runBlock : List Op → Abs → Option Abs
  | [], a => some a
  | o :: os, a => (o.run a).bind (runBlock os)

theorem Abs.pop_length {a mid : Abs} {v : Word} (h : a.pop = some (v, mid)) :
    mid.stack.length ≤ a.stack.length + 1 := by
  rcases a with ⟨c, stack⟩
  cases stack with
  | nil => exact absurd h (by simp only [Abs.pop, reduceCtorEq, not_false_eq_true])
  | cons w vs =>
      simp only [Abs.pop, Option.some.injEq, Prod.mk.injEq] at h
      rw [← h.2]
      exact Nat.le_succ_of_le (Nat.le_succ _)

theorem X86.Op.run_length {o : Op} {a a' : Abs} (h : o.run a = some a') :
    a'.stack.length ≤ a.stack.length + 1 := by
  cases o with
  | push r =>
      simp only [Op.run, Option.some.injEq] at h
      rw [← h]
      exact le_refl _
  | pop r =>
      simp only [Op.run] at h
      rcases Option.map_eq_some_iff.mp h with ⟨⟨v, mid⟩, hpop, rfl⟩
      have hlen := Abs.pop_length hpop
      exact hlen
  | pushfq =>
      simp only [Op.run] at h
      rcases Option.map_eq_some_iff.mp h with ⟨f, -, rfl⟩
      exact le_refl _
  | popfq =>
      simp only [Op.run] at h
      rcases Option.map_eq_some_iff.mp h with ⟨⟨v, mid⟩, hpop, rfl⟩
      have hlen := Abs.pop_length hpop
      exact hlen
  | binMem op m dst =>
      rcases a with ⟨c, stack⟩
      cases stack with
      | nil => exact absurd h (by simp only [Op.run, Abs.binTop, reduceCtorEq, not_false_eq_true])
      | cons v vs =>
          simp only [Op.run, Abs.binTop, Option.some.injEq] at h
          rw [← h]
          exact Nat.le_succ _
  | _ =>
      simp only [Op.run] at h
      rcases Option.map_eq_some_iff.mp h with ⟨c, -, rfl⟩
      exact Nat.le_succ _

/-! ## Code in place -/

/-- Compiled code in memory. Its bytes are private, and no function of the
    host starts in it. -/
structure Site where
  ground : Ground
  base : Word
  code : Bytes
  marks : Marks
  host : HostCode
  loaded : ∀ k b, code[k]? = some b → ground.fixed (base + BitVec.ofNat 64 k) = some b
  inside : ∀ k < code.length, host (base + BitVec.ofNat 64 k) = none

/-- The address of a place in the code. -/
def Site.at (t : Site) (off : Nat) : Word := t.base + BitVec.ofNat 64 off

/-- The processor holds the abstract machine. -/
def Site.Rep (t : Site) (a : Abs) (c : Cpu) : Prop :=
  ∃ m, Holds t.ground a.cpu.mem a.stack m ∧ c = a.cpu.at (t.ground.sp a.stack.length) m

/-- Some number of steps. -/
def Site.Steps (t : Site) : Machine → Machine → Prop :=
  Relation.ReflTransGen fun s s' => nativeStep t.host s = some s'

/-- The code takes the machine from one place to another, and from one
    abstract machine to another. -/
def Site.Runs (t : Site) (off : Nat) (a : Abs) (off' : Nat) (a' : Abs) : Prop :=
  ∀ c, t.Rep a c → ∃ c', t.Rep a' c' ∧ t.Steps ⟨c, t.at off⟩ ⟨c', t.at off'⟩

theorem Site.Runs.refl (t : Site) (off : Nat) (a : Abs) : t.Runs off a off a :=
  fun c hc => ⟨c, hc, Relation.ReflTransGen.refl⟩

theorem Site.Runs.trans {t : Site} {off off' off'' : Nat} {a a' a'' : Abs}
    (h : t.Runs off a off' a') (h' : t.Runs off' a' off'' a'') : t.Runs off a off'' a'' := by
  intro c hc
  rcases h c hc with ⟨c', hc', hsteps⟩
  rcases h' c' hc' with ⟨c'', hc'', hsteps'⟩
  exact ⟨c'', hc'', hsteps.trans hsteps'⟩

theorem fetch_prefix (m : Memory) (a : Word) (bs : Bytes) (n : Nat) (hlen : bs.length ≤ n)
    (h : ∀ k b, bs[k]? = some b → m (a + BitVec.ofNat 64 k) = some b) :
    ∃ rest, fetch m a n = bs ++ rest := by
  induction bs generalizing a n with
  | nil => exact ⟨fetch m a n, rfl⟩
  | cons b bs ih =>
      cases n with
      | zero => exact absurd hlen (by simp only [List.length_cons, Nat.le_zero_eq, Nat.succ_ne_zero,
          not_false_eq_true])
      | succ n =>
          have hfirst := h 0 b rfl
          rw [BitVec.add_zero] at hfirst
          rcases ih (a + 1) n (Nat.le_of_succ_le_succ hlen) (fun k c hk => by
            rw [add_one_ofNat]
            exact h (k + 1) c hk) with ⟨rest, hrest⟩
          refine ⟨rest, ?_⟩
          simp only [fetch, hfirst, hrest, List.cons_append]

theorem X86.Encoded.size_pos (e : Encoded) : 0 < e.size := by
  rw [Nat.pos_iff_ne_zero]
  intro hzero
  have hhead : e.piece.head = [] := by
    rw [Encoded.size, Piece.bytes, List.length_append] at hzero
    exact List.eq_nil_of_length_eq_zero (by omega)
  have hcontent : e.piece.content = [] := by
    rw [Encoded.size, Piece.bytes, List.length_append] at hzero
    exact List.eq_nil_of_length_eq_zero (by omega)
  have hdecode := e.decodes [] [] (by rw [hcontent])
  rw [hhead] at hdecode
  exact absurd hdecode (by simp only [List.nil_append, decode, takeRex, reduceCtorEq,
    not_false_eq_true])

/-- Executing an instruction of the listing. -/
theorem Site.step_listed (t : Site) {a : Abs} {c : Cpu} (hc : t.Rep a c) (off : Nat) (e : Encoded)
    (h : e.linkedBytes t.marks off <+: t.code.drop off) :
    nativeStep t.host ⟨c, t.at off⟩ =
      (e.linkedInstr t.marks off).exec (t.at (off + e.size)) c := by
  rcases hc with ⟨m, hm, rfl⟩
  rcases h with ⟨post, hpost⟩
  have hlen := e.length_linked t.marks off
  have hinside : off < t.code.length := by
    have hpos := e.size_pos
    have hdrop := congrArg List.length hpost
    rw [List.length_append, List.length_drop] at hdrop
    omega
  have hbytes : ∀ k b, (e.linkedBytes t.marks off)[k]? = some b →
      m (t.at off + BitVec.ofNat 64 k) = some b := by
    intro k b hk
    have hcode : t.code[off + k]? = some b := by
      rw [← List.getElem?_drop, ← hpost]
      rw [List.getElem?_append_left (List.getElem?_eq_some_iff.mp hk).1]
      exact hk
    have hfixed := hm.fixed _ _ (t.loaded (off + k) b hcode)
    rw [Site.at, BitVec.add_assoc, ← BitVec.ofNat_add]
    exact hfixed
  rcases fetch_prefix m (t.at off) _ maxInstr (hlen ▸ e.short) hbytes with ⟨rest, hrest⟩
  have hmem : (a.cpu.at (t.ground.sp a.stack.length) m).mem = m := rfl
  have hsize : (e.linkedBytes t.marks off ++ rest).length - rest.length = e.size := by
    rw [List.length_append, hlen, Nat.add_sub_cancel]
  have hat : t.at off + BitVec.ofNat 64 e.size = t.at (off + e.size) := by
    rw [Site.at, Site.at, BitVec.add_assoc, ← BitVec.ofNat_add]
  have hhost : t.host (t.at off) = none := t.inside off hinside
  simp only [nativeStep, hhost, X86.step, hmem, hrest, decode_linked, hsize, hat]

/-- What an instruction without a field is. -/
def IsOp (e : Encoded) (o : Op) : Prop := ∀ v, e.instr v = .op o

/-- Executing a block. -/
theorem Site.Runs.ops (t : Site) {es : List Encoded} {os : List Op} (hops : List.Forall₂ IsOp es os)
    {off : Nat} (hlist : Listed t.marks t.code off es) (htame : ∀ o ∈ os, o.Tame) {a a' : Abs}
    (hrun : runBlock os a = some a') (hroom : a.stack.length + os.length ≤ t.ground.room) :
    t.Runs off a (off + codeLength es) a' := by
  induction hops generalizing off a with
  | nil =>
      rw [← Option.some.inj hrun]
      exact Site.Runs.refl t off a
  | cons hop hops ih =>
      rename_i e o es os
      rcases Option.bind_eq_some_iff.mp hrun with ⟨mid, hmid, hrest⟩
      rw [List.length_cons] at hroom
      have hlen := Op.run_length hmid
      have hcode : off + codeLength (e :: es) = off + e.size + codeLength es := by
        rw [codeLength, pieces, List.map_cons, layout_cons, List.length_append, ← Nat.add_assoc]
        rfl
      rw [hcode]
      refine Site.Runs.trans ?_ (ih hlist.2 (fun o ho => htame o (List.mem_cons_of_mem _ ho)) hrest
        (by omega))
      intro c hc
      have hstep := t.step_listed hc off e hlist.1
      rcases hc with ⟨m, hm, rfl⟩
      rcases Op.run_refines t.ground o a mid m (t.at (off + e.size)) (htame o List.mem_cons_self)
        hmid hm (by omega) with ⟨m', hexec, hm'⟩
      refine ⟨_, ⟨m', hm', rfl⟩, Relation.ReflTransGen.single ?_⟩
      rw [hstep, Encoded.linkedInstr, hop, Instr.exec, hexec]
      rfl

/-! ## Instructions that choose the next -/

theorem signedField_four (d : Int) (h : -2 ^ 31 ≤ d ∧ d < 2 ^ 31) :
    signedField (toLE 4 (u32 d)) = d := by
  have hd := u32_lt d
  rw [signedField, length_toLE, ofLE_toLE, Nat.mod_eq_of_lt (by norm_num at hd ⊢; exact hd)]
  exact wrap32_eq d h

theorem Site.at_distance (t : Site) (n d : Nat) :
    t.at n + BitVec.ofInt 64 ((d : Int) - n) = t.at d := by
  have hsum : BitVec.ofNat 64 n + BitVec.ofInt 64 ((d : Int) - n) = BitVec.ofNat 64 d := by
    rw [← BitVec.ofInt_natCast, ← BitVec.ofInt_add, ← BitVec.ofInt_natCast]
    congr 1
    omega
  rw [Site.at, BitVec.add_assoc, hsum]
  rfl

/-- One step, where what it does is known. -/
theorem Site.Runs.single {t : Site} {off off' : Nat} {a a' : Abs} (e : Encoded)
    (hlist : e.linkedBytes t.marks off <+: t.code.drop off)
    (h : ∀ m, Holds t.ground a.cpu.mem a.stack m →
      ∃ m', Holds t.ground a'.cpu.mem a'.stack m' ∧
        (e.linkedInstr t.marks off).exec (t.at (off + e.size))
          (a.cpu.at (t.ground.sp a.stack.length) m) =
        some ⟨a'.cpu.at (t.ground.sp a'.stack.length) m', t.at off'⟩) :
    t.Runs off a off' a' := by
  intro c hc
  have hstep := t.step_listed hc off e hlist
  rcases hc with ⟨m, hm, rfl⟩
  rcases h m hm with ⟨m', hm', hexec⟩
  exact ⟨_, ⟨m', hm', rfl⟩, Relation.ReflTransGen.single (hstep.trans hexec)⟩

/-- The distance of a field of four bytes at the end of an instruction. -/
theorem distance_field (m : Marks) (k : Table) (target : Target) (loc dest : Nat)
    (hwidth : fieldWidth k target = 4) (hdest : destination m k target = dest)
    (hloc : loc + 4 < 2 ^ 31) (hd : dest < 2 ^ 31) :
    signedField (fieldBytes m k loc target) = (dest : Int) - (loc + 4 : Nat) := by
  rw [fieldBytes, hwidth, distance, hdest, hwidth]
  rw [signedField_four _ (by constructor <;> omega)]
  push_cast
  rfl

theorem Site.Runs.jmp (t : Site) (a : Abs) {off dest : Nat} (pc o : Nat)
    (hlist : (Encoded.jmp pc o).linkedBytes t.marks off <+: t.code.drop off)
    (hdest : destination t.marks .jumps ⟨pc, o, false⟩ = dest)
    (hoff : off + 5 < 2 ^ 31) (hd : dest < 2 ^ 31) : t.Runs off a dest a := by
  refine Site.Runs.single _ hlist (fun m hm => ⟨m, hm, ?_⟩)
  have hfield := distance_field t.marks .jumps ⟨pc, o, false⟩ (off + 1) dest rfl hdest hoff hd
  have hinstr : (Encoded.jmp pc o).linkedInstr t.marks off =
      .ctl (.jmp ((dest : Int) - (off + 5 : Nat))) := congrArg (fun d => Instr.ctl (.jmp d)) hfield
  have hsize : (Encoded.jmp pc o).size = 5 := rfl
  rw [hinstr, hsize]
  simp only [Instr.exec, Ctl.exec, Option.map_some, t.at_distance]

theorem Site.Runs.jcc (t : Site) (a : Abs) {off dest : Nat} (cond : Cond) (pc o : Nat) (f : Flags)
    (hlist : (Encoded.jcc cond pc o).linkedBytes t.marks off <+: t.code.drop off)
    (hdest : destination t.marks .jumps ⟨pc, o, false⟩ = dest)
    (hoff : off + 6 < 2 ^ 31) (hd : dest < 2 ^ 31) (hf : a.cpu.flags = some f) :
    t.Runs off a (if cond.holds f then dest else off + 6) a := by
  refine Site.Runs.single _ hlist (fun m hm => ⟨m, hm, ?_⟩)
  have hfield := distance_field t.marks .jumps ⟨pc, o, false⟩ (off + 2) dest rfl hdest hoff hd
  have hinstr : (Encoded.jcc cond pc o).linkedInstr t.marks off =
      .ctl (.jcc cond ((dest : Int) - (off + 6 : Nat))) :=
    congrArg (fun d => Instr.ctl (.jcc cond d)) hfield
  have hsize : (Encoded.jcc cond pc o).size = 6 := rfl
  have hflags : (a.cpu.at (t.ground.sp a.stack.length) m).flags = some f := hf
  rw [hinstr, hsize]
  simp only [Instr.exec, Ctl.exec, hflags, Option.map_some, t.at_distance]
  split
  all_goals rfl

/-- A conditional jump that is not taken, wherever it would have gone. -/
theorem Site.Runs.jccSkip (t : Site) (a : Abs) {off : Nat} (cond : Cond) (pc o : Nat) (f : Flags)
    (hlist : (Encoded.jcc cond pc o).linkedBytes t.marks off <+: t.code.drop off)
    (hf : a.cpu.flags = some f) (hno : cond.holds f = false) : t.Runs off a (off + 6) a := by
  refine Site.Runs.single _ hlist (fun m hm => ⟨m, hm, ?_⟩)
  have hinstr : (Encoded.jcc cond pc o).linkedInstr t.marks off =
    .ctl (.jcc cond (signedField ((Encoded.jcc cond pc o).linkedContent t.marks off))) := rfl
  have hsize : (Encoded.jcc cond pc o).size = 6 := rfl
  have hflags : (a.cpu.at (t.ground.sp a.stack.length) m).flags = some f := hf
  rw [hinstr, hsize]
  simp only [Instr.exec, Ctl.exec, hflags, Option.map_some, hno, Bool.false_eq_true, if_false]

theorem Site.Runs.nearJmp (t : Site) (a : Abs) {off : Nat} (pc o : Nat)
    (hlist : (Encoded.nearJmp pc o).linkedBytes t.marks off <+: t.code.drop off) (ho : 0 < o)
    (hrange : -128 ≤ (o : Int) - (off + 2) ∧ (o : Int) - (off + 2) < 128) : t.Runs off a o a := by
  refine Site.Runs.single _ hlist (fun m hm => ⟨m, hm, ?_⟩)
  have hdest : destination t.marks .jumps ⟨pc, o, true⟩ = o := if_pos (show o ≠ 0 by omega)
  have hfield : signedField (fieldBytes t.marks .jumps (off + 1) ⟨pc, o, true⟩) =
      (o : Int) - (off + 2 : Nat) := by
    have hwidth : fieldWidth .jumps ⟨pc, o, true⟩ = 1 := rfl
    have hdist : distance t.marks .jumps (off + 1) ⟨pc, o, true⟩ = (o : Int) - (off + 2 : Nat) := by
      rw [distance, hdest, hwidth]
      omega
    rw [fieldBytes, hwidth, hdist, signedField, length_toLE, ofLE_toLE, u32, toSigned]
    split
    all_goals omega
  have hinstr : (Encoded.nearJmp pc o).linkedInstr t.marks off =
      .ctl (.jmp ((o : Int) - (off + 2 : Nat))) := congrArg (fun d => Instr.ctl (.jmp d)) hfield
  have hsize : (Encoded.nearJmp pc o).size = 2 := rfl
  rw [hinstr, hsize]
  simp only [Instr.exec, Ctl.exec, Option.map_some, t.at_distance]

theorem Site.Runs.localCall (t : Site) (a : Abs) {off dest : Nat} (pc : Nat)
    (hlist : (Encoded.localCall pc).linkedBytes t.marks off <+: t.code.drop off)
    (hdest : destination t.marks .localCalls ⟨pc, 0, false⟩ = dest)
    (hoff : off + 5 < 2 ^ 31) (hd : dest < 2 ^ 31) (hroom : a.stack.length < t.ground.room) :
    t.Runs off a dest ⟨a.cpu, t.at (off + 5) :: a.stack⟩ := by
  refine Site.Runs.single _ hlist (fun m hm => ?_)
  rcases hm.cpu_push a.cpu (t.at (off + 5)) hroom with ⟨m', hpush, hm'⟩
  refine ⟨m', hm', ?_⟩
  have hfield := distance_field t.marks .localCalls ⟨pc, 0, false⟩ (off + 1) dest rfl hdest hoff hd
  have hinstr : (Encoded.localCall pc).linkedInstr t.marks off =
      .ctl (.call ((dest : Int) - (off + 5 : Nat))) :=
    congrArg (fun d => Instr.ctl (.call d)) hfield
  have hsize : (Encoded.localCall pc).size = 5 := rfl
  rw [hinstr, hsize]
  simp only [Instr.exec, Ctl.exec, hpush, Option.map_some, t.at_distance, List.length_cons]

/-- The call at the entry, over the jump that follows it. -/
theorem Site.Runs.callOver (t : Site) (a : Abs) {off : Nat}
    (hlist : Encoded.callOver.linkedBytes t.marks off <+: t.code.drop off)
    (hroom : a.stack.length < t.ground.room) :
    t.Runs off a (off + 10) ⟨a.cpu, t.at (off + 5) :: a.stack⟩ := by
  refine Site.Runs.single _ hlist (fun m hm => ?_)
  rcases hm.cpu_push a.cpu (t.at (off + 5)) hroom with ⟨m', hpush, hm'⟩
  refine ⟨m', hm', ?_⟩
  have hinstr : Encoded.callOver.linkedInstr t.marks off = .ctl (.call 5) := rfl
  have hsize : Encoded.callOver.size = 5 := rfl
  have hat := t.at_distance (off + 5) (off + 10)
  rw [show ((off + 10 : Nat) : Int) - (off + 5 : Nat) = 5 by omega] at hat
  rw [hinstr, hsize]
  simp only [Instr.exec, Ctl.exec, hpush, Option.map_some, hat, List.length_cons]

theorem Site.Runs.jmpNext (t : Site) (a : Abs) {off : Nat}
    (hlist : Encoded.jmpNext.linkedBytes t.marks off <+: t.code.drop off) :
    t.Runs off a (off + 5) a := by
  refine Site.Runs.single _ hlist (fun m hm => ⟨m, hm, ?_⟩)
  have hinstr : Encoded.jmpNext.linkedInstr t.marks off = .ctl (.jmp 0) := rfl
  have hsize : Encoded.jmpNext.size = 5 := rfl
  have hat := t.at_distance (off + 5) (off + 5)
  rw [sub_self] at hat
  rw [hinstr, hsize]
  simp only [Instr.exec, Ctl.exec, Option.map_some, hat]

theorem Site.Runs.ret (t : Site) (c : Cpu) (stack : List Word) {off dest : Nat}
    (hlist : Encoded.ret.linkedBytes t.marks off <+: t.code.drop off) :
    t.Runs off ⟨c, t.at dest :: stack⟩ dest ⟨c, stack⟩ := by
  refine Site.Runs.single _ hlist (fun m hm => ⟨m, hm.tail, ?_⟩)
  have hinstr : Encoded.ret.linkedInstr t.marks off = .ctl .ret := rfl
  rw [hinstr]
  simp only [Instr.exec, Ctl.exec, List.length_cons, hm.cpu_pop c, Option.map_some]

/-! ## The stack pointer as a number -/

/-- Moving the stack pointer by a constant. -/
theorem X86.Cpu.bin_sp (c : Cpu) (p : Word) (m : Memory) (op : BinOp) (n : Int) (q : Word)
    (next : Word) (h : op.result p (BitVec.ofInt 64 n) = some q) :
    (Op.bin op true (.imm n) rsp).exec next (c.at p m) =
      some (({ c with flags := op.flags p (BitVec.ofInt 64 n) c.flags } : Cpu).at q m) := by
  simp only [Op.exec, Src.value, Cpu.bin, if_true, c.at_sp, h]
  simp only [Cpu.at, Function.update_idem]

/-- Taking the top off the stack without looking at it. -/
theorem Site.Runs.drop (t : Site) (c : Cpu) (v : Word) (stack : List Word) {off : Nat}
    (hlist : (Encoded.binImm .add true 8 rsp).linkedBytes t.marks off <+: t.code.drop off) :
    ∃ f, t.Runs off ⟨c, v :: stack⟩ (off + 7) ⟨{ c with flags := f }, stack⟩ := by
  refine ⟨BinOp.add.flags (t.ground.sp (stack.length + 1)) (BitVec.ofInt 64 8) c.flags,
    Site.Runs.single _ hlist (fun m hm => ⟨m, hm.tail, ?_⟩)⟩
  have hinstr : (Encoded.binImm .add true 8 rsp).linkedInstr t.marks off =
    .op (.bin .add true (.imm 8) rsp) := rfl
  have hresult : BinOp.add.result (t.ground.sp (stack.length + 1)) (BitVec.ofInt 64 8) =
    some (t.ground.sp stack.length) := congrArg some (t.ground.sp_pred stack.length)
  have hsize : (Encoded.binImm .add true 8 rsp).size = 7 := rfl
  rw [hinstr, hsize, Instr.exec, List.length_cons, c.bin_sp _ m .add 8 _ _ hresult]
  rfl

/-- The start of a function: a word is put on the stack. -/
theorem Site.Runs.prolog (t : Site) (a : Abs) (usage : Nat) {off : Nat}
    (hlist : Listed t.marks t.code off (prologCode usage))
    (hroom : a.stack.length < t.ground.room) :
    ∃ f, t.Runs off a (off + 15) ⟨{ a.cpu with flags := f },
      BitVec.ofInt 64 (toSigned 32 (usage % 256 ^ 4)) :: a.stack⟩ := by
  refine ⟨BinOp.sub.flags (t.ground.sp a.stack.length) (BitVec.ofInt 64 8) a.cpu.flags,
    fun c hc => ?_⟩
  have hstep := t.step_listed hc off _ hlist.1
  rcases hc with ⟨m, hm, rfl⟩
  have hinstr : (Encoded.binImm .sub true 8 rsp).linkedInstr t.marks off =
    .op (.bin .sub true (.imm 8) rsp) := rfl
  have hresult : BinOp.sub.result (t.ground.sp a.stack.length) (BitVec.ofInt 64 8) =
    some (t.ground.sp (a.stack.length + 1)) := congrArg some (t.ground.sp_succ a.stack.length)
  have hsize : (Encoded.binImm .sub true 8 rsp).size = 7 := rfl
  rw [hinstr, hsize, Instr.exec, a.cpu.bin_sp _ m .sub 8 _ _ hresult, Option.map_some] at hstep
  generalize BinOp.sub.flags _ _ _ = f at hstep ⊢
  -- For a moment the stack has a word nobody has put there.
  rcases hm.grow hroom with ⟨w, hw⟩
  have hrep : t.Rep ⟨{ a.cpu with flags := f }, w :: a.stack⟩
    (({ a.cpu with flags := f } : Cpu).at (t.ground.sp (a.stack.length + 1)) m) := ⟨m, hw, rfl⟩
  have hstep' := t.step_listed hrep (off + 7) _ hlist.2.1
  rcases hm.push (BitVec.ofInt 64 (toSigned 32 (usage % 256 ^ 4))) hroom with ⟨m', hstore, hm'⟩
  have hinstr' : (Encoded.storeUsage usage).linkedInstr t.marks (off + 7) =
    .op (.storeImm 8 (toSigned 32 (usage % 256 ^ 4)) stackTop) := rfl
  have hsize' : (Encoded.storeUsage usage).size = 8 := rfl
  have haddr := stackTop_addr { a.cpu with flags := f } (t.ground.sp (a.stack.length + 1)) m
    (t.at (off + 15))
  have hmem : (({ a.cpu with flags := f } : Cpu).at (t.ground.sp (a.stack.length + 1)) m).mem =
    m := rfl
  rw [hinstr', hsize', Instr.exec, Op.exec, haddr, hmem, hstore] at hstep'
  exact ⟨_, ⟨m', hm', rfl⟩,
    Relation.ReflTransGen.head hstep (Relation.ReflTransGen.single hstep')⟩

end UniBPF
