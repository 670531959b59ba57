import UniBPF.Theory.NativeAlu

/-!
# The Other Instructions of Compiled Code

Changes of byte order, comparisons, accesses to memory and loads of
constants, each as a block that does what the interpreter does.

A comparison leaves its result in the flags, and a conditional jump reads
them by a condition of the processor. `holds_condition` is that the condition
the translator chooses is the one of the program, for both widths.

## Theorems

* `computes_le`, `computes_be`: The changes of byte order.
* `holds_condition`, `computes_compare`: Comparisons.
* `computes_load`, `computes_store`, `computes_storeImm`: Accesses to memory.
* `computes_constant`: Loads of 64-bit constants.
-/

namespace UniBPF

open LittleEndian X86 Relocations

/-! ## Byte order -/

/-- A rotation by half of 16 bits swaps the two bytes. -/
theorem toNat_rol16 (x : BitVec 16) : (x.rotateLeft 8).toNat = swapBytes 2 x.toNat := by
  have hx := x.isLt
  have hlow : x.toNat / 256 < 2 ^ 8 := by omega
  have hrot : (x.rotateLeft 8).toNat = x.toNat * 256 % 65536 ||| x.toNat / 256 := by
    rw [BitVec.rotateLeft_def]
    simp only [BitVec.toNat_or, BitVec.toNat_shiftLeft, BitVec.toNat_ushiftRight,
      Nat.shiftLeft_eq, Nat.shiftRight_eq_div_pow]
  have hshift : x.toNat * 256 % 65536 = 2 ^ 8 * (x.toNat % 256) := by omega
  rw [hrot, hshift, ← Nat.two_pow_add_eq_or_of_lt hlow]
  simp only [swapBytes]
  omega

theorem low16_of_rol (x : Word) (r : BitVec 16) :
    ((x >>> 16 <<< 16 ||| r.setWidth 64).setWidth 32 &&& (BitVec.ofInt 64 0xffff).setWidth 32) =
      r.setWidth 32 := by
  have hmask : (BitVec.ofInt 64 0xffff).setWidth 32 = (BitVec.allOnes 16).setWidth 32 := rfl
  rw [hmask]
  apply BitVec.eq_of_getLsbD_eq
  intro i hi
  simp only [BitVec.getLsbD_and, BitVec.getLsbD_setWidth, BitVec.getLsbD_or,
    BitVec.getLsbD_shiftLeft, BitVec.getLsbD_allOnes]
  by_cases h16 : i < 16
  · simp only [h16, hi, decide_true, Bool.true_and, Bool.not_true, Bool.and_false, Bool.false_and,
      Bool.false_or, Bool.and_true, show i < 64 by omega]
  · simp only [h16, decide_false, Bool.and_false, BitVec.getLsbD_of_ge r i (by omega)]

/-- The three widths a change of byte order may have. -/
def OrderWidth (imm : Int) : Prop := imm = 16 ∨ imm = 32 ∨ imm = 64

theorem sets_and (a : Abs) (dst : Reg) (imm : Int) (v : Word)
    (h : (((a.cpu.regs dst).setWidth 32 &&& (BitVec.ofInt 64 imm).setWidth 32).setWidth 64) = v) :
    Sets true a ⟨a.cpu.bin .and false (BitVec.ofInt 64 imm) dst, a.stack⟩ dst v := by
  have hregs : (a.cpu.bin .and false (BitVec.ofInt 64 imm) dst).regs =
      Function.update a.cpu.regs dst v := by
    rw [← h]
    rfl
  refine ⟨?_, fun r hr _ => ?_, rfl, rfl⟩
  · simp only [Low, if_true, hregs, Function.update_self]
  · simp only [hregs, Function.update_of_ne hr]

theorem sets_set (a : Abs) (dst : Reg) (v : Word) :
    Sets true a ⟨a.cpu.set dst v, a.stack⟩ dst v := by
  refine ⟨?_, fun r hr _ => Function.update_of_ne hr _ _, rfl, rfl⟩
  simp only [Low, if_true, Cpu.set, Function.update_self]

theorem byteOrder_little (imm : Int) (x : Word) (h : OrderWidth imm) :
    byteOrder false imm x = BitVec.ofNat 64 (x.toNat % 2 ^ imm.toNat) := by
  rw [byteOrder, if_pos (show imm = 16 ∨ imm = 32 ∨ imm = 64 from h)]
  rfl

theorem byteOrder_big (imm : Int) (x : Word) (h : OrderWidth imm) :
    byteOrder true imm x =
      BitVec.ofNat 64 (swapBytes (imm.toNat / 8) (x.toNat % 2 ^ imm.toNat)) := by
  rw [byteOrder, if_pos (show imm = 16 ∨ imm = 32 ∨ imm = 64 from h)]
  rfl

theorem computes_le (dst : Reg) (imm : Int) (a : Abs) (hdst : dst ≠ rsp) (h : OrderWidth imm) :
    ∃ a', Computes (leCode dst imm) a a' ∧
      Sets true a a' dst (byteOrder false imm (a.cpu.regs dst)) := by
  rw [byteOrder_little imm _ h]
  rcases h with rfl | rfl | rfl
  · refine ⟨_, computes_binImm .and false 0xffff dst a hdst (by omega), sets_and a dst 0xffff _ ?_⟩
    apply BitVec.eq_of_toNat_eq
    have hmask : ((BitVec.ofInt 64 0xffff).setWidth 32).toNat = 2 ^ 16 - 1 := rfl
    rw [BitVec.toNat_setWidth, BitVec.toNat_and, hmask, Nat.and_two_pow_sub_one_eq_mod,
      BitVec.toNat_setWidth, BitVec.toNat_ofNat]
    have hwidth : (16 : Int).toNat = 16 := rfl
    rw [hwidth]
    omega
  · refine ⟨_, computes_binImm .and false (-1) dst a hdst (by omega), sets_and a dst (-1) _ ?_⟩
    have hones : (BitVec.ofInt 64 (-1)).setWidth 32 = BitVec.allOnes 32 := rfl
    rw [hones, BitVec.and_allOnes]
    apply BitVec.eq_of_toNat_eq
    have hwidth : (32 : Int).toNat = 32 := rfl
    rw [BitVec.toNat_setWidth, BitVec.toNat_setWidth, BitVec.toNat_ofNat, hwidth]
  · refine ⟨a, Computes.nil a, ⟨?_, fun _ _ _ => rfl, rfl, rfl⟩⟩
    have hwidth : (64 : Int).toNat = 64 := rfl
    rw [hwidth, Nat.mod_eq_of_lt (a.cpu.regs dst).isLt, BitVec.ofNat_toNat, BitVec.setWidth_eq]
    exact Low.refl true _

theorem computes_be (dst : Reg) (imm : Int) (a : Abs) (hdst : dst ≠ rsp) (h : OrderWidth imm) :
    ∃ a', Computes (beCode dst imm) a a' ∧
      Sets true a a' dst (byteOrder true imm (a.cpu.regs dst)) := by
  have hbswap : ∀ wide : Bool, Computes [.bswap wide dst] a ⟨a.cpu.set dst (BitVec.ofNat 64
      (swapBytes (if wide then 8 else 4)
        ((a.cpu.regs dst).toNat % 256 ^ (if wide then 8 else 4)))), a.stack⟩ :=
    fun wide => Computes.one (.bswap wide dst) (fun _ => rfl) hdst rfl
  rw [byteOrder_big imm _ h]
  rcases h with rfl | rfl | rfl
  · generalize hv : a.cpu.regs dst >>> 16 <<< 16 |||
      (((a.cpu.regs dst).setWidth 16).rotateLeft 8).setWidth 64 = v
    have hrol : Computes [.rol16 8 dst] a ⟨{ a.cpu.set dst v with flags := none }, a.stack⟩ := by
      refine Computes.one (.rol16 8 dst) (fun _ => rfl) hdst ?_
      rw [← hv]
      rfl
    have hand := computes_binImm .and false 0xffff dst
      ⟨{ a.cpu.set dst v with flags := none }, a.stack⟩ hdst (by omega)
    have hset := sets_and ⟨{ a.cpu.set dst v with flags := none }, a.stack⟩ dst 0xffff
      (BitVec.ofNat 64 (swapBytes 2 ((a.cpu.regs dst).toNat % 2 ^ 16))) (by
        have hreg : ({ a.cpu.set dst v with flags := none } : Cpu).regs dst = v := by
          simp only [Cpu.set, Function.update_self]
        rw [hreg, ← hv, low16_of_rol]
        apply BitVec.eq_of_toNat_eq
        have hlt := (((a.cpu.regs dst).setWidth 16).rotateLeft 8).isLt
        rw [toNat_rol16, BitVec.toNat_setWidth] at hlt
        rw [BitVec.toNat_setWidth, BitVec.toNat_setWidth, BitVec.toNat_ofNat, toNat_rol16,
          BitVec.toNat_setWidth]
        omega)
    refine ⟨_, hrol.append hand, ⟨hset.value, fun r hr hrcx => ?_, hset.mem, rfl⟩⟩
    exact (hset.other r hr hrcx).trans (Function.update_of_ne hr _ _)
  · exact ⟨_, hbswap false, sets_set a dst _⟩
  · exact ⟨_, hbswap true, sets_set a dst _⟩

/-! ## Comparisons -/

/-- The flags after a comparison. -/
def compareFlags {w : Nat} (cond : JmpCond) (x y : BitVec w) : Flags :=
  match cond with
  | .set => logicFlags (x &&& y)
  | _ => subFlags x y

theorem sign_overflow {w : Nat} (x y : BitVec w) :
    ((subFlags x y).sign != (subFlags x y).overflow) = x.slt y := by
  simp only [subFlags]
  by_cases hover : BitVec.ssubOverflow x y = true
  · rw [hover]
    rw [BitVec.ssubOverflow_eq, Bool.or_eq_true, Bool.and_eq_true, Bool.and_eq_true,
      Bool.and_eq_true, Bool.and_eq_true, Bool.not_eq_true', Bool.not_eq_true',
      Bool.not_eq_true'] at hover
    rcases hover with ⟨⟨hx, hy⟩, hsub⟩ | ⟨⟨hx, hy⟩, hsub⟩
    · rw [BitVec.msb_eq_toInt] at hx hy
      rw [hsub, BitVec.slt_eq_decide]
      have hx := of_decide_eq_false hx
      have hy := of_decide_eq_true hy
      exact (decide_eq_false (by omega)).symm
    · rw [BitVec.msb_eq_toInt] at hx hy
      rw [hsub, BitVec.slt_eq_decide]
      have hx := of_decide_eq_true hx
      have hy := of_decide_eq_false hy
      exact (decide_eq_true (by omega)).symm
  · have hsub := BitVec.toInt_sub_of_not_ssubOverflow hover
    rw [Bool.not_eq_true] at hover
    rw [hover, Bool.bne_false, BitVec.msb_eq_toInt, hsub, BitVec.slt_eq_decide]
    congr 1
    rw [eq_iff_iff]
    omega

theorem zero_flag {w : Nat} (x y : BitVec w) : (subFlags x y).zero = decide (x = y) := by
  have hiff : x - y = 0#w ↔ x = y := by
    constructor
    · intro h
      rw [← BitVec.sub_add_cancel x y, h, BitVec.zero_add]
    · intro h
      rw [h, BitVec.sub_self]
  simp only [subFlags]
  rw [Bool.eq_iff_iff, beq_iff_eq, decide_eq_true_eq]
  exact hiff

theorem sign_eq_overflow {w : Nat} (x y : BitVec w) :
    ((subFlags x y).sign == (subFlags x y).overflow) = !x.slt y := by
  rw [← sign_overflow, bne, Bool.not_not]

/-- The condition the translator chooses is the one of the program. -/
theorem holds_condition {w : Nat} (cond : JmpCond) (x y : BitVec w) :
    (condOfJmp cond).holds (compareFlags cond x y) = condHolds cond x y := by
  have hnat : x = y ↔ x.toNat = y.toNat := BitVec.toNat_inj.symm
  have hint : x = y ↔ x.toInt = y.toInt := BitVec.toInt_inj.symm
  have hcarry : (subFlags x y).carry = decide (x.toNat < y.toNat) := rfl
  cases cond with
  | eq =>
      simp only [condOfJmp, compareFlags, Cond.holds, condHolds, zero_flag]
      rfl
  | gt =>
      simp only [condOfJmp, compareFlags, Cond.holds, condHolds, zero_flag, hcarry]
      rw [Bool.eq_iff_iff]
      simp only [BitVec.lt_def, hnat, Bool.and_eq_true, Bool.not_eq_true',
        decide_eq_false_iff_not, decide_eq_true_eq]
      omega
  | ge =>
      simp only [condOfJmp, compareFlags, Cond.holds, condHolds, hcarry]
      rw [Bool.eq_iff_iff]
      simp only [BitVec.le_def, Bool.not_eq_true', decide_eq_false_iff_not, decide_eq_true_eq]
      omega
  | set =>
      simp only [condOfJmp, compareFlags, Cond.holds, condHolds, logicFlags]
      rfl
  | ne =>
      simp only [condOfJmp, compareFlags, Cond.holds, condHolds, zero_flag]
      rfl
  | sgt =>
      simp only [condOfJmp, compareFlags, Cond.holds, condHolds, zero_flag, sign_eq_overflow]
      rw [Bool.eq_iff_iff]
      simp only [hint, BitVec.slt_eq_decide, Bool.and_eq_true, Bool.not_eq_true',
        decide_eq_false_iff_not, decide_eq_true_eq]
      omega
  | sge =>
      simp only [condOfJmp, compareFlags, Cond.holds, condHolds, sign_eq_overflow]
      rw [Bool.eq_iff_iff]
      simp only [BitVec.slt_eq_decide, BitVec.sle_eq_decide, Bool.not_eq_true',
        decide_eq_false_iff_not, decide_eq_true_eq]
      omega
  | lt =>
      simp only [condOfJmp, compareFlags, Cond.holds, condHolds, hcarry, BitVec.lt_def]
  | le =>
      simp only [condOfJmp, compareFlags, Cond.holds, condHolds, zero_flag, hcarry]
      rw [Bool.eq_iff_iff]
      simp only [BitVec.le_def, hnat, Bool.or_eq_true, decide_eq_true_eq]
      omega
  | slt => simp only [condOfJmp, compareFlags, Cond.holds, condHolds, sign_overflow]
  | sle =>
      simp only [condOfJmp, compareFlags, Cond.holds, condHolds, zero_flag, sign_overflow]
      rw [Bool.eq_iff_iff]
      simp only [hint, BitVec.slt_eq_decide, BitVec.sle_eq_decide, Bool.or_eq_true,
        decide_eq_true_eq]
      omega

/-- The flags after the comparison of an instruction. -/
def jumpFlags (is64 : Bool) (cond : JmpCond) (x y : Word) : Flags :=
  if is64 then compareFlags cond x y
  else compareFlags cond (x.setWidth 32) (y.setWidth 32)

theorem holds_jump (is64 : Bool) (cond : JmpCond) (x y : Word) :
    (condOfJmp cond).holds (jumpFlags is64 cond x y) = jumpTaken is64 cond x y := by
  cases is64 with
  | true => exact holds_condition cond x y
  | false => exact holds_condition cond (x.setWidth 32) (y.setWidth 32)

/-- A comparison changes the flags only. -/
theorem bin_compare (c : Cpu) (bop : BinOp) (is64 : Bool) (cond : JmpCond) (y : Word) (dst : Reg)
    (hresult : ∀ {w : Nat} (x z : BitVec w), bop.result x z = none)
    (hflags : ∀ {w : Nat} (x z : BitVec w), bop.flags x z c.flags = some (compareFlags cond x z)) :
    c.bin bop is64 y dst = { c with flags := some (jumpFlags is64 cond (c.regs dst) y) } := by
  cases is64 with
  | true => simp only [Cpu.bin, if_true, hresult, hflags, jumpFlags]
  | false => simp only [Cpu.bin, Bool.false_eq_true, if_false, hresult, hflags, jumpFlags]

theorem computes_compare (is64 : Bool) (cond : JmpCond) (operand : Operand) (src dst : Reg)
    (imm : Int) (a : Abs) (hsrc : src ≠ rsp) (hdst : dst ≠ rsp)
    (himm : -2 ^ 31 ≤ imm ∧ imm < 2 ^ 31) :
    Computes [compareCode is64 cond operand src dst imm] a
      ⟨{ a.cpu with flags := some (jumpFlags is64 cond (a.cpu.regs dst)
        (operandValue operand a.cpu src imm)) }, a.stack⟩ := by
  have hcmp : cond ≠ .set → ∀ y, a.cpu.bin .cmp is64 y dst =
      { a.cpu with flags := some (jumpFlags is64 cond (a.cpu.regs dst) y) } := by
    intro hset y
    refine bin_compare a.cpu .cmp is64 cond y dst (fun _ _ => rfl) (fun x z => ?_)
    cases cond with
    | set => exact absurd rfl hset
    | _ => rfl
  have htest : ∀ y, a.cpu.bin .test is64 y dst =
      { a.cpu with flags := some (jumpFlags is64 .set (a.cpu.regs dst) y) } :=
    fun y => bin_compare a.cpu .test is64 .set y dst (fun _ _ => rfl) (fun _ _ => rfl)
  cases operand with
  | reg =>
      by_cases hset : cond = .set
      · subst hset
        have h := computes_bin .test is64 src dst a ⟨hsrc, hdst⟩
        rw [htest] at h
        exact h
      · have hcode : compareCode is64 cond .reg src dst imm = .bin .cmp is64 src dst := by
          cases cond with
          | set => exact absurd rfl hset
          | _ => rfl
        have h := computes_bin .cmp is64 src dst a ⟨hsrc, hdst⟩
        rw [hcmp hset] at h
        rw [hcode]
        exact h
  | imm =>
      by_cases hset : cond = .set
      · subst hset
        have h : Computes [.testImm is64 imm dst] a
            ⟨a.cpu.bin .test is64 (BitVec.ofInt 64 (wrap32 imm)) dst, a.stack⟩ :=
          Computes.one (.bin .test is64 (.imm (wrap32 imm)) dst) (fun _ => rfl) hdst rfl
        rw [htest, wrap_imm imm himm] at h
        exact h
      · have hcode : compareCode is64 cond .imm src dst imm = .binImm .cmp is64 imm dst := by
          cases cond with
          | set => exact absurd rfl hset
          | _ => rfl
        have h := computes_binImm .cmp is64 imm dst a hdst himm
        have hbin : ImmOp.cmp.toBin = .cmp := rfl
        rw [hbin, hcmp hset] at h
        rw [hcode]
        exact h

/-! ## Accesses to memory -/

/-- The sizes an access may have. -/
def AccessSize (size : Nat) : Prop := size = 1 ∨ size = 2 ∨ size = 4 ∨ size = 8

theorem accessBytes_ofBytes (size : Nat) (h : AccessSize size) :
    accessBytes (.ofBytes size) = size := by
  rcases h with rfl | rfl | rfl | rfl
  all_goals rfl

theorem accessBytes_le (size : OperandSize) : accessBytes size ≤ 8 := by
  cases size
  all_goals decide

theorem plain_atReg (base : Reg) (offset : Int) (h : base ≠ rsp) : (atReg base offset).Plain :=
  ⟨base, rfl, h, rfl⟩

theorem atReg_addr (base : Reg) (offset : Int) (next : Word) (c : Cpu)
    (h : -2 ^ 15 ≤ offset ∧ offset < 2 ^ 15) :
    (atReg base offset).addr next c = c.regs base + BitVec.ofInt 64 offset := by
  have hwrap : wrap32 offset = offset := wrap32_eq offset (by omega)
  simp only [atReg, MemRef.addr, hwrap]
  rw [show (0 : Word) = 0#64 from rfl, BitVec.add_zero]

theorem computes_load (size : Nat) (src dst : Reg) (offset : Int) (a : Abs) (v : Nat)
    (hbase : src.val % 8 ≠ 4) (hsrc : src ≠ rsp) (hdst : dst ≠ rsp) (hsize : AccessSize size)
    (hoffset : -2 ^ 15 ≤ offset ∧ offset < 2 ^ 15)
    (h : a.cpu.mem.load (a.cpu.regs src + BitVec.ofInt 64 offset) size = some v) :
    ∃ a', Computes [.load (.ofBytes size) src dst offset hbase] a a' ∧
      Sets true a a' dst (BitVec.ofNat 64 v) := by
  have hrun : (Op.load (accessBytes (.ofBytes size)) (atReg src offset) dst).run a =
      some ⟨a.cpu.set dst (BitVec.ofNat 64 v), a.stack⟩ := by
    rw [accessBytes_ofBytes size hsize]
    simp only [Op.run, Op.exec, atReg_addr src offset 0 a.cpu hoffset, h, Option.map_some]
  exact ⟨_, Computes.one _ (fun _ => rfl) ⟨plain_atReg src offset hsrc, hdst⟩ hrun,
    sets_set a dst _⟩

theorem computes_store (size : Nat) (src dst : Reg) (offset : Int) (a : Abs) (mem : Memory)
    (hbase : dst.val % 8 ≠ 4) (hsrc : src ≠ rsp) (hdst : dst ≠ rsp) (hsize : AccessSize size)
    (hoffset : -2 ^ 15 ≤ offset ∧ offset < 2 ^ 15)
    (h : a.cpu.mem.store (a.cpu.regs dst + BitVec.ofInt 64 offset) size (a.cpu.regs src).toNat =
      some mem) :
    Computes [.store (.ofBytes size) src dst offset hbase] a
      ⟨{ a.cpu with mem := mem }, a.stack⟩ := by
  have hrun : (Op.store (accessBytes (.ofBytes size)) src (atReg dst offset)).run a =
      some ⟨{ a.cpu with mem := mem }, a.stack⟩ := by
    rw [accessBytes_ofBytes size hsize]
    simp only [Op.run, Op.exec, atReg_addr dst offset 0 a.cpu hoffset, h, Option.map_some]
  exact Computes.one _ (fun _ => rfl) ⟨plain_atReg dst offset hdst, hsrc, accessBytes_le _⟩ hrun

/-- A store looks at no more of a number than it writes. -/
theorem store_mod (m : Memory) (a : Word) (n v : Nat) :
    m.store a n (v % 256 ^ n) = m.store a n v := by
  induction n generalizing m a v with
  | zero => rfl
  | succ n ih =>
      have hbyte : UInt8.ofNat (v % 256 ^ (n + 1)) = UInt8.ofNat v := by
        apply UInt8.toNat_inj.mp
        rw [UInt8.toNat_ofNat', UInt8.toNat_ofNat', pow_succ', Nat.mod_mod_of_dvd _ ⟨256 ^ n, rfl⟩]
      have hrest : v % 256 ^ (n + 1) / 256 = v / 256 % 256 ^ n := by
        rw [pow_succ', Nat.mod_mul_right_div_self]
      simp only [Memory.store]
      cases m a with
      | none => rfl
      | some b =>
          simp only [hbyte, hrest]
          exact ih _ _ _

theorem storedImm_mod (size : Nat) (imm : Int) (hsize : AccessSize size)
    (himm : -2 ^ 31 ≤ imm ∧ imm < 2 ^ 31) :
    (BitVec.ofInt 64 (storedImm (.ofBytes size) imm)).toNat % 256 ^ size =
      (BitVec.ofInt 64 imm).toNat % 256 ^ size := by
  rw [BitVec.toNat_ofInt, BitVec.toNat_ofInt]
  rcases hsize with rfl | rfl | rfl | rfl
  all_goals
    simp only [OperandSize.ofBytes, storedImm, immBytes, toSigned, u32]
    split
    all_goals omega

theorem computes_storeImm (size : Nat) (dst : Reg) (offset imm : Int) (a : Abs) (mem : Memory)
    (hbase : dst.val % 8 ≠ 4) (hdst : dst ≠ rsp) (hsize : AccessSize size)
    (hoffset : -2 ^ 15 ≤ offset ∧ offset < 2 ^ 15) (himm : -2 ^ 31 ≤ imm ∧ imm < 2 ^ 31)
    (h : a.cpu.mem.store (a.cpu.regs dst + BitVec.ofInt 64 offset) size
      (BitVec.ofInt 64 imm).toNat = some mem) :
    Computes [.storeImm (.ofBytes size) dst offset imm hbase] a
      ⟨{ a.cpu with mem := mem }, a.stack⟩ := by
  rw [← store_mod, ← storedImm_mod size imm hsize himm, store_mod] at h
  have hrun : (Op.storeImm (accessBytes (.ofBytes size)) (storedImm (.ofBytes size) imm)
      (atReg dst offset)).run a = some ⟨{ a.cpu with mem := mem }, a.stack⟩ := by
    rw [accessBytes_ofBytes size hsize]
    simp only [Op.run, Op.exec, atReg_addr dst offset 0 a.cpu hoffset, h, Option.map_some]
  exact Computes.one _ (fun _ => rfl) ⟨plain_atReg dst offset hdst, accessBytes_le _⟩ hrun

/-! ## Constants -/

/-- A constant is loaded whole, whichever of the two instructions is chosen. -/
theorem computes_constant (dst : Reg) (n : Nat) (a : Abs) (hdst : dst ≠ rsp) (hn : n < 2 ^ 64) :
    ∃ a', Computes [.loadImm dst (toSigned 64 n)] a a' ∧
      Sets true a a' dst (BitVec.ofNat 64 n) := by
  by_cases hshort : -2 ^ 31 ≤ toSigned 64 n ∧ toSigned 64 n < 2 ^ 31
  · have hvalue : BitVec.ofInt 64 (toSigned 64 n) = BitVec.ofNat 64 n := by
      apply BitVec.eq_of_toNat_eq
      rw [BitVec.toNat_ofInt, BitVec.toNat_ofNat, toSigned]
      split
      all_goals omega
    have hload := computes_loadImm dst (toSigned 64 n) a hdst hshort
    rw [hvalue] at hload
    exact ⟨_, hload, sets_set a dst _⟩
  · have hlong : ¬ (-2 ^ 31 ≤ toSigned 64 n ∧ toSigned 64 n ≤ 2 ^ 31 - 1) :=
      fun h => hshort ⟨h.1, by omega⟩
    have hvalue : (toSigned 64 n % 2 ^ 64).toNat % 256 ^ 8 = n := by
      rw [toSigned]
      split
      all_goals omega
    have hop : IsOp (.loadImm dst (toSigned 64 n)) (.movabs n dst) := by
      intro v
      rw [Encoded.loadImm, if_neg hlong]
      conv_rhs => rw [← hvalue]
      rfl
    exact ⟨_, Computes.one (.movabs n dst) hop hdst rfl, sets_set a dst _⟩

end UniBPF
