import UniBPF.Theory.Blocks
import Mathlib.Data.List.Forall2

/-!
# Arithmetic of Compiled Code

The blocks that compute. `Computes` is a block from one abstract machine to
another, put together from its instructions, and `Sets` is what such a block
is for: one register gets a value, `rcx` may be lost, and nothing else
changes.

The 32-bit forms leave the upper half of the result to a truncation that
follows every one of them, so before that only the lower half counts, which
`Low` says.

A multiplication or division needs `rax` and `rdx`, whatever the operands
are. It saves them, computes, moves the result and takes them back, and for a
divisor of zero it divides by one and corrects the result from the flags it
has put on the stack.

## Main definitions

* `Computes`: A block of instructions.
* `Low`: Two words agree as far as the width of an operation goes.
* `Sets`: A register gets a value and nothing else is lost.

## Theorems

* `computes_mulDiv`: Multiplication and division.
* `computes_alu`: Every arithmetic instruction, with its truncation.
-/

namespace UniBPF

open LittleEndian X86 Relocations

/-- A block from one abstract machine to another. -/
def Computes (es : List Encoded) (a a' : Abs) : Prop :=
  ∃ os, List.Forall₂ IsOp es os ∧ (∀ o ∈ os, o.Tame) ∧ runBlock os a = some a'

theorem Computes.nil (a : Abs) : Computes [] a a :=
  ⟨[], List.Forall₂.nil, fun _ h => absurd h List.not_mem_nil, rfl⟩

theorem Computes.cons {e : Encoded} {es : List Encoded} {a mid a' : Abs} (o : Op)
    (hop : IsOp e o) (htame : o.Tame) (hrun : o.run a = some mid) (h : Computes es mid a') :
    Computes (e :: es) a a' := by
  rcases h with ⟨os, hops, htames, hrest⟩
  refine ⟨o :: os, List.Forall₂.cons hop hops, fun p hp => ?_, ?_⟩
  · rcases List.mem_cons.mp hp with rfl | hp
    · exact htame
    · exact htames p hp
  · rw [runBlock, hrun]
    exact hrest

theorem Computes.one {e : Encoded} {a a' : Abs} (o : Op) (hop : IsOp e o) (htame : o.Tame)
    (hrun : o.run a = some a') : Computes [e] a a' :=
  Computes.cons o hop htame hrun (Computes.nil a')

theorem Computes.append {es es' : List Encoded} {a mid a' : Abs} (h : Computes es a mid)
    (h' : Computes es' mid a') : Computes (es ++ es') a a' := by
  rcases h with ⟨os, hops, htames, hrun⟩
  induction hops generalizing a with
  | nil =>
      rw [← Option.some.inj hrun] at h'
      exact h'
  | cons hop hops ih =>
      rename_i e o es os
      rcases Option.bind_eq_some_iff.mp hrun with ⟨next, hnext, hrest⟩
      exact Computes.cons o hop (htames o List.mem_cons_self) hnext
        (ih (fun p hp => htames p (List.mem_cons_of_mem o hp)) hrest)

/-- A block in place. -/
theorem Computes.runs {es : List Encoded} {a a' : Abs} (h : Computes es a a') (t : Site) {off : Nat}
    (hlist : Listed t.marks t.code off es)
    (hroom : a.stack.length + es.length ≤ t.ground.room) :
    t.Runs off a (off + codeLength es) a' := by
  rcases h with ⟨os, hops, htames, hrun⟩
  exact Site.Runs.ops t hops hlist htames hrun (hops.length_eq ▸ hroom)

/-! ## Values -/

/-- Two words agree as far as the width goes. -/
def Low (is64 : Bool) (v w : Word) : Prop :=
  if is64 then v = w else v.setWidth 32 = w.setWidth 32

theorem Low.refl (is64 : Bool) (v : Word) : Low is64 v v := by
  cases is64 with
  | true => exact rfl
  | false => exact rfl

/-- A register gets a value. -/
structure Sets (is64 : Bool) (a a' : Abs) (dst : Reg) (v : Word) : Prop where
  value : Low is64 (a'.cpu.regs dst) v
  other : ∀ r, r ≠ dst → r ≠ rcx → a'.cpu.regs r = a.cpu.regs r
  mem : a'.cpu.mem = a.cpu.mem
  stack : a'.stack = a.stack

theorem setWidth_grow (v : BitVec 32) : (v.setWidth 64).setWidth 32 = v := by
  rw [BitVec.setWidth_setWidth_of_le _ (by omega), BitVec.setWidth_eq]

theorem low_alu (is64 : Bool) (op : AluOp) (x y v : Word)
    (h64 : is64 = true → v = aluOp op x y)
    (h32 : is64 = false → v.setWidth 32 = aluOp op (x.setWidth 32) (y.setWidth 32)) :
    Low is64 v (alu is64 op x y) := by
  cases is64 with
  | true => exact h64 rfl
  | false =>
      simp only [Low, alu, Bool.false_eq_true, if_false, setWidth_grow]
      exact h32 rfl

/-- An operation of the processor that is the one of the program. -/
theorem sets_bin (is64 : Bool) (bop : BinOp) (op : AluOp) (a : Abs) (b : Word) (dst : Reg)
    (hop : ∀ {w : Nat} (x y : BitVec w), bop.result x y = some (aluOp op x y)) :
    Sets is64 a ⟨a.cpu.bin bop is64 b dst, a.stack⟩ dst (alu is64 op (a.cpu.regs dst) b) := by
  cases is64 with
  | true =>
      refine ⟨?_, fun r hr _ => ?_, rfl, rfl⟩
      · simp only [Cpu.bin, if_true, hop, Function.update_self]
        exact Low.refl true _
      · simp only [Cpu.bin, if_true, hop, Function.update_of_ne hr]
  | false =>
      refine ⟨?_, fun r hr _ => ?_, rfl, rfl⟩
      · simp only [Cpu.bin, Bool.false_eq_true, if_false, hop, Function.update_self]
        exact Low.refl false _
      · simp only [Cpu.bin, Bool.false_eq_true, if_false, hop, Function.update_of_ne hr]

theorem wrap_imm (imm : Int) (h : -2 ^ 31 ≤ imm ∧ imm < 2 ^ 31) :
    BitVec.ofInt 64 (wrap32 imm) = BitVec.ofInt 64 imm := by
  rw [wrap32_eq imm h]

theorem isOp_loadImm (dst : Reg) (imm : Int) (h : -2 ^ 31 ≤ imm ∧ imm < 2 ^ 31) :
    IsOp (.loadImm dst imm) (.bin .mov true (.imm imm) dst) := by
  intro v
  have hrange : -2 ^ 31 ≤ imm ∧ imm ≤ 2 ^ 31 - 1 := ⟨h.1, by omega⟩
  rw [Encoded.loadImm, if_pos hrange]
  have hinstr : (Encoded.movImm true imm dst).instr v =
    .op (.bin .mov true (.imm (wrap32 imm)) dst) := rfl
  rw [hinstr, wrap32_eq imm h]

theorem cpu_mov (c : Cpu) (b : Word) (dst : Reg) : c.bin .mov true b dst = c.set dst b := rfl

/-! ## Multiplication and division -/

/-- The registers that are saved before a multiplication or division. -/
def savedWords (dst : Reg) (c : Cpu) : List Word :=
  (if dst ≠ rdx then [c.regs rdx] else []) ++ (if dst ≠ rax then [c.regs rax] else [])

/-- The processor with the operands in place. -/
def operandsIn (c : Cpu) (x y : Word) : Cpu := (c.set rcx y).set rax x

theorem computes_push (r : Reg) (a : Abs) (h : r ≠ rsp) :
    Computes [.push r] a ⟨a.cpu, a.cpu.regs r :: a.stack⟩ :=
  Computes.one (.push r) (fun _ => rfl) h rfl

theorem computes_mov (src dst : Reg) (a : Abs) (h : src ≠ rsp ∧ dst ≠ rsp) :
    Computes [.bin .mov true src dst] a ⟨a.cpu.set dst (a.cpu.regs src), a.stack⟩ :=
  Computes.one (.bin .mov true (.reg src) dst) (fun _ => rfl) h rfl

theorem computes_loadImm (dst : Reg) (imm : Int) (a : Abs) (h : dst ≠ rsp)
    (himm : -2 ^ 31 ≤ imm ∧ imm < 2 ^ 31) :
    Computes [.loadImm dst imm] a ⟨a.cpu.set dst (BitVec.ofInt 64 imm), a.stack⟩ :=
  Computes.one (.bin .mov true (.imm imm) dst) (isOp_loadImm dst imm himm) h rfl

theorem computes_pop (r : Reg) (c : Cpu) (v : Word) (stack : List Word) (h : r ≠ rsp) :
    Computes [.pop r] ⟨c, v :: stack⟩ ⟨c.set r v, stack⟩ :=
  Computes.one (.pop r) (fun _ => rfl) h rfl

/-- The second operand. -/
def operandValue (operand : Operand) (c : Cpu) (src : Reg) (imm : Int) : Word :=
  match operand with
  | .imm => BitVec.ofInt 64 imm
  | .reg => c.regs src

theorem computes_divisor (operand : Operand) (src : Reg) (imm : Int) (a : Abs) (hsrc : src ≠ rsp)
    (himm : -2 ^ 31 ≤ imm ∧ imm < 2 ^ 31) :
    Computes [divisorCode operand src imm] a
      ⟨a.cpu.set rcx (operandValue operand a.cpu src imm), a.stack⟩ := by
  cases operand with
  | imm => exact computes_loadImm rcx imm a (by decide) himm
  | reg => exact computes_mov src rcx a ⟨hsrc, by decide⟩

/-- Saving the two registers and putting the operands in place. -/
theorem computes_setup (operand : Operand) (src dst : Reg) (imm : Int) (a : Abs) (hsrc : src ≠ rsp)
    (hdst : dst ≠ rsp ∧ dst ≠ rcx) (himm : -2 ^ 31 ≤ imm ∧ imm < 2 ^ 31) :
    Computes (codeIf (dst ≠ rax) [.push rax] ++ codeIf (dst ≠ rdx) [.push rdx] ++
        [divisorCode operand src imm] ++ [.bin .mov true dst rax]) a
      ⟨operandsIn a.cpu (a.cpu.regs dst) (operandValue operand a.cpu src imm),
        savedWords dst a.cpu ++ a.stack⟩ := by
  have hsaved : Computes (codeIf (dst ≠ rax) [.push rax] ++ codeIf (dst ≠ rdx) [.push rdx]) a
      ⟨a.cpu, savedWords dst a.cpu ++ a.stack⟩ := by
    by_cases hrax : dst = rax
    · have hrdx : dst ≠ rdx := by
        rw [hrax]
        decide
      simp only [codeIf, hrax, ne_eq, not_true_eq_false, decide_false, Bool.false_eq_true, if_false,
        List.nil_append, savedWords, List.append_nil]
      exact computes_push rdx a (by decide)
    · by_cases hrdx : dst = rdx
      · simp only [codeIf, hrdx, savedWords]
        exact computes_push rax a (by decide)
      · simp only [codeIf, hrax, hrdx, ne_eq, not_false_eq_true, decide_true, if_true, savedWords]
        exact (computes_push rax a (by decide)).append (computes_push rdx _ (by decide))
  have hmoved := (hsaved.append (computes_divisor operand src imm _ hsrc himm)).append
    (computes_mov dst rax _ ⟨hdst.1, by decide⟩)
  have hreg : (a.cpu.set rcx (operandValue operand a.cpu src imm)).regs dst = a.cpu.regs dst :=
    Function.update_of_ne hdst.2 _ _
  simp only [hreg] at hmoved
  exact hmoved

theorem computes_mul (is64 : Bool) (a : Abs) :
    Computes [mulOrDiv is64 true] a ⟨a.cpu.mul is64 rcx, a.stack⟩ :=
  Computes.one (.mul is64 rcx) (fun _ => rfl) (show rcx ≠ rsp by decide) rfl

/-- The flags after a register is compared with zero. -/
def testFlags (is64 : Bool) (y : Word) : Flags :=
  if is64 then logicFlags (y &&& y) else logicFlags (y.setWidth 32 &&& y.setWidth 32)

theorem computes_test (is64 : Bool) (a : Abs) :
    Computes [.bin .test is64 rcx rcx] a
      ⟨{ a.cpu with flags := some (testFlags is64 (a.cpu.regs rcx)) }, a.stack⟩ := by
  refine Computes.one (.bin .test is64 (.reg rcx) rcx) (fun _ => rfl) ⟨by decide, by decide⟩ ?_
  cases is64 with
  | true => rfl
  | false => rfl

theorem xor_self_regs (c : Cpu) (r : Reg) :
    (c.bin .xor false (c.regs r) r).regs = Function.update c.regs r 0 := by
  have hbin : (c.bin .xor false (c.regs r) r).regs = Function.update c.regs r
    (((c.regs r).setWidth 32 ^^^ (c.regs r).setWidth 32).setWidth 64) := rfl
  rw [hbin, BitVec.xor_self]
  rfl

/-- Putting a one in place of a zero. -/
theorem computes_guard (is64 mod : Bool) (a : Abs) (f : Flags)
    (hf : f = testFlags is64 (a.cpu.regs rcx)) :
    ∃ c, Computes (guardCode is64 mod) a
        ⟨c, f.toWord :: ((if mod then [a.cpu.regs rax] else []) ++ a.stack)⟩ ∧
      c.regs rcx = (if f.zero then 1 else a.cpu.regs rcx) ∧ c.regs rdx = 0 ∧
      (∀ r, r ≠ rcx → r ≠ rdx → c.regs r = a.cpu.regs r) ∧ c.mem = a.cpu.mem := by
  -- The test of the divisor sets the flags that are kept on the stack.
  have htest := computes_test is64 a
  rw [← hf] at htest
  have hpush : Computes (codeIf mod [.push rax])
      ⟨{ a.cpu with flags := some f }, a.stack⟩
      ⟨{ a.cpu with flags := some f }, (if mod then [a.cpu.regs rax] else []) ++ a.stack⟩ := by
    cases mod with
    | true => exact computes_push rax _ (by decide)
    | false => exact Computes.nil _
  have hpushfq : Computes [.pushfq]
      ⟨{ a.cpu with flags := some f }, (if mod then [a.cpu.regs rax] else []) ++ a.stack⟩
      ⟨{ a.cpu with flags := some f },
        f.toWord :: ((if mod then [a.cpu.regs rax] else []) ++ a.stack)⟩ :=
    Computes.one .pushfq (fun _ => rfl) trivial rfl
  have hone := computes_loadImm rdx 1
    ⟨{ a.cpu with flags := some f },
      f.toWord :: ((if mod then [a.cpu.regs rax] else []) ++ a.stack)⟩ (by decide) (by omega)
  generalize f.toWord :: ((if mod then [a.cpu.regs rax] else []) ++ a.stack) = stack
    at hpushfq hone ⊢
  -- A divisor of zero becomes one, so that the division does not trap.
  have hcmove : Computes [.cmoveOne]
      ⟨({ a.cpu with flags := some f } : Cpu).set rdx (BitVec.ofInt 64 1), stack⟩
      ⟨if f.zero then (({ a.cpu with flags := some f } : Cpu).set rdx (BitVec.ofInt 64 1)).set rcx 1
        else ({ a.cpu with flags := some f } : Cpu).set rdx (BitVec.ofInt 64 1), stack⟩ := by
    refine Computes.one (.cmove rdx rcx) (fun _ => rfl) ⟨by decide, by decide⟩ ?_
    cases hz : f.zero with
    | true => simp only [Op.run, Op.exec, Cpu.set, Option.map_some, hz, if_true,
        Function.update_self]; rfl
    | false => simp only [Op.run, Op.exec, Cpu.set, Option.map_some, hz, Bool.false_eq_true,
        if_false]
  generalize hc : (if f.zero then
    (({ a.cpu with flags := some f } : Cpu).set rdx (BitVec.ofInt 64 1)).set rcx 1
    else ({ a.cpu with flags := some f } : Cpu).set rdx (BitVec.ofInt 64 1)) = c at hcmove
  -- The upper half of the dividend is cleared.
  have hxor : Computes [.bin .xor false rdx rdx] ⟨c, stack⟩
      ⟨c.bin .xor false (c.regs rdx) rdx, stack⟩ :=
    Computes.one (.bin .xor false (.reg rdx) rdx) (fun _ => rfl) ⟨by decide, by decide⟩ rfl
  have hall := (htest.append hpush).append (hpushfq.append (hone.append (hcmove.append hxor)))
  refine ⟨_, hall, ?_, ?_, ?_, ?_⟩
  · rw [xor_self_regs, Function.update_of_ne (by decide), ← hc]
    cases hz : f.zero with
    | true => rfl
    | false => rfl
  · rw [xor_self_regs, Function.update_self]
  · intro r hrcx hrdx
    rw [xor_self_regs, Function.update_of_ne hrdx, ← hc]
    cases hz : f.zero with
    | true => simp only [if_true, Cpu.set, Function.update_of_ne hrcx, Function.update_of_ne hrdx]
    | false => simp only [Bool.false_eq_true, if_false, Cpu.set, Function.update_of_ne hrdx]
  · rw [Cpu.bin_mem, ← hc]
    cases hz : f.zero with
    | true => rfl
    | false => rfl

theorem Flags_ofWord_toWord (f : Flags) : Flags.ofWord f.toWord = f := by
  rcases f with ⟨z, s, c, o⟩
  cases z
  all_goals cases s
  all_goals cases c
  all_goals cases o
  all_goals rfl

/-- A division that cannot fail. -/
theorem div_ok (is64 : Bool) (c : Cpu) (w : Nat) (hw : w = if is64 then 64 else 32)
    (hrdx : c.regs rdx = 0) (hne : (c.regs rcx).toNat % 2 ^ w ≠ 0) :
    ∃ c', c.div is64 rcx = some c' ∧
      c'.regs rax = BitVec.ofNat 64 ((c.regs rax).toNat % 2 ^ w / ((c.regs rcx).toNat % 2 ^ w)) ∧
      c'.regs rdx = BitVec.ofNat 64 ((c.regs rax).toNat % 2 ^ w % ((c.regs rcx).toNat % 2 ^ w)) ∧
      (∀ r, r ≠ rax → r ≠ rdx → c'.regs r = c.regs r) ∧ c'.mem = c.mem := by
  simp only [Cpu.div, ← hw, hrdx]
  have hzero : (0 : Word).toNat = 0 := rfl
  have hpos : 0 < 2 ^ w := Nat.two_pow_pos w
  have hlt : (c.regs rax).toNat % 2 ^ w / ((c.regs rcx).toNat % 2 ^ w) < 2 ^ w :=
    lt_of_le_of_lt (Nat.div_le_self _ _) (Nat.mod_lt _ hpos)
  rw [hzero, Nat.zero_mod, Nat.zero_mul, Nat.zero_add, if_neg (by
    rintro (h | h)
    · exact hne h
    · omega)]
  refine ⟨_, rfl, ?_, ?_, fun r hrax hrdx => ?_, rfl⟩
  · simp only [Cpu.set]
    rw [Function.update_of_ne (by decide), Function.update_self]
  · simp only [Cpu.set, Function.update_self]
  · simp only [Cpu.set, Function.update_of_ne hrdx, Function.update_of_ne hrax]

theorem computes_popfq (c : Cpu) (f : Flags) (stack : List Word) :
    Computes [.popfq] ⟨c, f.toWord :: stack⟩ ⟨{ c with flags := some f }, stack⟩ := by
  refine Computes.one .popfq (fun _ => rfl) trivial ?_
  simp only [Op.run, Abs.pop, Option.map_some, Flags_ofWord_toWord]

/-- Correcting a quotient. -/
theorem computes_correct_div (c : Cpu) (f : Flags) (stack : List Word) :
    ∃ c', Computes (correctCode true) ⟨c, f.toWord :: stack⟩ ⟨c', stack⟩ ∧
      c'.regs rax = (if f.zero then 0 else c.regs rax) ∧
      (∀ r, r ≠ rax → r ≠ rcx → c'.regs r = c.regs r) ∧ c'.mem = c.mem := by
  have hload := computes_loadImm rcx 0 ⟨{ c with flags := some f }, stack⟩ (by decide) (by omega)
  have hcmove : Computes [.cmoveQuotient]
      ⟨({ c with flags := some f } : Cpu).set rcx (BitVec.ofInt 64 0), stack⟩
      ⟨if f.zero then (({ c with flags := some f } : Cpu).set rcx (BitVec.ofInt 64 0)).set rax 0
        else ({ c with flags := some f } : Cpu).set rcx (BitVec.ofInt 64 0), stack⟩ := by
    refine Computes.one (.cmove rcx rax) (fun _ => rfl) ⟨by decide, by decide⟩ ?_
    cases hz : f.zero with
    | true => simp only [Op.run, Op.exec, Cpu.set, Option.map_some, hz, if_true,
        Function.update_self]; rfl
    | false => simp only [Op.run, Op.exec, Cpu.set, Option.map_some, hz, Bool.false_eq_true,
        if_false]
  have hall := (computes_popfq c f stack).append (hload.append hcmove)
  refine ⟨_, hall, ?_, fun r hrax hrcx => ?_, ?_⟩
  · cases hz : f.zero with
    | true => rfl
    | false => rfl
  · cases hz : f.zero with
    | true => simp only [if_true, Cpu.set, Function.update_of_ne hrax, Function.update_of_ne hrcx]
    | false => simp only [Bool.false_eq_true, if_false, Cpu.set, Function.update_of_ne hrcx]
  · cases hz : f.zero with
    | true => rfl
    | false => rfl

/-- Correcting a remainder. -/
theorem computes_correct_mod (c : Cpu) (f : Flags) (x : Word) (stack : List Word) :
    ∃ c', Computes (correctCode false) ⟨c, f.toWord :: x :: stack⟩ ⟨c', stack⟩ ∧
      c'.regs rdx = (if f.zero then x else c.regs rdx) ∧
      (∀ r, r ≠ rdx → r ≠ rcx → c'.regs r = c.regs r) ∧ c'.mem = c.mem := by
  have hpop := computes_pop rcx { c with flags := some f } x stack (by decide)
  have hcmove : Computes [.cmoveRemainder]
      ⟨({ c with flags := some f } : Cpu).set rcx x, stack⟩
      ⟨if f.zero then (({ c with flags := some f } : Cpu).set rcx x).set rdx x
        else ({ c with flags := some f } : Cpu).set rcx x, stack⟩ := by
    refine Computes.one (.cmove rcx rdx) (fun _ => rfl) ⟨by decide, by decide⟩ ?_
    cases hz : f.zero with
    | true => simp only [Op.run, Op.exec, Cpu.set, Option.map_some, hz, if_true,
        Function.update_self]
    | false => simp only [Op.run, Op.exec, Cpu.set, Option.map_some, hz, Bool.false_eq_true,
        if_false]
  have hall := (computes_popfq c f (x :: stack)).append (hpop.append hcmove)
  refine ⟨_, hall, ?_, fun r hrdx hrcx => ?_, ?_⟩
  · cases hz : f.zero with
    | true => rfl
    | false => rfl
  · cases hz : f.zero with
    | true => simp only [if_true, Cpu.set, Function.update_of_ne hrdx, Function.update_of_ne hrcx]
    | false => simp only [Bool.false_eq_true, if_false, Cpu.set, Function.update_of_ne hrcx]
  · cases hz : f.zero with
    | true => rfl
    | false => rfl

/-- Moving the result and taking the saved registers back. -/
theorem computes_restore (mod : Bool) (dst : Reg) (c saved : Cpu) (stack : List Word)
    (hdst : dst ≠ rsp) :
    ∃ c', Computes (codeIf (dst ≠ rdx) (codeIf mod [.bin .mov true rdx dst] ++ [.pop rdx]) ++
          codeIf (dst ≠ rax) (codeIf (!mod) [.bin .mov true rax dst] ++ [.pop rax]))
        ⟨c, savedWords dst saved ++ stack⟩ ⟨c', stack⟩ ∧
      c'.regs dst = c.regs (if mod then rdx else rax) ∧
      (∀ r, r ≠ dst → r ≠ rax → r ≠ rdx → c'.regs r = c.regs r) ∧
      (rax ≠ dst → c'.regs rax = saved.regs rax) ∧ (rdx ≠ dst → c'.regs rdx = saved.regs rdx) ∧
      c'.mem = c.mem := by
  -- The result is in `rax` or `rdx`, either of which may be the destination and
  -- is then not saved.
  by_cases hrax : dst = rax
  · subst hrax
    cases mod with
    | true =>
        refine ⟨_, (computes_mov rdx rax ⟨c, _⟩ ⟨by decide, by decide⟩).append
          (computes_pop rdx _ _ stack (by decide)), rfl, fun r h1 h2 h3 => ?_,
          fun h => absurd rfl h, fun _ => rfl, rfl⟩
        simp only [Cpu.set, Function.update_of_ne h3, Function.update_of_ne h2]
    | false =>
        refine ⟨_, computes_pop rdx c _ stack (by decide), rfl, fun r h1 h2 h3 => ?_,
          fun h => absurd rfl h, fun _ => rfl, rfl⟩
        simp only [Cpu.set, Function.update_of_ne h3]
  · by_cases hrdx : dst = rdx
    · subst hrdx
      cases mod with
      | true =>
          refine ⟨_, computes_pop rax c _ stack (by decide), rfl, fun r h1 h2 h3 => ?_,
            fun _ => rfl, fun h => absurd rfl h, rfl⟩
          simp only [Cpu.set, Function.update_of_ne h2]
      | false =>
          refine ⟨_, (computes_mov rax rdx ⟨c, _⟩ ⟨by decide, by decide⟩).append
            (computes_pop rax _ _ stack (by decide)), rfl, fun r h1 h2 h3 => ?_,
            fun _ => rfl, fun h => absurd rfl h, rfl⟩
          simp only [Cpu.set, Function.update_of_ne h3, Function.update_of_ne h2]
    · have hsaved : savedWords dst saved ++ stack =
          saved.regs rdx :: saved.regs rax :: stack := by
        simp only [savedWords, ne_eq, hrdx, hrax, not_false_eq_true, if_true, List.cons_append,
          List.nil_append]
      rw [hsaved]
      simp only [codeIf, ne_eq, hrdx, hrax, not_false_eq_true, decide_true, if_true]
      cases mod with
      | true =>
          refine ⟨_, ((computes_mov rdx dst ⟨c, _⟩ ⟨by decide, hdst⟩).append
            (computes_pop rdx _ _ _ (by decide))).append
            (computes_pop rax _ _ stack (by decide)), ?_, fun r h1 h2 h3 => ?_,
            fun _ => rfl, fun _ => rfl, rfl⟩
          · simp only [Cpu.set, Function.update_of_ne hrax, Function.update_of_ne hrdx,
              Function.update_self, if_true]
          · simp only [Cpu.set, Function.update_of_ne h3, Function.update_of_ne h2,
              Function.update_of_ne h1]
      | false =>
          refine ⟨_, (computes_pop rdx c _ _ (by decide)).append
            ((computes_mov rax dst _ ⟨by decide, hdst⟩).append
            (computes_pop rax _ _ stack (by decide))), ?_, fun r h1 h2 h3 => ?_,
            fun _ => rfl, fun _ => ?_, rfl⟩
          · simp only [Cpu.set, Function.update_of_ne hrax, Function.update_self,
              Bool.false_eq_true, if_false]
            rfl
          · simp only [Cpu.set, Function.update_of_ne h3, Function.update_of_ne h2,
              Function.update_of_ne h1]
          · simp only [Cpu.set]
            rw [Function.update_of_ne (by decide), Function.update_of_ne (Ne.symm hrdx),
              Function.update_self]

/-! ### Values of the three operations -/

theorem testFlags_zero (is64 : Bool) (y : Word) (w : Nat) (hw : w = if is64 then 64 else 32) :
    (testFlags is64 y).zero = decide (y.toNat % 2 ^ w = 0) := by
  subst hw
  cases is64 with
  | true =>
      simp only [testFlags, if_true, logicFlags, BitVec.and_self]
      rw [Bool.eq_iff_iff, beq_iff_eq, decide_eq_true_eq, ← BitVec.toNat_inj]
      have hy := y.isLt
      rw [Nat.mod_eq_of_lt hy]
      exact Iff.rfl
  | false =>
      simp only [testFlags, Bool.false_eq_true, if_false, logicFlags, BitVec.and_self]
      rw [Bool.eq_iff_iff, beq_iff_eq, decide_eq_true_eq, ← BitVec.toNat_inj,
        BitVec.toNat_setWidth]
      exact Iff.rfl

theorem low_mul (is64 : Bool) (x y : Word) (w : Nat) (hw : w = if is64 then 64 else 32) :
    Low is64 (BitVec.ofNat 64 (x.toNat % 2 ^ w * (y.toNat % 2 ^ w) % 2 ^ w))
      (alu is64 .mul x y) := by
  subst hw
  refine low_alu is64 .mul x y _ (fun h => ?_) (fun h => ?_)
  · subst h
    apply BitVec.eq_of_toNat_eq
    simp only [if_true, aluOp, BitVec.toNat_mul, BitVec.toNat_ofNat, Nat.mod_mod, ← Nat.mul_mod]
  · subst h
    apply BitVec.eq_of_toNat_eq
    simp only [Bool.false_eq_true, if_false, aluOp, BitVec.toNat_mul, BitVec.toNat_ofNat,
      BitVec.toNat_setWidth]
    omega

/-- The quotient, and zero for a divisor of zero. -/
theorem low_div (is64 : Bool) (x y q : Word) (w : Nat) (hw : w = if is64 then 64 else 32)
    (hq : q = if y.toNat % 2 ^ w = 0 then 0
      else BitVec.ofNat 64 (x.toNat % 2 ^ w / (y.toNat % 2 ^ w))) :
    Low is64 q (alu is64 .div x y) := by
  subst hw
  refine low_alu is64 .div x y q (fun h => ?_) (fun h => ?_)
  · subst h
    have hx := x.isLt
    have hy := y.isLt
    simp only [if_true, Nat.mod_eq_of_lt hx, Nat.mod_eq_of_lt hy] at hq
    by_cases hz : y.toNat = 0
    · have hy0 : y = 0 := BitVec.eq_of_toNat_eq hz
      rw [hq, if_pos hz, aluOp, if_pos hy0]
    · have hy0 : y ≠ 0 := fun h => hz (by rw [h]; rfl)
      rw [hq, if_neg hz, aluOp, if_neg hy0]
      apply BitVec.eq_of_toNat_eq
      rw [BitVec.toNat_ofNat, BitVec.toNat_udiv]
      exact Nat.mod_eq_of_lt (lt_of_le_of_lt (Nat.div_le_self _ _) hx)
  · subst h
    simp only [Bool.false_eq_true, if_false] at hq
    have hylow : (y.setWidth 32).toNat = y.toNat % 2 ^ 32 := BitVec.toNat_setWidth 32 y
    have hxlow : (x.setWidth 32).toNat = x.toNat % 2 ^ 32 := BitVec.toNat_setWidth 32 x
    by_cases hz : y.toNat % 2 ^ 32 = 0
    · have hy0 : y.setWidth 32 = 0 := BitVec.eq_of_toNat_eq (hylow.trans hz)
      rw [hq, if_pos hz, aluOp, if_pos hy0]
      rfl
    · have hy0 : y.setWidth 32 ≠ 0 := fun h => hz (by rw [← hylow, h]; rfl)
      rw [hq, if_neg hz, aluOp, if_neg hy0]
      apply BitVec.eq_of_toNat_eq
      rw [BitVec.toNat_setWidth, BitVec.toNat_ofNat, BitVec.toNat_udiv, hxlow, hylow]
      have hlt : x.toNat % 2 ^ 32 / (y.toNat % 2 ^ 32) < 2 ^ 32 :=
        lt_of_le_of_lt (Nat.div_le_self _ _) (Nat.mod_lt _ (Nat.two_pow_pos 32))
      rw [Nat.mod_eq_of_lt (lt_trans hlt (by norm_num)), Nat.mod_eq_of_lt hlt]

/-- The remainder, and the dividend for a divisor of zero. -/
theorem low_mod (is64 : Bool) (x y q : Word) (w : Nat) (hw : w = if is64 then 64 else 32)
    (hq : q = if y.toNat % 2 ^ w = 0 then x
      else BitVec.ofNat 64 (x.toNat % 2 ^ w % (y.toNat % 2 ^ w))) :
    Low is64 q (alu is64 .mod x y) := by
  subst hw
  refine low_alu is64 .mod x y q (fun h => ?_) (fun h => ?_)
  · subst h
    have hx := x.isLt
    have hy := y.isLt
    simp only [if_true, Nat.mod_eq_of_lt hx, Nat.mod_eq_of_lt hy] at hq
    by_cases hz : y.toNat = 0
    · have hy0 : y = 0 := BitVec.eq_of_toNat_eq hz
      rw [hq, if_pos hz, aluOp, if_pos hy0]
    · have hy0 : y ≠ 0 := fun h => hz (by rw [h]; rfl)
      rw [hq, if_neg hz, aluOp, if_neg hy0]
      apply BitVec.eq_of_toNat_eq
      rw [BitVec.toNat_ofNat, BitVec.toNat_umod]
      exact Nat.mod_eq_of_lt (lt_of_le_of_lt (Nat.mod_le _ _) hx)
  · subst h
    simp only [Bool.false_eq_true, if_false] at hq
    have hylow : (y.setWidth 32).toNat = y.toNat % 2 ^ 32 := BitVec.toNat_setWidth 32 y
    have hxlow : (x.setWidth 32).toNat = x.toNat % 2 ^ 32 := BitVec.toNat_setWidth 32 x
    by_cases hz : y.toNat % 2 ^ 32 = 0
    · have hy0 : y.setWidth 32 = 0 := BitVec.eq_of_toNat_eq (hylow.trans hz)
      rw [hq, if_pos hz, aluOp, if_pos hy0]
    · have hy0 : y.setWidth 32 ≠ 0 := fun h => hz (by rw [← hylow, h]; rfl)
      rw [hq, if_neg hz, aluOp, if_neg hy0]
      apply BitVec.eq_of_toNat_eq
      rw [BitVec.toNat_setWidth, BitVec.toNat_ofNat, BitVec.toNat_umod, hxlow, hylow]
      have hlt : x.toNat % 2 ^ 32 % (y.toNat % 2 ^ 32) < 2 ^ 32 :=
        lt_of_le_of_lt (Nat.mod_le _ _) (Nat.mod_lt _ (Nat.two_pow_pos 32))
      rw [Nat.mod_eq_of_lt (lt_trans hlt (by norm_num)), Nat.mod_eq_of_lt hlt]

/-- The three operations `muldivmod` is for. -/
def AluOp.isMulDiv : AluOp → Bool
  | .mul => true
  | .div => true
  | .mod => true
  | _ => false

/-- The register the result is in. -/
def resultReg (op : AluOp) : Reg := if decide (op = .mod) then rdx else rax

/-- The part between the setup and the moving of the result. -/
def coreCode (is64 : Bool) (op : AluOp) : List Encoded :=
  codeIf (decide (op = .div) || decide (op = .mod)) (guardCode is64 (decide (op = .mod))) ++
    [mulOrDiv is64 (decide (op = .mul))] ++
    codeIf (decide (op = .div) || decide (op = .mod)) (correctCode (decide (op = .div)))

/-- The operation itself, with a one in place of a divisor of zero. -/
theorem computes_division (is64 mod : Bool) (a : Abs) (f : Flags) (w : Nat)
    (hw : w = if is64 then 64 else 32) (hf : f = testFlags is64 (a.cpu.regs rcx)) :
    ∃ c, Computes (guardCode is64 mod ++ [mulOrDiv is64 false]) a
        ⟨c, f.toWord :: ((if mod then [a.cpu.regs rax] else []) ++ a.stack)⟩ ∧
      (f.zero = false → c.regs rax = BitVec.ofNat 64
        ((a.cpu.regs rax).toNat % 2 ^ w / ((a.cpu.regs rcx).toNat % 2 ^ w))) ∧
      (f.zero = false → c.regs rdx = BitVec.ofNat 64
        ((a.cpu.regs rax).toNat % 2 ^ w % ((a.cpu.regs rcx).toNat % 2 ^ w))) ∧
      (∀ r, r ≠ rax → r ≠ rcx → r ≠ rdx → c.regs r = a.cpu.regs r) ∧ c.mem = a.cpu.mem := by
  rcases computes_guard is64 mod a f hf with ⟨c1, hguard, hrcx, hrdx, hother, hmem⟩
  have hzero := testFlags_zero is64 (a.cpu.regs rcx) w hw
  rw [← hf] at hzero
  have hne : (c1.regs rcx).toNat % 2 ^ w ≠ 0 := by
    rw [hrcx]
    cases hz : f.zero with
    | true =>
        have hone : (1 : Word).toNat % 2 ^ w = 1 := by
          rw [hw]
          cases is64 with
          | true => rfl
          | false => rfl
        simp only [if_true, hone]
        exact Nat.one_ne_zero
    | false =>
        rw [hz] at hzero
        simp only [Bool.false_eq_true, if_false]
        exact of_decide_eq_false hzero.symm
  rcases div_ok is64 c1 w hw hrdx hne with ⟨c2, hdiv, hquot, hrem, hrest, hmem'⟩
  have hop : Computes [mulOrDiv is64 false]
      ⟨c1, f.toWord :: ((if mod then [a.cpu.regs rax] else []) ++ a.stack)⟩
      ⟨c2, f.toWord :: ((if mod then [a.cpu.regs rax] else []) ++ a.stack)⟩ := by
    refine Computes.one (.div is64 rcx) (fun _ => rfl) (show rcx ≠ rsp by decide) ?_
    simp only [Op.run, Op.exec, hdiv, Option.map_some]
  have hrax : c1.regs rax = a.cpu.regs rax := hother rax (by decide) (by decide)
  refine ⟨c2, hguard.append hop, fun hz => ?_, fun hz => ?_, fun r h1 h2 h3 => ?_,
    hmem'.trans hmem⟩
  · rw [hquot, hrax, hrcx, hz]
    rfl
  · rw [hrem, hrax, hrcx, hz]
    rfl
  · rw [hrest r h1 h3, hother r h2 h3]

theorem computes_core (is64 : Bool) (op : AluOp) (a : Abs) (hop : op.isMulDiv = true) :
    ∃ c, Computes (coreCode is64 op) a ⟨c, a.stack⟩ ∧
      Low is64 (c.regs (resultReg op)) (alu is64 op (a.cpu.regs rax) (a.cpu.regs rcx)) ∧
      (∀ r, r ≠ rax → r ≠ rcx → r ≠ rdx → c.regs r = a.cpu.regs r) ∧ c.mem = a.cpu.mem := by
  have hzero := testFlags_zero is64 (a.cpu.regs rcx) _ rfl
  generalize hf : testFlags is64 (a.cpu.regs rcx) = f at hzero
  generalize hw : (if is64 = true then 64 else 32) = w at hzero
  cases op with
  | mul =>
      refine ⟨_, computes_mul is64 a, ?_, fun r h1 h2 h3 => ?_, rfl⟩
      · have hrax : (a.cpu.mul is64 rcx).regs rax = BitVec.ofNat 64
            ((a.cpu.regs rax).toNat % 2 ^ w * ((a.cpu.regs rcx).toNat % 2 ^ w) % 2 ^ w) := by
          simp only [Cpu.mul, hw, Cpu.set]
          rw [Function.update_of_ne (by decide), Function.update_self]
        have hlow := low_mul is64 (a.cpu.regs rax) (a.cpu.regs rcx) w hw.symm
        rw [← hrax] at hlow
        exact hlow
      · simp only [Cpu.mul, Cpu.set, Function.update_of_ne h3, Function.update_of_ne h1]
  | div =>
      rcases computes_division is64 false a f w hw.symm hf.symm with
        ⟨c1, hdiv, hquot, -, hother, hmem⟩
      rcases computes_correct_div c1 f a.stack with ⟨c2, hcorrect, hrax, hrest, hmem'⟩
      refine ⟨c2, hdiv.append hcorrect, ?_, fun r h1 h2 h3 => ?_, hmem'.trans hmem⟩
      · refine low_div is64 _ _ _ w hw.symm (Eq.trans hrax ?_)
        -- The flags say whether the divisor was zero, and the code after the division
        -- puts in what the interpreter has then.
        cases hz : f.zero with
        | true =>
            rw [hz] at hzero
            rw [if_pos (of_decide_eq_true hzero.symm)]
            rfl
        | false =>
            rw [hz] at hzero
            rw [if_neg (of_decide_eq_false hzero.symm), ← hquot hz]
            rfl
      · rw [hrest r h1 h2, hother r h1 h2 h3]
  | mod =>
      rcases computes_division is64 true a f w hw.symm hf.symm with
        ⟨c1, hdiv, -, hrem, hother, hmem⟩
      rcases computes_correct_mod c1 f (a.cpu.regs rax) a.stack with
        ⟨c2, hcorrect, hrdx, hrest, hmem'⟩
      refine ⟨c2, hdiv.append hcorrect, ?_, fun r h1 h2 h3 => ?_, hmem'.trans hmem⟩
      · refine low_mod is64 _ _ _ w hw.symm (Eq.trans hrdx ?_)
        cases hz : f.zero with
        | true =>
            rw [hz] at hzero
            rw [if_pos (of_decide_eq_true hzero.symm)]
            rfl
        | false =>
            rw [hz] at hzero
            rw [if_neg (of_decide_eq_false hzero.symm), ← hrem hz]
            rfl
      · rw [hrest r h3 h2, hother r h1 h2 h3]
  | _ => exact absurd hop (by simp only [AluOp.isMulDiv, Bool.false_eq_true, not_false_eq_true])

/-- An immediate of zero is dealt with by the translator. -/
theorem computes_byZero (is64 : Bool) (op : AluOp) (src dst : Reg) (a : Abs)
    (hop : op.isMulDiv = true) (hdst : dst ≠ rsp) :
    ∃ a', Computes (mulDivCode is64 op .imm src dst 0) a a' ∧
      Sets is64 a a' dst (alu is64 op (a.cpu.regs dst) (operandValue .imm a.cpu src 0)) := by
  have hxor : Computes [.bin .xor false dst dst] a
      ⟨a.cpu.bin .xor false (a.cpu.regs dst) dst, a.stack⟩ :=
    Computes.one (.bin .xor false (.reg dst) dst) (fun _ => rfl) ⟨hdst, hdst⟩ rfl
  have hkept : ∀ r, r ≠ dst → r ≠ rcx →
      (a.cpu.bin .xor false (a.cpu.regs dst) dst).regs r = a.cpu.regs r := by
    intro r hr _
    rw [xor_self_regs, Function.update_of_ne hr]
  have hself : (a.cpu.bin .xor false (a.cpu.regs dst) dst).regs dst = 0 := by
    rw [xor_self_regs, Function.update_self]
  cases op with
  | mul =>
      refine ⟨_, hxor, ⟨?_, hkept, Cpu.bin_mem _ _ _ _ _, rfl⟩⟩
      have hlow := low_mul is64 (a.cpu.regs dst) (BitVec.ofInt 64 0) _ rfl
      have hzero : (BitVec.ofInt 64 0).toNat = 0 := rfl
      rw [hzero, Nat.zero_mod, Nat.mul_zero, Nat.zero_mod] at hlow
      rw [hself]
      exact hlow
  | div =>
      refine ⟨_, hxor, ⟨?_, hkept, Cpu.bin_mem _ _ _ _ _, rfl⟩⟩
      refine low_div is64 _ _ _ _ rfl ?_
      have hzero : (operandValue .imm a.cpu src 0).toNat = 0 := rfl
      rw [hself, hzero, Nat.zero_mod, if_pos rfl]
  | mod =>
      refine ⟨_, computes_mov dst dst a ⟨hdst, hdst⟩, ⟨?_, fun r hr _ => ?_, rfl, rfl⟩⟩
      · refine low_mod is64 _ _ _ _ rfl ?_
        have hzero : (operandValue .imm a.cpu src 0).toNat = 0 := rfl
        rw [hzero, Nat.zero_mod, if_pos rfl]
        exact Function.update_self (f := a.cpu.regs) dst _
      · exact Function.update_of_ne hr _ _
  | _ => exact absurd hop (by simp only [AluOp.isMulDiv, Bool.false_eq_true, not_false_eq_true])

theorem mulDivCode_eq (is64 : Bool) (op : AluOp) (operand : Operand) (src dst : Reg) (imm : Int)
    (hop : op.isMulDiv = true) (h : ¬ (operand = .imm ∧ imm = 0)) :
    mulDivCode is64 op operand src dst imm =
      (codeIf (dst ≠ rax) [.push rax] ++ codeIf (dst ≠ rdx) [.push rdx] ++
        [divisorCode operand src imm] ++ [.bin .mov true dst rax]) ++ (coreCode is64 op ++
      (codeIf (dst ≠ rdx) (codeIf (decide (op = .mod)) [.bin .mov true rdx dst] ++ [.pop rdx]) ++
        codeIf (dst ≠ rax) (codeIf (!decide (op = .mod)) [.bin .mov true rax dst] ++
          [.pop rax]))) := by
  have hnot : (decide (op = .div) || decide (op = .mul)) = !decide (op = .mod) := by
    cases op with
    | mul => rfl
    | div => rfl
    | mod => rfl
    | _ => exact absurd hop (by simp only [AluOp.isMulDiv, Bool.false_eq_true, not_false_eq_true])
  simp only [mulDivCode, h, if_false, coreCode, hnot, List.append_assoc]

/-- Multiplication and division. -/
theorem computes_mulDiv (is64 : Bool) (op : AluOp) (operand : Operand) (src dst : Reg) (imm : Int)
    (a : Abs) (hop : op.isMulDiv = true) (hsrc : src ≠ rsp) (hdst : dst ≠ rsp ∧ dst ≠ rcx)
    (himm : -2 ^ 31 ≤ imm ∧ imm < 2 ^ 31) :
    ∃ a', Computes (mulDivCode is64 op operand src dst imm) a a' ∧
      Sets is64 a a' dst
        (alu is64 op (a.cpu.regs dst) (operandValue operand a.cpu src imm)) := by
  by_cases h : operand = .imm ∧ imm = 0
  · rcases h with ⟨rfl, rfl⟩
    exact computes_byZero is64 op src dst a hop hdst.1
  · rw [mulDivCode_eq is64 op operand src dst imm hop h]
    have hsetup := computes_setup operand src dst imm a hsrc hdst himm
    rcases computes_core is64 op ⟨operandsIn a.cpu (a.cpu.regs dst)
      (operandValue operand a.cpu src imm), savedWords dst a.cpu ++ a.stack⟩ hop with
      ⟨c, hcore, hlow, hother, hmem⟩
    rcases computes_restore (decide (op = .mod)) dst c a.cpu a.stack hdst.1 with
      ⟨c', hrestore, hvalue, hkept, hrax, hrdx, hmem'⟩
    refine ⟨⟨c', a.stack⟩, hsetup.append (hcore.append hrestore), ?_, fun r hr hrcx => ?_,
      hmem'.trans hmem, rfl⟩
    · have hin : Low is64 (c.regs (resultReg op))
        (alu is64 op (a.cpu.regs dst) (operandValue operand a.cpu src imm)) := hlow
      rw [resultReg, ← hvalue] at hin
      exact hin
    · by_cases h1 : r = rax
      · subst h1
        exact hrax hr
      · by_cases h2 : r = rdx
        · subst h2
          exact hrdx hr
        · have hstart : (operandsIn a.cpu (a.cpu.regs dst)
              (operandValue operand a.cpu src imm)).regs r = a.cpu.regs r := by
            simp only [operandsIn, Cpu.set, Function.update_of_ne h1, Function.update_of_ne hrcx]
          exact (hkept r hr h1 h2).trans ((hother r h1 hrcx h2).trans hstart)

/-! ## The other operations -/

theorem computes_bin (bop : BinOp) (is64 : Bool) (src dst : Reg) (a : Abs)
    (h : src ≠ rsp ∧ dst ≠ rsp) : Computes [.bin bop is64 src dst] a
      ⟨a.cpu.bin bop is64 (a.cpu.regs src) dst, a.stack⟩ :=
  Computes.one (.bin bop is64 (.reg src) dst) (fun _ => rfl) h rfl

theorem computes_binImm (op : ImmOp) (is64 : Bool) (imm : Int) (dst : Reg) (a : Abs)
    (h : dst ≠ rsp) (himm : -2 ^ 31 ≤ imm ∧ imm < 2 ^ 31) : Computes [.binImm op is64 imm dst] a
      ⟨a.cpu.bin op.toBin is64 (BitVec.ofInt 64 imm) dst, a.stack⟩ := by
  rw [← wrap_imm imm himm]
  exact Computes.one (.bin op.toBin is64 (.imm (wrap32 imm)) dst) (fun _ => rfl) h rfl

theorem sets_shift (is64 : Bool) (sop : ShiftOp) (op : AluOp) (a : Abs) (n : Nat) (y : Word)
    (dst : Reg) (hop : ∀ {w : Nat} (x b : BitVec w), sop.result x (b.toNat % w) = aluOp op x b)
    (hn : n % 64 = y.toNat % 64) :
    Sets is64 a ⟨a.cpu.shift sop is64 n dst, a.stack⟩ dst (alu is64 op (a.cpu.regs dst) y) := by
  have hvalue : (a.cpu.shift sop is64 n dst).regs dst = if is64 then
      sop.result (a.cpu.regs dst) (n % 64)
      else (sop.result ((a.cpu.regs dst).setWidth 32) (n % 32)).setWidth 64 := by
    simp only [Cpu.shift, Cpu.set, Function.update_self]
  refine ⟨?_, fun r hr _ => ?_, rfl, rfl⟩
  · rw [hvalue]
    refine low_alu is64 op _ y _ (fun h => ?_) (fun h => ?_)
    · rw [if_pos h, hn, hop]
    · have hlow : n % 32 = (y.setWidth 32).toNat % 32 := by
        rw [BitVec.toNat_setWidth]
        omega
      rw [if_neg (by rw [h]; exact Bool.false_ne_true), setWidth_grow, hlow, hop]
  · simp only [Cpu.shift, Cpu.set, Function.update_of_ne hr]

theorem shift_count_imm (imm : Int) : u32 imm % 256 % 64 = (BitVec.ofInt 64 imm).toNat % 64 := by
  rw [u32, BitVec.toNat_ofInt]
  omega

def shiftCode (sop : ShiftOp) (is64 : Bool) (operand : Operand) (src dst : Reg) (imm : Int) :
    List Encoded :=
  match operand with
  | .imm => [.shiftImm sop is64 imm dst]
  | .reg => [.bin .mov true src rcx, .shiftCl sop is64 dst]

/-- A shift by an immediate or by a register, which goes through `rcx`. -/
theorem computes_shift (sop : ShiftOp) (op : AluOp) (is64 : Bool) (operand : Operand)
    (src dst : Reg) (imm : Int) (a : Abs)
    (hop : ∀ {w : Nat} (x b : BitVec w), sop.result x (b.toNat % w) = aluOp op x b)
    (hsrc : src ≠ rsp) (hdst : dst ≠ rsp ∧ dst ≠ rcx) :
    ∃ a', Computes (shiftCode sop is64 operand src dst imm) a a' ∧
      Sets is64 a a' dst (alu is64 op (a.cpu.regs dst) (operandValue operand a.cpu src imm)) := by
  cases operand with
  | imm =>
      exact ⟨_, Computes.one (.shift sop is64 (.imm (u32 imm % 256)) dst) (fun _ => rfl) hdst.1 rfl,
        sets_shift is64 sop op a _ _ dst hop (shift_count_imm imm)⟩
  | reg =>
      have hmov := computes_mov src rcx a ⟨hsrc, by decide⟩
      have hshift : Computes [.shiftCl sop is64 dst] ⟨a.cpu.set rcx (a.cpu.regs src), a.stack⟩ _ :=
        Computes.one (.shift sop is64 .cl dst) (fun _ => rfl) hdst.1 rfl
      have hreg : (a.cpu.set rcx (a.cpu.regs src)).regs dst = a.cpu.regs dst :=
        Function.update_of_ne hdst.2 _ _
      have hsets := sets_shift is64 sop op ⟨a.cpu.set rcx (a.cpu.regs src), a.stack⟩
        ((a.cpu.regs src).toNat % 256) (a.cpu.regs src) dst hop (by omega)
      rw [hreg] at hsets
      refine ⟨_, hmov.append hshift, ⟨hsets.value, fun r hr hrcx => ?_, hsets.mem, hsets.stack⟩⟩
      exact (hsets.other r hr hrcx).trans (Function.update_of_ne hrcx _ _)

def simpleCode (iop : ImmOp) (is64 : Bool) (operand : Operand) (src dst : Reg) (imm : Int) :
    Encoded :=
  match operand with
  | .imm => .binImm iop is64 imm dst
  | .reg => .bin iop.toBin is64 src dst

/-- The operations that are one instruction of the processor. -/
theorem computes_simple (iop : ImmOp) (op : AluOp) (is64 : Bool) (operand : Operand)
    (src dst : Reg) (imm : Int) (a : Abs)
    (hop : ∀ {w : Nat} (x y : BitVec w), iop.toBin.result x y = some (aluOp op x y))
    (hsrc : src ≠ rsp) (hdst : dst ≠ rsp) (himm : -2 ^ 31 ≤ imm ∧ imm < 2 ^ 31) :
    ∃ a', Computes [simpleCode iop is64 operand src dst imm] a a' ∧
      Sets is64 a a' dst (alu is64 op (a.cpu.regs dst) (operandValue operand a.cpu src imm)) := by
  cases operand with
  | imm => exact ⟨_, computes_binImm iop is64 imm dst a hdst himm,
      sets_bin is64 iop.toBin op a _ dst hop⟩
  | reg => exact ⟨_, computes_bin iop.toBin is64 src dst a ⟨hsrc, hdst⟩,
      sets_bin is64 iop.toBin op a _ dst hop⟩

theorem computes_neg (is64 : Bool) (dst : Reg) (y : Word) (a : Abs) (hdst : dst ≠ rsp) :
    ∃ a', Computes [.neg is64 dst] a a' ∧
      Sets is64 a a' dst (alu is64 .neg (a.cpu.regs dst) y) := by
  refine ⟨_, Computes.one (.neg is64 dst) (fun _ => rfl) hdst rfl, ⟨?_, fun r hr _ => ?_, rfl, rfl⟩⟩
  · have hvalue : Function.update a.cpu.regs dst (if is64 then -a.cpu.regs dst
        else (-(a.cpu.regs dst).setWidth 32).setWidth 64) dst =
        alu is64 .neg (a.cpu.regs dst) y := by
      rw [Function.update_self]
      rfl
    have hlow := Low.refl is64 (alu is64 .neg (a.cpu.regs dst) y)
    rw [← hvalue] at hlow ⊢
    exact hlow
  · exact Function.update_of_ne hr _ _

/-- A move of the 32-bit form from a register moves all of it. -/
theorem computes_movReg (is64 : Bool) (src dst : Reg) (a : Abs) (h : src ≠ rsp ∧ dst ≠ rsp) :
    ∃ a', Computes [.bin .mov true src dst] a a' ∧
      Sets is64 a a' dst (alu is64 .mov (a.cpu.regs dst) (a.cpu.regs src)) := by
  refine ⟨_, computes_mov src dst a h, ⟨?_, fun r hr _ => Function.update_of_ne hr _ _, rfl, rfl⟩⟩
  have hvalue : (a.cpu.set dst (a.cpu.regs src)).regs dst = a.cpu.regs src := by
    simp only [Cpu.set, Function.update_self]
  rw [hvalue]
  exact low_alu is64 .mov _ _ _ (fun _ => rfl) (fun _ => rfl)

/-- Every arithmetic instruction, up to the upper half of a 32-bit result. -/
theorem computes_aluCode (is64 : Bool) (op : AluOp) (operand : Operand) (src dst : Reg) (imm : Int)
    (a : Abs) (hsrc : src ≠ rsp) (hdst : dst ≠ rsp ∧ dst ≠ rcx)
    (himm : -2 ^ 31 ≤ imm ∧ imm < 2 ^ 31) :
    ∃ a', Computes (aluCode is64 op operand src dst imm) a a' ∧
      Sets is64 a a' dst (alu is64 op (a.cpu.regs dst) (operandValue operand a.cpu src imm)) := by
  cases op with
  | add =>
      have h := computes_simple .add .add is64 operand src dst imm a (fun _ _ => rfl) hsrc hdst.1
        himm
      cases operand <;> exact h
  | sub =>
      have h := computes_simple .sub .sub is64 operand src dst imm a (fun _ _ => rfl) hsrc hdst.1
        himm
      cases operand <;> exact h
  | or =>
      have h := computes_simple .or .or is64 operand src dst imm a (fun _ _ => rfl) hsrc hdst.1 himm
      cases operand <;> exact h
  | and =>
      have h := computes_simple .and .and is64 operand src dst imm a (fun _ _ => rfl) hsrc hdst.1
        himm
      cases operand <;> exact h
  | xor =>
      have h := computes_simple .xor .xor is64 operand src dst imm a (fun _ _ => rfl) hsrc hdst.1
        himm
      cases operand <;> exact h
  -- Multiplication and division go through `rax`, `rdx` and `rcx`.
  | mul => exact computes_mulDiv is64 .mul operand src dst imm a rfl hsrc hdst himm
  | div => exact computes_mulDiv is64 .div operand src dst imm a rfl hsrc hdst himm
  | mod => exact computes_mulDiv is64 .mod operand src dst imm a rfl hsrc hdst himm
  | lsh =>
      have h := computes_shift .shl .lsh is64 operand src dst imm a (fun _ _ => rfl) hsrc hdst
      cases operand <;> exact h
  | rsh =>
      have h := computes_shift .shr .rsh is64 operand src dst imm a (fun _ _ => rfl) hsrc hdst
      cases operand <;> exact h
  | arsh =>
      have h := computes_shift .sar .arsh is64 operand src dst imm a (fun _ _ => rfl) hsrc hdst
      cases operand <;> exact h
  | neg => exact computes_neg is64 dst _ a hdst.1
  | mov =>
      cases operand with
      | reg => exact computes_movReg is64 src dst a ⟨hsrc, hdst.1⟩
      | imm =>
          have hsets := sets_bin is64 .mov .mov a (BitVec.ofInt 64 imm) dst (fun _ _ => rfl)
          cases is64 with
          | true => exact ⟨_, computes_loadImm dst imm a hdst.1 himm, hsets⟩
          | false =>
              -- The short form of the move has an immediate of four bytes.
              rw [← wrap_imm imm himm] at hsets
              have hmov : Computes [.movImm false imm dst] a
                  ⟨a.cpu.bin .mov false (BitVec.ofInt 64 (wrap32 imm)) dst, a.stack⟩ :=
                Computes.one (.bin .mov false (.imm (wrap32 imm)) dst) (fun _ => rfl) hdst.1 rfl
              refine ⟨_, hmov, ?_⟩
              rw [operandValue, ← wrap_imm imm himm]
              exact hsets

/-- The truncation after a 32-bit operation. -/
theorem computes_truncate (is64 : Bool) (dst : Reg) (a : Abs) (hdst : dst ≠ rsp) :
    ∃ a', Computes (codeIf (!is64) [.binImm .and false (-1) dst]) a a' ∧
      a'.cpu.regs dst = (if is64 then a.cpu.regs dst
        else ((a.cpu.regs dst).setWidth 32).setWidth 64) ∧
      (∀ r, r ≠ dst → a'.cpu.regs r = a.cpu.regs r) ∧ a'.cpu.mem = a.cpu.mem ∧
      a'.stack = a.stack := by
  cases is64 with
  | true => exact ⟨a, Computes.nil a, rfl, fun _ _ => rfl, rfl, rfl⟩
  | false =>
      refine ⟨_, computes_binImm .and false (-1) dst a hdst (by omega), ?_, fun r hr => ?_, rfl,
        rfl⟩
      · have hbin : (a.cpu.bin .and false (BitVec.ofInt 64 (-1)) dst).regs dst =
            ((a.cpu.regs dst).setWidth 32 &&& (BitVec.ofInt 64 (-1)).setWidth 32).setWidth 64 := by
          have hregs : (a.cpu.bin .and false (BitVec.ofInt 64 (-1)) dst).regs =
            Function.update a.cpu.regs dst (((a.cpu.regs dst).setWidth 32 &&&
              (BitVec.ofInt 64 (-1)).setWidth 32).setWidth 64) := rfl
          rw [hregs, Function.update_self]
        have hones : (BitVec.ofInt 64 (-1)).setWidth 32 = BitVec.allOnes 32 := rfl
        rw [hones, BitVec.and_allOnes] at hbin
        exact hbin
      · have hregs : (a.cpu.bin .and false (BitVec.ofInt 64 (-1)) dst).regs =
          Function.update a.cpu.regs dst (((a.cpu.regs dst).setWidth 32 &&&
            (BitVec.ofInt 64 (-1)).setWidth 32).setWidth 64) := rfl
        exact (congrFun hregs r).trans (Function.update_of_ne hr _ _)

/-- Every arithmetic instruction, with its truncation. -/
theorem computes_alu (is64 : Bool) (op : AluOp) (operand : Operand) (src dst : Reg) (imm : Int)
    (a : Abs) (hsrc : src ≠ rsp) (hdst : dst ≠ rsp ∧ dst ≠ rcx)
    (himm : -2 ^ 31 ≤ imm ∧ imm < 2 ^ 31) :
    ∃ a', Computes (aluCode is64 op operand src dst imm ++
        codeIf (!is64) [.binImm .and false (-1) dst]) a a' ∧
      Sets true a a' dst (alu is64 op (a.cpu.regs dst) (operandValue operand a.cpu src imm)) := by
  rcases computes_aluCode is64 op operand src dst imm a hsrc hdst himm with ⟨mid, hcode, hsets⟩
  rcases computes_truncate is64 dst mid hdst.1 with ⟨a', htrunc, hvalue, hother, hmem, hstack⟩
  refine ⟨a', hcode.append htrunc, ⟨?_, fun r hr hrcx => ?_, hmem.trans hsets.mem,
    hstack.trans hsets.stack⟩⟩
  · have hlow := hsets.value
    generalize operandValue operand a.cpu src imm = y at hlow ⊢
    cases is64 with
    | true => exact hvalue.trans hlow
    | false =>
        simp only [Low, Bool.false_eq_true, if_false] at hlow
        simp only [Low, if_true, hvalue, Bool.false_eq_true, if_false, hlow]
        simp only [alu, Bool.false_eq_true, if_false, setWidth_grow]
  · exact (hother r hr).trans (hsets.other r hr hrcx)

end UniBPF
