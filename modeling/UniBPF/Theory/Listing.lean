import UniBPF.Theory.Emission

/-!
# The Listing of a Program

What the translator emits for each instruction, as a list of encoded
instructions. `instCode` and the definitions around it are the listing;
nothing in them mentions a state, and a jump in them names what it goes to.
`emitsAt_inst` and its siblings say that the translator emits just that.

A listing may depend on where it starts, since three of its jumps go to a
place in the listing itself and the translator notes the place as a number.

A load or store through the one register that cannot be a base has no
listing. The bytes emitted for it begin an instruction that also takes in
bytes of whatever comes next, so it is not the encoding of anything by
itself.

## Main definitions

* `mulDivCode`, `aluCode`, `callCode`, `instCode`: The code of an
  instruction.
* `startCode`: The code at the start of a function.
* `BaseOk`: The instruction does not use the register as a base.
* `EmitsAt`: An emitter whose code depends on where it starts.

## Theorems

* `emitsAt_inst`: What the switch of the translator emits.
* `emitsAt_start`: What comes before it.
-/

namespace UniBPF

open LittleEndian X86 Relocations

/-- The pieces of a listing. -/
def pieces (es : List Encoded) : List CodePiece := es.map Encoded.piece

@[simp] theorem pieces_append (es es' : List Encoded) :
    pieces (es ++ es') = pieces es ++ pieces es' := List.map_append

/-- How many bytes a listing takes. -/
def codeLength (es : List Encoded) : Nat := (layout (pieces es)).length

theorem codeLength_append (es es' : List Encoded) :
    codeLength (es ++ es') = codeLength es + codeLength es' := by
  rw [codeLength, pieces_append, layout_append, List.length_append, codeLength, codeLength]

/-- An emitter whose code may depend on where it starts. That there was no
    error before is known without looking at the tables. -/
def EmitsAt (f : JitState → JitState) (es : Nat → List Encoded) : Prop :=
  ∀ s, (f s).jitStatus = .noError →
    s.jitStatus = .noError ∧ (Placed s → Extends s (f s) (pieces (es s.offset)))

theorem Emits.at {f : JitState → JitState} {es : List Encoded} (h : Emits f es) :
    EmitsAt f (fun _ => es) := fun s hs => ⟨(h s hs).before, fun _ => h s hs⟩

theorem EmitsAt.comp {f g : JitState → JitState} {es es' : Nat → List Encoded}
    (hf : EmitsAt f es) (hg : EmitsAt g es') :
    EmitsAt (fun s => g (f s)) (fun off => es off ++ es' (off + codeLength (es off))) := by
  intro s h
  rcases hg (f s) h with ⟨hmid, hgs⟩
  rcases hf s hmid with ⟨hbefore, hfs⟩
  refine ⟨hbefore, fun hs => ?_⟩
  have hext := hgs ((hfs hs).placed hs)
  rw [(hfs hs).offset] at hext
  rw [pieces_append]
  exact (hfs hs).trans hext

/-! ## Arithmetic -/

/-- Loading the second operand into `rcx`. -/
def divisorCode (operand : Operand) (src : Reg) (imm : Int) : Encoded :=
  match operand with
  | .imm => .loadImm rcx imm
  | .reg => .bin .mov true src rcx

/-- Putting a one in place of a zero, with the flags kept on the stack. -/
def guardCode (is64 mod : Bool) : List Encoded :=
  [.bin .test is64 rcx rcx] ++ codeIf mod [.push rax] ++
    [.pushfq, .loadImm rdx 1, .cmoveOne, .bin .xor false rdx rdx]

/-- Correcting the result where there was a zero. -/
def correctCode (div : Bool) : List Encoded :=
  .popfq :: if div then [.loadImm rcx 0, .cmoveQuotient] else [.pop rcx, .cmoveRemainder]

/-- The division or multiplication itself. -/
def mulOrDiv (is64 mul : Bool) : Encoded := if mul then .mul is64 else .div is64

def mulDivCode (is64 : Bool) (op : AluOp) (operand : Operand) (src dst : Reg) (imm : Int) :
    List Encoded :=
  let mul : Bool := op = .mul
  let div : Bool := op = .div
  let mod : Bool := op = .mod
  if operand = .imm ∧ imm = 0 then
    if div || mul then [.bin .xor false dst dst] else [.bin .mov true dst dst]
  else
    codeIf (dst ≠ rax) [.push rax] ++ codeIf (dst ≠ rdx) [.push rdx] ++
    [divisorCode operand src imm] ++ [.bin .mov true dst rax] ++
    codeIf (div || mod) (guardCode is64 mod) ++ [mulOrDiv is64 mul] ++
    codeIf (div || mod) (correctCode div) ++
    codeIf (dst ≠ rdx) (codeIf mod [.bin .mov true rdx dst] ++ [.pop rdx]) ++
    codeIf (dst ≠ rax) (codeIf (div || mul) [.bin .mov true rax dst] ++ [.pop rax])

def aluCode (is64 : Bool) (op : AluOp) (operand : Operand) (src dst : Reg) (imm : Int) :
    List Encoded :=
  match op, operand with
  | .add, .imm => [.binImm .add is64 imm dst]
  | .add, .reg => [.bin .add is64 src dst]
  | .sub, .imm => [.binImm .sub is64 imm dst]
  | .sub, .reg => [.bin .sub is64 src dst]
  | .mul, _ | .div, _ | .mod, _ => mulDivCode is64 op operand src dst imm
  | .or, .imm => [.binImm .or is64 imm dst]
  | .or, .reg => [.bin .or is64 src dst]
  | .and, .imm => [.binImm .and is64 imm dst]
  | .and, .reg => [.bin .and is64 src dst]
  | .lsh, .imm => [.shiftImm .shl is64 imm dst]
  | .lsh, .reg => [.bin .mov true src rcx, .shiftCl .shl is64 dst]
  | .rsh, .imm => [.shiftImm .shr is64 imm dst]
  | .rsh, .reg => [.bin .mov true src rcx, .shiftCl .shr is64 dst]
  | .neg, _ => [.neg is64 dst]
  | .xor, .imm => [.binImm .xor is64 imm dst]
  | .xor, .reg => [.bin .xor is64 src dst]
  | .mov, .imm => if is64 then [.loadImm dst imm] else [.movImm false imm dst]
  | .mov, .reg => [.bin .mov true src dst]
  | .arsh, .imm => [.shiftImm .sar is64 imm dst]
  | .arsh, .reg => [.bin .mov true src rcx, .shiftCl .sar is64 dst]

theorem appends_cmove (modrm : Nat) :
    AppendsBytes (emitCmove modrm) [0x48, 0x0f, 0x44, UInt8.ofNat modrm] := by
  have hall := (((appends_emit1 0x48).comp (appends_emit1 0x0f)).comp (appends_emit1 0x44)).comp
    (appends_emit1 modrm)
  exact hall

theorem emits_guard (is64 mod : Bool) : Emits (muldivmodGuard is64 mod) (guardCode is64 mod) := by
  have htest : Emits (emitAlu is64 0x85 rcx rcx) [.bin .test is64 rcx rcx] :=
    emits_bin .test is64 0x85 rcx rcx rfl
  have hpushfq : Emits (emit1 0x9c) [.pushfq] := appends_emit1 0x9c
  have hcmove : Emits (emitCmove 0xca) [.cmoveOne] := appends_cmove 0xca
  have hxor : Emits (emitAlu32 0x31 rdx rdx) [.bin .xor false rdx rdx] :=
    emits_bin .xor false 0x31 rdx rdx rfl
  have hall := (htest.comp (Emits.emitIf mod (emits_push rax))).comp
    (hpushfq.cons ((emits_loadImm rdx 1).cons (hcmove.cons hxor)))
  exact hall

theorem emits_correct (div : Bool) : Emits (muldivmodCorrect div) (correctCode div) := by
  have hpopfq : Emits (emit1 0x9d) [.popfq] := appends_emit1 0x9d
  cases div with
  | true =>
      have hcmove : Emits (emitCmove 0xc1) [.cmoveQuotient] := appends_cmove 0xc1
      have hall := hpopfq.cons ((emits_loadImm rcx 0).cons hcmove)
      intro s h
      simp only [muldivmodCorrect, correctCode, if_true] at h ⊢
      exact hall s h
  | false =>
      have hcmove : Emits (emitCmove 0xd1) [.cmoveRemainder] := appends_cmove 0xd1
      have hall := hpopfq.cons ((emits_pop rcx).cons hcmove)
      intro s h
      simp only [muldivmodCorrect, correctCode, Bool.false_eq_true, if_false] at h ⊢
      exact hall s h

theorem emits_mulDiv (is64 : Bool) (op : AluOp) (operand : Operand) (src dst : Reg) (imm : Int) :
    Emits (muldivmod is64 op operand src dst imm) (mulDivCode is64 op operand src dst imm) := by
  by_cases hzero : operand = .imm ∧ imm = 0
  · intro s h
    simp only [muldivmod, mulDivCode, hzero, and_self, if_true] at h ⊢
    split
    next hc =>
      rw [if_pos hc] at h
      exact emits_bin .xor false 0x31 dst dst rfl s h
    next hc =>
      rw [if_neg hc] at h
      exact emits_mov dst dst s h
  · have hdivisor : Emits (muldivmodOperand operand src imm) [divisorCode operand src imm] := by
      cases operand with
      | imm => exact emits_loadImm rcx imm
      | reg => exact emits_mov src rcx
    have hop : Emits (fun s => emitAlu32 0xf7 (if decide (op = .mul) then 4 else 6) rcx
        (emitIf is64 (emitRex true false false false) s))
        [mulOrDiv is64 (decide (op = .mul))] := by
      by_cases hmul : op = .mul
      · simp only [hmul, decide_true, if_true]
        exact appends_mulDiv is64 4 rfl
      · simp only [hmul, decide_false, Bool.false_eq_true, if_false]
        exact appends_mulDiv is64 6 rfl
    have hremainder := (Emits.emitIf (decide (op = .mod)) (emits_mov rdx dst)).comp
      (emits_pop rdx)
    have hquotient := (Emits.emitIf (decide (op = .div) || decide (op = .mul))
      (emits_mov rax dst)).comp (emits_pop rax)
    have hall := ((((((((Emits.emitIf (dst ≠ rax) (emits_push rax)).comp
      (Emits.emitIf (dst ≠ rdx) (emits_push rdx))).comp hdivisor).comp (emits_mov dst rax)).comp
      (Emits.emitIf (decide (op = .div) || decide (op = .mod))
        (emits_guard is64 (decide (op = .mod))))).comp hop).comp
      (Emits.emitIf (decide (op = .div) || decide (op = .mod))
        (emits_correct (decide (op = .div))))).comp
      (Emits.emitIf (dst ≠ rdx) hremainder)).comp (Emits.emitIf (dst ≠ rax) hquotient)
    intro s h
    simp only [muldivmod, mulDivCode, hzero, if_false] at h ⊢
    exact hall s h

theorem emits_alu (is64 : Bool) (op : AluOp) (operand : Operand) (src dst : Reg) (imm : Int) :
    Emits (emitAluInst is64 op operand src dst imm) (aluCode is64 op operand src dst imm) := by
  cases op with
  | add =>
      cases operand with
      | imm => exact emits_binImm .add is64 dst imm
      | reg => exact emits_bin .add is64 0x01 src dst rfl
  | sub =>
      cases operand with
      | imm => exact emits_binImm .sub is64 dst imm
      | reg => exact emits_bin .sub is64 0x29 src dst rfl
  | mul => exact emits_mulDiv is64 .mul operand src dst imm
  | div => exact emits_mulDiv is64 .div operand src dst imm
  | or =>
      cases operand with
      | imm => exact emits_binImm .or is64 dst imm
      | reg => exact emits_bin .or is64 0x09 src dst rfl
  | and =>
      cases operand with
      | imm => exact emits_binImm .and is64 dst imm
      | reg => exact emits_bin .and is64 0x21 src dst rfl
  | lsh =>
      cases operand with
      | imm => exact emits_shiftImm .shl is64 dst imm
      | reg => exact (emits_mov src rcx).comp (emits_shiftCl .shl is64 dst)
  | rsh =>
      cases operand with
      | imm => exact emits_shiftImm .shr is64 dst imm
      | reg => exact (emits_mov src rcx).comp (emits_shiftCl .shr is64 dst)
  | neg => exact emits_neg is64 dst
  | mod => exact emits_mulDiv is64 .mod operand src dst imm
  | xor =>
      cases operand with
      | imm => exact emits_binImm .xor is64 dst imm
      | reg => exact emits_bin .xor is64 0x31 src dst rfl
  | mov =>
      cases operand with
      | imm =>
          cases is64 with
          | true => exact emits_loadImm dst imm
          | false => exact emits_movImm false dst imm
      | reg => exact emits_mov src dst
  | arsh =>
      cases operand with
      | imm => exact emits_shiftImm .sar is64 dst imm
      | reg => exact (emits_mov src rcx).comp (emits_shiftCl .sar is64 dst)

/-! ## Byte order and conditions -/

def leCode (dst : Reg) (imm : Int) : List Encoded :=
  if imm = 16 then [.binImm .and false 0xffff dst]
  else if imm = 32 then [.binImm .and false (-1) dst]
  else []

def beCode (dst : Reg) (imm : Int) : List Encoded :=
  if imm = 16 then [.rol16 8 dst, .binImm .and false 0xffff dst]
  else if imm = 32 ∨ imm = 64 then [.bswap (imm = 64) dst]
  else []

theorem emits_le (dst : Reg) (imm : Int) : Emits (emitLe dst imm) (leCode dst imm) := by
  intro s h
  simp only [emitLe, leCode] at h ⊢
  split
  next h16 =>
    rw [if_pos h16] at h
    exact emits_binImm .and false dst 0xffff s h
  next h16 =>
    rw [if_neg h16] at h
    split
    next h32 =>
      rw [if_pos h32] at h
      exact emits_binImm .and false dst (-1) s h
    next h32 =>
      rw [if_neg h32] at h
      exact Extends.refl s h

theorem emits_be (dst : Reg) (imm : Int) : Emits (emitBe dst imm) (beCode dst imm) := by
  intro s h
  simp only [emitBe, beCode] at h ⊢
  split
  next h16 =>
    rw [if_pos h16] at h
    exact (emits_rol16 8 dst).cons (emits_binImm .and false dst 0xffff) s h
  next h16 =>
    rw [if_neg h16] at h
    split
    next hswap =>
      rw [if_pos hswap] at h
      exact emits_bswap (imm = 64) dst s h
    next hswap =>
      rw [if_neg hswap] at h
      exact Extends.refl s h

/-- The condition of the processor for a condition of the program. -/
def condOfJmp : JmpCond → Cond
  | .eq => .e
  | .gt => .a
  | .ge => .ae
  | .set => .ne
  | .ne => .ne
  | .sgt => .g
  | .sge => .ge
  | .lt => .b
  | .le => .be
  | .slt => .l
  | .sle => .le

theorem jccCode_code (cond : JmpCond) : UInt8.ofNat (jccCode cond) = (condOfJmp cond).code := by
  cases cond
  all_goals rfl

def compareCode (is64 : Bool) (cond : JmpCond) (operand : Operand) (src dst : Reg) (imm : Int) :
    Encoded :=
  match cond, operand with
  | .set, .imm => .testImm is64 imm dst
  | .set, .reg => .bin .test is64 src dst
  | _, .imm => .binImm .cmp is64 imm dst
  | _, .reg => .bin .cmp is64 src dst

theorem emits_compare (is64 : Bool) (cond : JmpCond) (operand : Operand) (src dst : Reg)
    (imm : Int) : Emits (emitCondition is64 cond operand src dst imm)
      [compareCode is64 cond operand src dst imm] := by
  cases operand with
  | imm =>
      cases cond with
      | set => exact emits_testImm is64 dst imm
      | _ => exact emits_binImm .cmp is64 dst imm
  | reg =>
      cases cond with
      | set => exact emits_bin .test is64 0x85 src dst rfl
      | _ => exact emits_bin .cmp is64 0x39 src dst rfl

/-! ## Calls -/

def localCallCode (pc : Nat) : List Encoded :=
  [.subUsage, .push (mapRegister 6), .push (mapRegister 7), .push (mapRegister 8),
    .push (mapRegister 9), .localCall pc, .pop (mapRegister 9), .pop (mapRegister 8),
    .pop (mapRegister 7), .pop (mapRegister 6), .addUsage]

theorem emits_subUsage : Emits (fun s => emit1 0x24 (emit1 0x3c (emit1 0x2b (emit1 0x4c s))))
    [.subUsage] := by
  have hall := (((appends_emit1 0x4c).comp (appends_emit1 0x2b)).comp (appends_emit1 0x3c)).comp
    (appends_emit1 0x24)
  exact hall

theorem emits_addUsage : Emits (fun s => emit1 0x24 (emit1 0x3c (emit1 0x03 (emit1 0x4c s))))
    [.addUsage] := by
  have hall := (((appends_emit1 0x4c).comp (appends_emit1 0x03)).comp (appends_emit1 0x3c)).comp
    (appends_emit1 0x24)
  exact hall

theorem emits_callLocal (pc : Nat) : Emits (emitLocalCall pc) (localCallCode pc) := by
  have hafter := (emits_pop (mapRegister 9)).cons ((emits_pop (mapRegister 8)).cons
    ((emits_pop (mapRegister 7)).cons ((emits_pop (mapRegister 6)).cons emits_addUsage)))
  have hall := emits_subUsage.cons ((emits_push (mapRegister 6)).cons
    ((emits_push (mapRegister 7)).cons ((emits_push (mapRegister 8)).cons
    ((emits_push (mapRegister 9)).cons ((emits_localCall pc).cons hafter)))))
  exact hall

/-- Up to the jump over the default dispatcher. -/
def dispatchCode : List Encoded :=
  [.push r11, .push r11, .loadDispatcher, .binImm .cmp true 0 rax]

theorem rax_isBase : (rax : Reg).val % 8 ≠ 4 := by decide

/-- The default dispatcher. The jump at its end goes nowhere. -/
def defaultCode (idx : Nat) : List Encoded :=
  [.movImm false idx rax, .shiftImm .shl true 3 rax, .leaTable, .bin .add true r10 rax,
    .load .s64 rax rax 0 rax_isBase, .bin .mov true r11 r9]

/-- What comes before the call whichever way it was reached, although only an
    external dispatcher was meant to see the index. -/
def convergeCode (idx : Nat) : List Encoded :=
  [.loadImm r9 idx, .callRax, .pop r11, .pop r11]

def helperCode (off idx : Nat) : List Encoded :=
  dispatchCode ++ .jcc .ne 0 (off + 55) :: (defaultCode idx ++ .jmpNext :: convergeCode idx)

theorem emits_dispatch : Emits emitLookupDispatcher dispatchCode := by
  have hall := (emits_push r11).cons ((emits_push r11).cons (emits_loadDispatcher.cons
    (emits_binImm .cmp true rax 0)))
  exact hall

theorem u32_natCast (n : Nat) (h : n < 2 ^ 32) : u32 n = n := by
  rw [u32]
  omega

theorem emits_default (idx : Nat) (h : idx < 2 ^ 32) :
    Emits (emitDefaultDispatcher idx) (defaultCode idx) := by
  have hmov : Emits (fun s => emit4 idx (emitAlu32 0xc7 0 rax s)) [.movImm false idx rax] := by
    intro s hs
    have hmov := emits_movImm false rax idx s
    simp only [emitAluImm32, u32_natCast idx h] at hmov
    exact hmov hs
  have hall := hmov.cons ((emits_shiftImm .shl true rax 3).cons (emits_leaTable.cons
    ((emits_bin .add true 0x01 r10 rax rfl).cons ((emits_load .s64 rax rax 0 rax_isBase).cons
    (emits_mov r11 r9)))))
  exact hall

theorem emits_converge : Emits (fun s => emitPop r11 (emitPop r11 (emit1 0xd0 (emit1 0xff s))))
    [.callRax, .pop r11, .pop r11] := by
  have hcall : Emits (fun s => emit1 0xd0 (emit1 0xff s)) [.callRax] := by
    have hall := (appends_emit1 0xff).comp (appends_emit1 0xd0)
    exact hall
  have hall := hcall.cons ((emits_pop r11).cons (emits_pop r11))
  exact hall

theorem emits_jmpNext : Emits (fun s => emit4byteOffsetPlaceholder (emit1 0xe9 s)) [.jmpNext] := by
  have hall := (appends_emit1 0xe9).comp (appends_emit4 0)
  exact hall

theorem length_dispatch : codeLength dispatchCode = 18 := rfl

/-- The default dispatcher with the jump over it. -/
def defaultPart (dest idx : Nat) : List Encoded :=
  dispatchCode ++ .jcc .ne 0 dest :: (defaultCode idx ++ [.jmpNext])

/-- The translator goes back to the jump over the default dispatcher. -/
theorem extends_skipDefault {s s' : JitState} (idx : Nat)
    (h : Extends s s' (pieces (defaultPart 0 idx))) (hs : Placed s) :
    Extends s (s'.redirect (s.offset + 20) (s.offset + 55))
      (pieces (defaultPart (s.offset + 55) idx)) := by
  rw [defaultPart, pieces_append] at h ⊢
  have hlen : (layout (pieces dispatchCode)).length = 18 := length_dispatch
  have hfixed := h.toGains.fixup (Encoded.jcc .ne 0 0).piece ⟨0, 0, false⟩ (s.offset + 55) hs
    rfl Nat.two_pos (Nat.succ_pos 3)
  rw [hlen] at hfixed
  exact ⟨hfixed, h.marks⟩

/-- The translator notes the end of the default dispatcher for a jump that is
    in no table. -/
theorem extends_skipExternal {s s' : JitState} (target idx dest : Nat)
    (h : Extends s s' (pieces (defaultPart target idx ++ [.loadImm r9 idx]))) (hs : Placed s) :
    s'.redirect (s.offset + 51) dest = s' := by
  have hsplit : pieces (defaultPart target idx ++ [.loadImm r9 idx]) =
      pieces (dispatchCode ++ .jcc .ne 0 target :: defaultCode idx) ++
        Encoded.jmpNext.piece :: pieces [.loadImm r9 idx] := by
    simp only [defaultPart, pieces, List.map_append, List.map_cons, List.map_nil,
      List.append_assoc, List.cons_append, List.nil_append]
  have hlen : (layout (pieces (dispatchCode ++ .jcc .ne 0 target :: defaultCode idx))).length =
      50 := rfl
  rw [hsplit] at h
  refine h.toGains.redirect_inside Encoded.jmpNext.piece _ _ hs rfl ?_ ?_
  · rw [hlen]
    omega
  · rw [hlen]
    exact Nat.lt_of_lt_of_eq (by omega : s.offset + 51 < s.offset + 50 + 5) rfl

/-- The call of a helper. -/
theorem emitsAt_helper (idx : Nat) (h : idx < 2 ^ 32) :
    EmitsAt (emitDispatchedExternalHelperCall idx) (fun off => helperCode off idx) := by
  intro s hok
  simp only [emitDispatchedExternalHelperCall, emitJumpTarget] at hok ⊢
  generalize hs1 : emitLookupDispatcher s = s1 at hok ⊢
  generalize hskip : emitJcc 0x85 0 s1 = skip at hok ⊢
  generalize hs3 : emitDefaultDispatcher idx skip.2 = s3 at hok ⊢
  generalize hs4 : emit4byteOffsetPlaceholder (emit1 0xe9 s3) = s4 at hok ⊢
  generalize hs5 : emitLoadImm r9 idx (s4.redirect skip.1 s4.offset) = s5 at hok ⊢
  -- Backwards, each part succeeded, so each has appended its listing.
  have hlast := emits_converge _ hok
  have hload := emits_loadImm r9 idx (s4.redirect skip.1 s4.offset) (hs5 ▸ hlast.before)
  rw [hs5] at hload
  have hok4 : (emit4byteOffsetPlaceholder (emit1 0xe9 s3)).jitStatus = .noError := by
    rw [hs4]
    exact hload.before
  have hplain := emits_jmpNext s3 hok4
  have hdefault := emits_default idx h skip.2 (hs3 ▸ hplain.before)
  have hokSkip : (emitJcc 0x85 0 s1).2.jitStatus = .noError := by
    rw [hskip]
    exact hdefault.before
  have hjcc := emits_jcc .ne 0x85 0 rfl s1 hokSkip
  have hloc := emitJcc_loc 0x85 0 s1 hokSkip
  have hdispatch := emits_dispatch s (hs1 ▸ hjcc.before)
  rw [hs1] at hdispatch
  rw [hskip] at hloc
  simp only [hskip] at hjcc
  simp only [hs4] at hplain
  rw [hs3] at hdefault
  have hbefore := hdispatch.trans (hjcc.trans hdefault)
  have hupto : Extends s s4 (pieces (defaultPart 0 idx)) :=
    hdispatch.trans (hjcc.trans (hdefault.trans hplain))
  have hsrc : skip.1 = s.offset + 20 := by
    rw [hloc, hdispatch.offset]
    rfl
  have hdest : s4.offset = s.offset + 55 := by
    rw [hupto.offset]
    rfl
  refine ⟨hdispatch.before, fun hs => ?_⟩
  have hskipped := extends_skipDefault idx hupto hs
  rw [hsrc, hdest] at hload
  have hloaded : Extends s s5
      (pieces (defaultPart (s.offset + 55) idx ++ [.loadImm r9 idx])) := by
    rw [pieces_append]
    exact hskipped.trans hload
  have hexternal : (emit1 0xe9 s3).offset = s.offset + 51 := by
    rw [(appends_emit1 0xe9 s3 (appends_emit4 0 _ hok4).before).offset, hbefore.offset]
    rfl
  rw [hexternal, extends_skipExternal _ idx _ hloaded hs] at hlast ⊢
  have hall := hloaded.trans hlast
  have hcode : pieces (helperCode s.offset idx) =
      pieces (defaultPart (s.offset + 55) idx ++ [.loadImm r9 idx]) ++
        pieces [.callRax, .pop r11, .pop r11] := by
    simp only [helperCode, convergeCode, defaultPart, pieces, List.map_append, List.map_cons,
      List.map_nil, List.append_assoc, List.cons_append, List.nil_append]
  rw [hcode]
  exact hall

/-! ## One instruction of the program -/

/-- After a call of the helper that may unwind. -/
def unwindCode (program : ProgramView) (inst : EbpfInst) : List Encoded :=
  if program.unwindStackExtensionIndex = some inst.imm.toNat then
    [.binImm .cmp true 0 (mapRegister 0), .jcc .e targetPcExit 0]
  else []

def callCode (program : ProgramView) (i off : Nat) (inst : EbpfInst) : List Encoded :=
  if inst.src = 0 then
    .bin .mov true rcxAlt rcx :: (helperCode (off + 3) (u32 inst.imm) ++ unwindCode program inst)
  else if inst.src = 1 then localCallCode (targetPc i inst.imm)
  else []

def instCode (program : ProgramView) (i off : Nat) (inst : EbpfInst) (op : Opcode) :
    List Encoded :=
  let dst := mapRegister inst.dst
  let src := mapRegister inst.src
  match op with
  | .alu is64 op operand => aluCode is64 op operand src dst inst.imm
  | .le => leCode dst inst.imm
  | .be => beCode dst inst.imm
  | .ja => [.jmp (targetPc i inst.offset) 0]
  | .jmp is64 cond operand =>
    [compareCode is64 cond operand src dst inst.imm,
      .jcc (condOfJmp cond) (targetPc i inst.offset) 0]
  | .call => callCode program i off inst
  | .exit => [.binImm .add true 8 rsp, .ret]
  | .ldx size =>
    if h : src.val % 8 ≠ 4 then [.load (.ofBytes size) src dst inst.offset h] else []
  | .st size =>
    if h : dst.val % 8 ≠ 4 then [.storeImm (.ofBytes size) dst inst.offset inst.imm h] else []
  | .stx size =>
    if h : dst.val % 8 ≠ 4 then [.store (.ofBytes size) src dst inst.offset h] else []
  | .lddw =>
    let next := (program.insts[i + 1]?).elim 0 EbpfInst.imm
    [.loadImm dst (toSigned 64 (u32 inst.imm ||| u32 next <<< 32))]

/-- The register an instruction uses as a base, if any, can be one. -/
def BaseOk (inst : EbpfInst) (op : Opcode) : Prop :=
  match op with
  | .ldx _ => (mapRegister inst.src).val % 8 ≠ 4
  | .st _ => (mapRegister inst.dst).val % 8 ≠ 4
  | .stx _ => (mapRegister inst.dst).val % 8 ≠ 4
  | _ => True

theorem emitsAt_external (program : ProgramView) (inst : EbpfInst) :
    EmitsAt (fun s => emitIf (program.unwindStackExtensionIndex = some inst.imm.toNat)
        (fun s => (emitJcc 0x84 targetPcExit (emitCmpImm32 true (mapRegister 0) 0 s)).2)
        (emitDispatchedExternalHelperCall (u32 inst.imm) (emitMov rcxAlt rcx s)))
      (fun off => .bin .mov true rcxAlt rcx ::
        (helperCode (off + 3) (u32 inst.imm) ++ unwindCode program inst)) := by
  have hunwind : Emits (emitIf (program.unwindStackExtensionIndex = some inst.imm.toNat)
      (fun s => (emitJcc 0x84 targetPcExit (emitCmpImm32 true (mapRegister 0) 0 s)).2))
      (unwindCode program inst) := by
    have hif := Emits.emitIf (program.unwindStackExtensionIndex = some inst.imm.toNat)
      ((emits_binImm .cmp true (mapRegister 0) 0).cons (emits_jcc .e 0x84 targetPcExit rfl))
    simp only [codeIf, decide_eq_true_eq] at hif
    exact hif
  have hall := ((emits_mov rcxAlt rcx).at.comp (emitsAt_helper (u32 inst.imm) (u32_lt _))).comp
    hunwind.at
  exact hall

theorem emitsAt_call (program : ProgramView) (i : Nat) (inst : EbpfInst) :
    EmitsAt (emitCallInst program i inst) (fun off => callCode program i off inst) := by
  intro s hok
  by_cases hext : inst.src = 0
  · have hall := emitsAt_external program inst s
    simp only [emitIf, decide_eq_true_eq] at hall
    simp only [emitCallInst, callCode, hext, if_true] at hok ⊢
    exact hall hok
  · by_cases hlocal : inst.src = 1
    · simp only [emitCallInst, callCode, if_neg hext, if_pos hlocal] at hok ⊢
      exact (emits_callLocal (targetPc i inst.imm)).at s hok
    · simp only [emitCallInst, callCode, hext, hlocal, if_false] at hok ⊢
      exact ⟨hok, fun _ => Extends.refl s hok⟩

/-- What the switch of the translator emits. -/
theorem emitsAt_inst (program : ProgramView) (i : Nat) (inst : EbpfInst) (op : Opcode)
    (hbase : BaseOk inst op) :
    EmitsAt (emitInst program i inst op) (fun off => instCode program i off inst op) := by
  cases op with
  | alu is64 op operand => exact (emits_alu is64 op operand _ _ inst.imm).at
  | le => exact (emits_le _ inst.imm).at
  | be => exact (emits_be _ inst.imm).at
  | ldx size =>
      simp only [BaseOk] at hbase
      have hload := emits_load (.ofBytes size) (mapRegister inst.src) (mapRegister inst.dst)
        inst.offset hbase
      simp only [instCode, dif_pos hbase]
      exact hload.at
  | st size =>
      simp only [BaseOk] at hbase
      have hstore := emits_storeImm (.ofBytes size) (mapRegister inst.dst) inst.offset inst.imm
        hbase
      simp only [instCode, dif_pos hbase]
      exact hstore.at
  | stx size =>
      simp only [BaseOk] at hbase
      have hstore := emits_store (.ofBytes size) (mapRegister inst.src) (mapRegister inst.dst)
        inst.offset hbase
      simp only [instCode, dif_pos hbase]
      exact hstore.at
  | lddw => exact (emits_loadImm _ _).at
  | ja => exact (emits_jmp _).at
  | jmp is64 cond operand =>
      have hall := (emits_compare is64 cond operand (mapRegister inst.src) (mapRegister inst.dst)
        inst.imm).cons (emits_jcc (condOfJmp cond) (jccCode cond) (targetPc i inst.offset)
          (jccCode_code cond))
      exact hall.at
  | call => exact emitsAt_call program i inst
  | exit =>
      have hret : Emits emitRet [.ret] := appends_emit1 0xc3
      have hall := (emits_binImm .add true rsp 8).cons hret
      exact hall.at

/-- The truncation after a 32-bit operation. -/
def truncateCode (inst : EbpfInst) : List Encoded :=
  codeIf (inst.opcode % 8 = 4 ∧ inst.opcode / 16 ≠ 0xd)
    [.binImm .and false (-1) (mapRegister inst.dst)]

theorem emits_truncate (inst : EbpfInst) :
    Emits (emitIf (inst.opcode % 8 = 4 ∧ inst.opcode / 16 ≠ 0xd)
      (emitTruncateU32 (mapRegister inst.dst))) (truncateCode inst) :=
  Emits.emitIf _ (emits_binImm .and false (mapRegister inst.dst) (-1))

/-! ## The start of a function -/

def prologCode (usage : Nat) : List Encoded := [.binImm .sub true 8 rsp, .storeUsage usage]

theorem length_prolog (usage : Nat) : codeLength (prologCode usage) = 15 := rfl

def startCode (program : ProgramView) (i off : Nat) : List Encoded :=
  if program.fallsInto i then
    .nearJmp 0 (off + 17) :: prologCode (program.usageAt i)
  else if i = 0 ∨ program.isLocalFunc i then prologCode (program.usageAt i)
  else []

/-- The size of the prolog, once there has been one. -/
def withProlog (m : Marks) : Marks :=
  { m with prologSize := if m.prologSize = 0 then 15 else m.prologSize }

theorem emits_prolog (usage : Nat) : Emits (emitPrologCode usage) (prologCode usage) := by
  have hstore : Emits (fun s => emit4 usage (emit1 0x24 (emit1 0x04 (emit1 0xc7 (emit1 0x48 s)))))
      [.storeUsage usage] := by
    have hall := ((((appends_emit1 0x48).comp (appends_emit1 0xc7)).comp
      (appends_emit1 0x04)).comp (appends_emit1 0x24)).comp (appends_emit4 usage)
    exact hall
  have hall := (emits_binImm .sub true rsp 8).cons hstore
  exact hall

theorem gains_prolog (usage : Nat) (s : JitState) (h : (emitProlog usage s).jitStatus = .noError) :
    Gains s (emitProlog usage s) (pieces (prologCode usage)) ∧
      (emitProlog usage s).marks = withProlog s.marks := by
  have hemits := emits_prolog usage s
  simp only [emitProlog] at h ⊢
  generalize emitPrologCode usage s = s' at h hemits ⊢
  have hstatus : s'.jitStatus = .noError := by
    split at h
    next => exact h
    next => exact h
  have hext := hemits hstatus
  have hsize : s'.bpfFunctionPrologSize = s.bpfFunctionPrologSize :=
    congrArg Marks.prologSize hext.marks
  have hlen : s'.offset - s.offset = 15 := by
    have hoff := hext.offset
    have hlen : (layout (pieces (prologCode usage))).length = 15 := length_prolog usage
    rw [pieces] at hlen
    rw [hlen] at hoff
    omega
  by_cases hzero : s.bpfFunctionPrologSize = 0
  · rw [if_pos (hsize.trans hzero), hlen]
    refine ⟨⟨hext.before, hext.status, hext.buf, hext.table, hext.fits⟩, ?_⟩
    have hmarks := congrArg (fun m : Marks => { m with prologSize := 15 }) hext.marks
    rw [withProlog, if_pos (show s.marks.prologSize = 0 from hzero)]
    exact hmarks
  · rw [if_neg (fun h => hzero (hsize.symm.trans h))]
    refine ⟨hext.toGains, ?_⟩
    rw [withProlog, if_neg (show s.marks.prologSize ≠ 0 from hzero)]
    exact hext.marks

/-- What comes before the switch. -/
theorem gains_start (program : ProgramView) (i : Nat) (s : JitState)
    (h : (emitFunctionStart program i s).jitStatus = .noError) :
    s.jitStatus = .noError ∧ (Placed s →
      Gains s (emitFunctionStart program i s) (pieces (startCode program i s.offset)) ∧
      (emitFunctionStart program i s).marks =
        if i = 0 ∨ program.isLocalFunc i then withProlog s.marks else s.marks) := by
  by_cases hfalls : program.fallsInto i = true
  · have hlocal : i = 0 ∨ program.isLocalFunc i = true := by
      simp only [ProgramView.fallsInto, Bool.and_eq_true] at hfalls
      exact Or.inr hfalls.1.2
    simp only [emitFunctionStart, hfalls, if_true, emitJumpTarget, hlocal, startCode] at h ⊢
    generalize hjmp : emitNearJmp 0 s = jmp at h ⊢
    generalize hs' : emitProlog (program.usageAt i) jmp.2 = s' at h ⊢
    have hprolog := gains_prolog (program.usageAt i) jmp.2 (by rw [hs']; exact h)
    have hok : (emitNearJmp 0 s).2.jitStatus = .noError := by
      rw [hjmp]
      exact hprolog.1.before
    have hnear := emits_nearJmp 0 s hok
    have hloc := emitNearJmp_loc 0 s hok
    rw [hjmp] at hloc
    simp only [hjmp] at hnear
    rw [hs'] at hprolog
    refine ⟨hnear.before, fun hs => ?_⟩
    have hall : Gains s s' ([] ++ (Encoded.nearJmp 0 0).piece ::
      pieces (prologCode (program.usageAt i))) := hnear.toGains.trans hprolog.1
    have hfixed := hall.fixup (Encoded.nearJmp 0 0).piece ⟨0, 0, true⟩ (s.offset + 17) hs
      rfl (Nat.succ_pos 0) (Nat.succ_pos 0)
    have hoff : s'.offset = s.offset + 17 := by
      rw [hall.offset]
      rfl
    rw [hloc, hoff]
    refine ⟨hfixed, ?_⟩
    exact hprolog.2.trans (congrArg withProlog hnear.marks)
  · by_cases hlocal : i = 0 ∨ program.isLocalFunc i = true
    · simp only [emitFunctionStart, hfalls, if_false, hlocal, if_true, startCode,
        Bool.false_eq_true] at h ⊢
      have hprolog := gains_prolog (program.usageAt i) s h
      exact ⟨hprolog.1.before, fun _ => hprolog⟩
    · simp only [emitFunctionStart, hfalls, hlocal, if_false, startCode, Bool.false_eq_true] at h ⊢
      exact ⟨h, fun _ => ⟨(Extends.refl s h).toGains, trivial⟩⟩

end UniBPF
