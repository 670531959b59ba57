import UniBPF.Theory.NativeSteps

/-!
# Calls in Compiled Code

Local calls and returns. A call saves four registers on the stack, pushes the
address to return to and goes to the prolog of the function, which pushes the
stack usage. A return takes the usage off and comes back to the rest of the
caller's code, where the registers are taken off again.

The interpreter keeps a frame for each call that has not returned. The code
keeps nothing that would limit how many there are.

## Theorems

* `InPlace.advances_local`: A local call.
* `InPlace.advances_return`: A return from one.
* `InPlace.leaves`: The last return.
-/

namespace UniBPF

open LittleEndian X86 Relocations

section Calls

variable {t : Site} {program : ProgramView} {mode : JitMode} {fp : Word} {s : ExecState} {a : Abs}
  {host : HostAddresses} {size : Nat}

/-- The word on top is a stack usage of 0. -/
theorem frameWords_head (t : Site) (program : ProgramView) (mode : JitMode)
    (frames : Nat → StackFrame) (d : Nat) :
    ∃ rest, frameWords t program mode frames d = 0 :: rest := by
  cases d with
  | zero => exact ⟨_, rfl⟩
  | succ d => exact ⟨_, rfl⟩

/-- Taking the usage off the frame pointer, or adding it, changes nothing. -/
theorem computes_usage (e : Encoded) (bop : BinOp) (c : Cpu) (rest : List Word)
    (hop : IsOp e (.binMem bop stackTop r15)) (hresult : ∀ x : Word, bop.result x 0 = some x) :
    ∃ f, Computes [e] ⟨c, 0 :: rest⟩ ⟨{ c with flags := f }, 0 :: rest⟩ := by
  refine ⟨bop.flags (c.regs r15) 0 c.flags,
    Computes.one (.binMem bop stackTop r15) hop ⟨rfl, by decide⟩ ?_⟩
  simp only [Op.run, Abs.binTop, Cpu.bin, if_true, hresult, Function.update_eq_self]

/-- The registers a local call saves. -/
theorem computes_saves (c : Cpu) (rest : List Word) :
    ∃ f, Computes [.subUsage, .push (mapRegister 6), .push (mapRegister 7), .push (mapRegister 8),
        .push (mapRegister 9)] ⟨c, 0 :: rest⟩
      ⟨{ c with flags := f }, c.regs (mapRegister 9) :: c.regs (mapRegister 8) ::
        c.regs (mapRegister 7) :: c.regs (mapRegister 6) :: 0 :: rest⟩ := by
  rcases computes_usage .subUsage .sub c rest (fun _ => rfl)
    (fun x => congrArg some (BitVec.sub_zero x)) with ⟨f, hsub⟩
  have hpush : ∀ n stack, Computes [.push (mapRegister n)] ⟨{ c with flags := f }, stack⟩
    ⟨{ c with flags := f }, c.regs (mapRegister n) :: stack⟩ :=
    fun n stack => computes_push (mapRegister n) ⟨_, stack⟩ (mapRegister_free n).1
  exact ⟨f, hsub.append ((hpush 6 _).append ((hpush 7 _).append ((hpush 8 _).append
    (hpush 9 _))))⟩

/-- Taking them back. -/
theorem computes_restores (c : Cpu) (v9 v8 v7 v6 : Word) (rest : List Word) :
    ∃ f, Computes [.pop (mapRegister 9), .pop (mapRegister 8), .pop (mapRegister 7),
        .pop (mapRegister 6), .addUsage] ⟨c, v9 :: v8 :: v7 :: v6 :: 0 :: rest⟩
      ⟨{ (((c.set (mapRegister 9) v9).set (mapRegister 8) v8).set (mapRegister 7) v7).set
        (mapRegister 6) v6 with flags := f }, 0 :: rest⟩ := by
  have h9 := computes_pop (mapRegister 9) c v9 (v8 :: v7 :: v6 :: 0 :: rest) (mapRegister_free 9).1
  generalize c.set (mapRegister 9) v9 = c9 at h9 ⊢
  have h8 := computes_pop (mapRegister 8) c9 v8 (v7 :: v6 :: 0 :: rest) (mapRegister_free 8).1
  generalize c9.set (mapRegister 8) v8 = c8 at h8 ⊢
  have h7 := computes_pop (mapRegister 7) c8 v7 (v6 :: 0 :: rest) (mapRegister_free 7).1
  generalize c8.set (mapRegister 7) v7 = c7 at h7 ⊢
  have h6 := computes_pop (mapRegister 6) c7 v6 (0 :: rest) (mapRegister_free 6).1
  generalize c7.set (mapRegister 6) v6 = c6 at h6 ⊢
  rcases computes_usage .addUsage .add c6 rest (fun _ => rfl)
    (fun x => congrArg some (BitVec.add_zero x)) with ⟨f, hadd⟩
  exact ⟨f, h9.append (h8.append (h7.append (h6.append hadd)))⟩

theorem usageAt_zero (program : ProgramView) (h : NoUsage program) (i : Nat) :
    program.usageAt i = 0 := by
  rw [ProgramView.usageAt]
  cases husage : program.stackUsage[i]? with
  | none => rfl
  | some entry =>
      cases entry with
      | none => rfl
      | some usage =>
          rw [h i usage husage]
          rfl

/-- The code of a local call, split at the call. -/
theorem localCallCode_eq (pc : Nat) : localCallCode pc =
    [.subUsage, .push (mapRegister 6), .push (mapRegister 7), .push (mapRegister 8),
      .push (mapRegister 9)] ++ (.localCall pc :: [.pop (mapRegister 9), .pop (mapRegister 8),
      .pop (mapRegister 7), .pop (mapRegister 6), .addUsage]) := rfl

/-- The state after a local call. -/
def calledState (s : ExecState) (imm : Int) : ExecState :=
  ({ s.setFrame s.frameIndex { s.frames s.frameIndex with
      savedRegisters := fun i => s.regs (6 + i)
      returnAddress := s.pc } with frameIndex := s.frameIndex + 1 }.setReg 10
        (s.regs 10 - BitVec.ofNat 64 (s.frames s.frameIndex).stackUsage)).jump imm

theorem localCall_running (s s' : ExecState) (imm : Int) (h : localCall s imm = .running s') :
    s.frameIndex < maxCallDepth ∧ s' = calledState s imm := by
  rw [localCall] at h
  split at h
  next => exact absurd h (by simp only [reduceCtorEq, not_false_eq_true])
  next hdepth => exact ⟨by omega, (ExecResult.running.inj h).symm⟩

/-- The relation after a local call. -/
theorem Related.called (hrel : Related t program mode fp s a) (i : Nat) (hs : s.pc = i + 1)
    (inst : EbpfInst) (hinst : program.insts[i]? = some inst)
    (hop : Opcode.decode inst.opcode = some .call) (hsrc : inst.src = 1)
    (hdepth : s.frameIndex < maxCallDepth) (f : Option Flags) :
    Related t program mode fp (calledState s inst.imm)
      ⟨{ a.cpu with flags := f }, 0 :: t.at (instAt program mode i + 16) ::
        a.cpu.regs (mapRegister 9) :: a.cpu.regs (mapRegister 8) :: a.cpu.regs (mapRegister 7) ::
        a.cpu.regs (mapRegister 6) :: a.stack⟩ := by
  have hother : ∀ d, d ≠ s.frameIndex → (calledState s inst.imm).frames d = s.frames d :=
    fun d hd => Function.update_of_ne hd _ _
  have hnew : (calledState s inst.imm).frames s.frameIndex = { s.frames s.frameIndex with
      savedRegisters := fun i => s.regs (6 + i)
      returnAddress := i + 1 } := by
    rw [← hs]
    exact Function.update_self _ _ _
  -- The new words on the stack are those of the frame the interpreter pushes.
  refine ⟨fun r hr => ?_, hrel.mem, hrel.frame, ?_, fun d => ?_, hdepth, fun d hd => ?_⟩
  · by_cases h10 : r = 10
    · subst h10
      -- The frame pointer stays, since no stack usage is known.
      have hzero := hrel.usage s.frameIndex
      simp only [calledState, ExecState.jump, ExecState.setReg, Function.update_self, hzero]
      rw [hrel.regs 10 (le_refl 10), BitVec.sub_zero]
    · simp only [calledState, ExecState.jump, ExecState.setReg, Function.update_of_ne h10]
      exact hrel.regs r hr
  · have hrest : frameWords t program mode (calledState s inst.imm).frames s.frameIndex =
        a.stack := by
      rw [hrel.stack]
      exact frameWords_congr t program mode _ _ _ (fun d hd => hother d (by omega))
    have hwords : frameWords t program mode (calledState s inst.imm).frames
        (s.frameIndex + 1) = 0 :: t.at (instAt program mode i + 16) :: s.regs 9 :: s.regs 8 ::
          s.regs 7 :: s.regs 6 :: a.stack := by
      rw [frameWords, hrest, hnew]
      rfl
    rw [hrel.regs 9 (by omega), hrel.regs 8 (by omega), hrel.regs 7 (by omega),
      hrel.regs 6 (by omega)]
    exact hwords.symm
  · by_cases hd : d = s.frameIndex
    · rw [hd, hnew]
      exact hrel.usage s.frameIndex
    · rw [hother d hd]
      exact hrel.usage d
  · by_cases hlast : d = s.frameIndex
    · rw [hlast, hnew]
      exact ⟨i, inst, rfl, hinst, hop, hsrc⟩
    · have hlt : d < s.frameIndex := by
        have hsucc : d < s.frameIndex + 1 := hd
        omega
      rw [hother d hlast]
      exact hrel.returns d hlt

/-- A local call. -/
theorem InPlace.advances_local (ht : InPlace t host program size mode)
    (hrel : Related t program mode fp s a) (i : Nat) (hs : s.pc = i + 1) (inst : EbpfInst)
    (hinst : program.insts[i]? = some inst) (hop : Opcode.decode inst.opcode = some .call)
    (hok : InstOk program.insts i inst .call) (hsrc : inst.src = 1)
    (hdepth : s.frameIndex < maxCallDepth)
    (hnext : IsStart program.insts (calledState s inst.imm).pc) :
    Advances t program mode fp i (calledState s inst.imm) a := by
  have hroom := ht.room
  have hstack := hrel.length
  have hshort := ht.short
  have hfew := ht.validated.few
  have hformat := ht.validated.format inst (List.mem_of_getElem? hinst)
  have hstart := ht.validated.start_of_decodes i inst _ hinst hop
  have hlist := (ht.listed_body i inst _ hinst hstart hop).append.1
  have hbounds : 0 ≤ (i : Int) + 1 + inst.imm ∧
      (i : Int) + 1 + inst.imm < program.insts.length := by
    rcases hok.checked with hext | ⟨-, hlow, hhigh⟩
    · exact absurd (hsrc.symm.trans hext.1) (by decide)
    · omega
  -- Where the call goes, and that there is a function.
  rcases jump_target i program.insts.length inst.imm hfew hbounds with ⟨htarget, hpc⟩
  have hsame : (calledState s inst.imm).pc = targetPc i inst.imm := by
    rw [htarget, ← hpc, ← hs]
    rfl
  have hopcode : inst.opcode = 0x85 := (decode_call _ _ hformat.opcode hop).mpr rfl
  have hlocal : program.isLocalFunc (targetPc i inst.imm) = true := by
    have hmarked := ht.validated.called i inst (targetPc i inst.imm) hinst
      (by
        rw [localCallTarget, if_pos ⟨hopcode, hsrc⟩]
        rfl)
      (by rw [← hsame]; exact hnext.1)
    rw [ProgramView.isLocalFunc, hmarked]
    rfl
  rw [hsame] at hnext
  rcases ht.calls _ hnext hlocal with ⟨off, hdest, hprolog, hoff⟩
  have hcode : instCode program i (instAt program mode i) inst .call =
      localCallCode (targetPc i inst.imm) := by
    simp only [instCode, callCode, hsrc, one_ne_zero, if_false, if_true]
  rw [hcode, localCallCode_eq] at hlist
  rcases hlist.append with ⟨hsaves, hrest⟩
  -- The registers are saved, then the call is made, then the callee starts.
  rcases frameWords_head t program mode s.frames s.frameIndex with ⟨rest, hhead⟩
  have hzero : a.stack = 0 :: rest := hrel.stack.trans hhead
  rcases computes_saves a.cpu rest with ⟨f, hcomp⟩
  rw [← hzero] at hcomp
  have hsaved := hcomp.runs t hsaves (show a.stack.length + 5 ≤ t.ground.room by omega)
  generalize hregs : (a.cpu.regs (mapRegister 9) :: a.cpu.regs (mapRegister 8) ::
    a.cpu.regs (mapRegister 7) :: a.cpu.regs (mapRegister 6) :: a.stack) = words at hsaved
  have hwords : words.length = a.stack.length + 4 := by rw [← hregs]; rfl
  have helf : codeLength [Encoded.subUsage, .push (mapRegister 6), .push (mapRegister 7),
    .push (mapRegister 8), .push (mapRegister 9)] = 11 := rfl
  rw [helf] at hsaved hrest
  have hplace := ht.instAt_le _ hnext
  have hend := hrest.bound (by
    have hbound := hsaves.bound (ht.instAt_le i hstart)
    rw [helf] at hbound
    exact hbound)
  have hcall := Site.Runs.localCall t ⟨{ a.cpu with flags := f }, words⟩ (targetPc i inst.imm)
    hrest.1 hdest (by
      have hlen : 5 ≤ codeLength (Encoded.localCall (targetPc i inst.imm) ::
        [.pop (mapRegister 9), .pop (mapRegister 8), .pop (mapRegister 7), .pop (mapRegister 6),
          .addUsage]) := Nat.le_of_ble_eq_true rfl
      omega) (by omega) (lt_of_eq_of_lt hwords (by omega))
  rw [usageAt_zero program ht.validated.usage] at hprolog
  rcases Site.Runs.prolog t ⟨{ a.cpu with flags := f },
    t.at (instAt program mode i + 11 + 5) :: words⟩ 0 hprolog
    (lt_of_eq_of_lt (congrArg (· + 1) hwords) (by omega)) with ⟨f', hstarted⟩
  rw [hoff] at hstarted
  refine ⟨_, hrel.called i hs inst hinst hop hsrc hdepth f', ?_⟩
  rw [hsame, hregs]
  exact hsaved.trans (hcall.trans hstarted)

/-- The rest of a local call, from where the call returns to. -/
theorem InPlace.resumes (ht : InPlace t host program size mode) (pc : Nat)
    (hcall : AfterCall program pc) (hnext : IsStart program.insts pc) (c : Cpu)
    (v9 v8 v7 v6 : Word) (rest : List Word)
    (hroom : (v9 :: v8 :: v7 :: v6 :: 0 :: rest).length ≤ 80) :
    ∃ f, t.Runs (returnAt program mode pc) ⟨c, v9 :: v8 :: v7 :: v6 :: 0 :: rest⟩
      (instAt program mode pc)
      ⟨{ (((c.set (mapRegister 9) v9).set (mapRegister 8) v8).set (mapRegister 7) v7).set
        (mapRegister 6) v6 with flags := f }, 0 :: rest⟩ := by
  have hwide := ht.room
  -- The return address is in the middle of the code of the call.
  rcases hcall with ⟨j, inst, rfl, hinst, hop, hsrc⟩
  have hformat := ht.validated.format inst (List.mem_of_getElem? hinst)
  have hstart := ht.validated.start_of_decodes j inst _ hinst hop
  have hlist := ht.listed_body j inst _ hinst hstart hop
  have hunit := unitAt_succ program mode j inst _ hinst hstart hop
  have hcode : instCode program j (instAt program mode j) inst .call ++ truncateCode inst =
      localCallCode (targetPc j inst.imm) := by
    rw [truncateCode_none inst _ hformat.opcode hop rfl, List.append_nil]
    simp only [instCode, callCode, hsrc, one_ne_zero, if_false, if_true]
  rw [hcode, localCallCode_eq] at hlist hunit
  have hrest := hlist.append.2.2
  rcases computes_restores c v9 v8 v7 v6 rest with ⟨f, hcomp⟩
  have hrun := hcomp.runs t hrest
    (show (v9 :: v8 :: v7 :: v6 :: 0 :: rest).length + 5 ≤ t.ground.room by omega)
  rw [codeLength_append] at hunit
  have hfive : ∀ es, codeLength (Encoded.localCall (targetPc j inst.imm) :: es) =
    5 + codeLength es := by
    intro es
    rw [codeLength, pieces, List.map_cons, layout_cons, List.length_append]
    rfl
  rw [hfive] at hunit
  refine ⟨f, ?_⟩
  have hplace : instAt program mode j + codeLength [Encoded.subUsage, .push (mapRegister 6),
    .push (mapRegister 7), .push (mapRegister 8), .push (mapRegister 9)] +
      (Encoded.localCall (targetPc j inst.imm)).size = returnAt program mode (j + 1) := rfl
  rw [hplace] at hrun
  have hdone : returnAt program mode (j + 1) + codeLength [Encoded.pop (mapRegister 9),
      .pop (mapRegister 8), .pop (mapRegister 7), .pop (mapRegister 6), .addUsage] =
      unitAt program mode (j + 1) := by
    rw [hunit, ← hplace]
    have hsize : (Encoded.localCall (targetPc j inst.imm)).size = 5 := rfl
    rw [hsize]
    omega
  rw [hdone] at hrun
  exact hrun.trans (ht.next j inst _ hinst hop (by simp only [ne_eq, reduceCtorEq,
    not_false_eq_true]) hnext _)

/-- The relation after a return. -/
theorem Related.returned (hrel : Related t program mode fp s a) (d : Nat)
    (hd : s.frameIndex = d + 1) (c : Cpu) (f : Option Flags) (hregs : c.regs = a.cpu.regs)
    (hmem : c.mem = a.cpu.mem) :
    Related t program mode fp (localReturn s)
      ⟨{ (((c.set (mapRegister 9) ((s.frames d).savedRegisters 3)).set (mapRegister 8)
        ((s.frames d).savedRegisters 2)).set (mapRegister 7) ((s.frames d).savedRegisters 1)).set
        (mapRegister 6) ((s.frames d).savedRegisters 0) with flags := f },
        frameWords t program mode s.frames d⟩ := by
  have hprev : s.frameIndex - 1 = d := by omega
  have hdepth := hrel.depth
  refine ⟨fun r hr => ?_, hmem.trans hrel.mem, ?_, ?_, hrel.usage, ?_, fun k hk => ?_⟩
  · have hreg : (localReturn s).regs r = if h : 6 ≤ r ∧ r < 10 then
        (s.frames d).savedRegisters ⟨r - 6, by omega⟩
      else if r = 10 then s.regs 10 + BitVec.ofNat 64 (s.frames d).stackUsage else s.regs r := by
      rw [← hprev]
      rfl
    have hbefore : c.regs (mapRegister r) = s.regs r := by
      rw [hregs]
      exact hrel.regs r hr
    have hne : ∀ k ≤ 10, r ≠ k → mapRegister r ≠ mapRegister k :=
      fun k hk hrk heq => hrk (mapRegister_inj r k hr hk heq)
    simp only [Cpu.set]
    by_cases hsaved : 6 ≤ r ∧ r < 10
    · rw [hreg, dif_pos hsaved]
      rcases hsaved with ⟨hlow, hhigh⟩
      have hcases : r = 6 ∨ r = 7 ∨ r = 8 ∨ r = 9 := by omega
      rcases hcases with rfl | rfl | rfl | rfl
      · rw [Function.update_self]
        rfl
      · rw [Function.update_of_ne (by decide), Function.update_self]
        rfl
      · rw [Function.update_of_ne (by decide), Function.update_of_ne (by decide),
          Function.update_self]
        rfl
      · rw [Function.update_of_ne (by decide), Function.update_of_ne (by decide),
          Function.update_of_ne (by decide), Function.update_self]
        rfl
    · rw [Function.update_of_ne (hne 6 (by omega) (by omega)),
        Function.update_of_ne (hne 7 (by omega) (by omega)),
        Function.update_of_ne (hne 8 (by omega) (by omega)),
        Function.update_of_ne (hne 9 (by omega) (by omega)), hbefore, hreg, dif_neg hsaved]
      by_cases h10 : r = 10
      · rw [if_pos h10, hrel.usage d, h10, BitVec.add_zero]
      · rw [if_neg h10]
  · have hframe := hrel.frame
    rw [← hregs] at hframe
    simp only [Cpu.set]
    rw [Function.update_of_ne (by decide), Function.update_of_ne (by decide),
      Function.update_of_ne (by decide), Function.update_of_ne (by decide)]
    exact hframe
  · rw [← hprev]
    rfl
  · have hindex : (localReturn s).frameIndex = d := hprev
    rw [hindex]
    omega
  · have hindex : (localReturn s).frameIndex = d := hprev
    rw [hindex] at hk
    exact hrel.returns k (by omega)

/-- The code of an exit. -/
theorem InPlace.exits (ht : InPlace t host program size mode) (i : Nat) (inst : EbpfInst)
    (hinst : program.insts[i]? = some inst) (hop : Opcode.decode inst.opcode = some .exit)
    (c : Cpu) (usage : Word) (dest : Nat) (rest : List Word) :
    ∃ f, t.Runs (instAt program mode i) ⟨c, usage :: t.at dest :: rest⟩ dest
      ⟨{ c with flags := f }, rest⟩ := by
  have hstart := ht.validated.start_of_decodes i inst _ hinst hop
  have hlist := (ht.listed_body i inst _ hinst hstart hop).append.1
  rcases Site.Runs.drop t c usage (t.at dest :: rest) hlist.1 with ⟨f, hdrop⟩
  exact ⟨f, hdrop.trans (Site.Runs.ret t { c with flags := f } rest hlist.2.1)⟩

/-- A return from a local call. -/
theorem InPlace.advances_return (ht : InPlace t host program size mode)
    (hrel : Related t program mode fp s a) (i : Nat) (inst : EbpfInst)
    (hinst : program.insts[i]? = some inst) (hop : Opcode.decode inst.opcode = some .exit)
    (hdepth : 0 < s.frameIndex) (hnext : IsStart program.insts (localReturn s).pc) :
    Advances t program mode fp i (localReturn s) a := by
  rcases Nat.exists_eq_succ_of_ne_zero (Nat.pos_iff_ne_zero.mp hdepth) with ⟨d, hd⟩
  have hpc : (localReturn s).pc = (s.frames d).returnAddress := by
    have hprev : s.frameIndex - 1 = d := by omega
    rw [← hprev]
    rfl
  have hlen := hrel.length
  have hstack := hrel.stack
  rw [hd, frameWords] at hstack
  rcases a with ⟨c, stack⟩
  simp only at hstack hlen
  subst hstack
  rcases ht.exits i inst hinst hop c 0 (returnAt program mode (s.frames d).returnAddress)
    ((s.frames d).savedRegisters 3 :: (s.frames d).savedRegisters 2 ::
      (s.frames d).savedRegisters 1 :: (s.frames d).savedRegisters 0 ::
      frameWords t program mode s.frames d) with ⟨f, hret⟩
  rcases frameWords_head t program mode s.frames d with ⟨rest, hhead⟩
  rw [hpc] at hnext
  rcases ht.resumes _ (hrel.returns d (by omega)) hnext { c with flags := f }
    ((s.frames d).savedRegisters 3) ((s.frames d).savedRegisters 2)
    ((s.frames d).savedRegisters 1) ((s.frames d).savedRegisters 0) rest (by
      rw [hhead] at hlen
      simp only [List.length_cons] at hlen ⊢
      omega) with ⟨f', hresume⟩
  rw [← hhead] at hresume
  refine ⟨_, hrel.returned d hd { c with flags := f } f' rfl rfl, ?_⟩
  rw [hpc]
  exact hret.trans hresume

/-- The last return, which comes to the jump at the end of the entry and with
    it to the epilogue. -/
theorem InPlace.leaves (ht : InPlace t host program size mode)
    (hrel : Related t program mode fp s a) (i : Nat) (inst : EbpfInst)
    (hinst : program.insts[i]? = some inst) (hop : Opcode.decode inst.opcode = some .exit)
    (hdepth : s.frameIndex = 0) :
    ∃ f, t.Runs (instAt program mode i) a (exitStart program mode)
      ⟨{ a.cpu with flags := f }, []⟩ := by
  have hshort := ht.short
  have hstack := hrel.stack
  rw [hdepth, frameWords] at hstack
  rcases a with ⟨c, stack⟩
  simp only at hstack
  subst hstack
  rcases ht.exits i inst hinst hop c 0 (bodyStart mode - 5) [] with ⟨f, hret⟩
  have hjmp := ht.part (saveCode ++ (modeCode mode ++ [.callOver])) [.jmp targetPcExit 0]
    (programCode program program.insts 0 false (bodyStart mode) ++
      (exitCode ++ retpolineCode (retpolineStart program mode)))
    (by simp only [codeListing, entryCode, List.append_assoc, List.cons_append, List.nil_append])
  have hbody : bodyStart mode = codeLength (saveCode ++ (modeCode mode ++ [.callOver])) + 5 := by
    have hentry : entryCode mode = (saveCode ++ (modeCode mode ++ [.callOver])) ++
      [.jmp targetPcExit 0] := by
      simp only [entryCode, List.append_assoc, List.cons_append, List.nil_append]
    rw [bodyStart, hentry, codeLength_append]
    rfl
  have hfive : codeLength [Encoded.jmp targetPcExit 0] = 5 := rfl
  have hexit := ht.listed_exit.2
  rw [show codeLength (saveCode ++ (modeCode mode ++ [.callOver])) = bodyStart mode - 5 by omega,
    hfive] at hjmp
  have hjump := Site.Runs.jmp t ⟨{ c with flags := f }, []⟩ targetPcExit 0 hjmp.1.1 ht.jumps_exit
    (by omega) (by omega)
  exact ⟨f, hret.trans hjump⟩

end Calls

end UniBPF
