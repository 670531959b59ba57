import UniBPF.Theory.NativeSteps

/-!
# Disassembling the Native Code

The translator never looks at what it has written as code: it writes bytes,
and goes back to some of them. `disassemble` reads them the way a processor
does, one instruction after another, each where the one before it ends.

An x86 instruction has no fixed length and a byte string can be taken apart
in more than one way, so this is worth a proof. Whatever the program is, the
native code comes apart as the listing of its parts, each distance the one to
the place its table says, and what is left over are the address of the
dispatcher and the table of helpers.

There is one exception, and `BasesOk` is that the program does not run into
it. `r7` is mapped to a register that x86 does not take as a base without one
more byte, and the translator does not write that byte.

## Main definitions

* `X86.disassemble`: A number of instructions and what comes after them.
* `linkedInstrs`: A listing with its distances.
* `ReadsBack`, `Overruns`: What is written is an instruction, or never is.

## Theorems

* `disassemble_fill`: A listing with its fields filled in comes apart again.
* `translated_disassembles`: The native code comes apart as its listing.
* `takeModRM_overruns`: An operand that is read past its end.
* `access_reads_back`: Loads and stores are read back unless the base is `r7`.
-/

namespace UniBPF

open LittleEndian X86 Relocations

/-- The first instructions of a byte string and what comes after them. -/
def X86.disassemble : Nat → Bytes → Option (List Instr × Bytes)
  | 0, bs => some ([], bs)
  | n + 1, bs =>
    match decode bs with
    | none => none
    | some (i, rest) => (disassemble n rest).map fun (is, rest) => (i :: is, rest)

/-- The instructions of a listing that starts at an offset. -/
def linkedInstrs (m : Marks) : Nat → List Encoded → List Instr
  | _, [] => []
  | off, e :: es => e.linkedInstr m off :: linkedInstrs m (off + e.size) es

/-- A listing with its fields filled in comes apart again. -/
theorem disassemble_fill (m : Marks) (es : List Encoded) (off : Nat) (rest : Bytes) :
    disassemble es.length
        (layout (fill (fieldBytes m) (fun _ => true) off (pieces es)) ++ rest) =
      some (linkedInstrs m off es, rest) := by
  -- The offset moves with the listing, as the distances depend on it.
  induction es generalizing off with
  | nil => rfl
  | cons e es ih =>
      rw [pieces, List.map_cons, fill, layout_cons, List.append_assoc, List.length_cons,
        disassemble, ← Encoded.linkedBytes, decode_linked]
      simp only
      rw [← pieces, ← Encoded.size, ih, Option.map_some, linkedInstrs]

/-- What is written after the code has no fields. -/
theorem layout_fill_data (m : Marks) (host : HostAddresses) (program : ProgramView) (off : Nat) :
    layout (fill (fieldBytes m) (fun _ => true) off (dataPieces host program)) =
      toLE 8 host.dispatcher.toNat ++ helperTable host program := by
  simp only [dataPieces, dataPiece, fill, Piece.fillAt, Piece.bytes, layout_cons, layout_nil,
    List.append_nil]

/-- The native code comes apart as its listing, up to the data after it, and
    every distance in it has been looked at. -/
theorem translated_disassembles (host : HostAddresses) (program : ProgramView) (size : Nat)
    (mode : JitMode) (code : Bytes) (hbase : BasesOk program.insts)
    (hcomplete : Complete host program size mode)
    (h : ubpfTranslateX86 host size mode program = .ok code) :
    disassemble (codeListing program mode).length code =
        some (linkedInstrs (imageMarks program size mode) 0 (codeListing program mode),
          toLE 8 host.dispatcher.toNat ++ helperTable host program) ∧
      ∀ t, ∀ e ∈ tableOf t 0 (image host program mode),
        Resolved (imageMarks program size mode) t e.1 e.2 := by
  rcases translated_linked host program size mode code hbase hcomplete h with ⟨hcode, hresolved⟩
  refine ⟨?_, hresolved⟩
  rw [hcode, linked, image, fill_append, layout_append, Nat.zero_add, layout_fill_data,
    disassemble_fill]

/-- A program that touches no memory uses no register as a base. -/
theorem basesOk_of_access (insts : List EbpfInst)
    (h : ∀ inst ∈ insts, (Opcode.decode inst.opcode).all fun op => op.access.isNone) :
    BasesOk insts := by
  intro inst hinst op hop
  have haccess := h inst hinst
  rw [hop, Option.all_some] at haccess
  cases op with
  | ldx size => exact absurd haccess Bool.false_ne_true
  | st size => exact absurd haccess Bool.false_ne_true
  | stx size => exact absurd haccess Bool.false_ne_true
  | _ => trivial

/-- `plainCode` on a host without helpers. -/
theorem translated_disassembles_plain :
    ∃ code, ubpfTranslateX86 ⟨0, fun _ => 0⟩ 4096 .basic
        (programOf (initUbpfVm .bpfilter) plainCode) = .ok code ∧
      disassemble (codeListing (programOf (initUbpfVm .bpfilter) plainCode) .basic).length code =
        some (linkedInstrs (imageMarks (programOf (initUbpfVm .bpfilter) plainCode) 4096 .basic) 0
            (codeListing (programOf (initUbpfVm .bpfilter) plainCode) .basic),
          List.replicate (8 + 8 * 64) 0) ∧
      ∀ t, ∀ e ∈ tableOf t 0 (image ⟨0, fun _ => 0⟩ (programOf (initUbpfVm .bpfilter) plainCode)
          .basic),
        Resolved (imageMarks (programOf (initUbpfVm .bpfilter) plainCode) 4096 .basic) t e.1
          e.2 := by
  have hbase : BasesOk (programOf (initUbpfVm .bpfilter) plainCode).insts :=
    basesOk_of_access _ (by decide +kernel)
  have hcomplete : Complete ⟨0, fun _ => 0⟩ (programOf (initUbpfVm .bpfilter) plainCode) 4096
      .basic := (complete_iff _ _ _ _).mpr (by decide +kernel)
  have htrans : (ubpfTranslateX86 ⟨0, fun _ => 0⟩ 4096 .basic
      (programOf (initUbpfVm .bpfilter) plainCode)).toOption.isSome = true := by decide +kernel
  cases hcode : ubpfTranslateX86 ⟨0, fun _ => 0⟩ 4096 .basic
      (programOf (initUbpfVm .bpfilter) plainCode) with
  | error e =>
      rw [hcode] at htrans
      exact absurd htrans Bool.false_ne_true
  | ok code =>
      rcases translated_disassembles _ _ _ _ code hbase hcomplete hcode with ⟨hlisting, hresolved⟩
      refine ⟨code, rfl, ?_, hresolved⟩
      rw [hlisting]
      exact congrArg (fun data => some (_, data)) (by decide +kernel)

/-! ## The base that is not one -/

/-- The number of bytes of a displacement. -/
def dispSize : Nat → Nat
  | 0 => 0
  | 1 => 1
  | _ => 4

theorem takeImm_length (w : Nat) (bs : Bytes) (d : Int) (rest : Bytes)
    (h : takeImm w bs = some (d, rest)) : rest.length + w = bs.length := by
  rw [takeImm] at h
  split at h
  next hlen =>
    rw [Option.some.injEq, Prod.mk.injEq] at h
    rw [← h.2, List.length_drop]
    omega
  next => exact absurd h (by simp only [reduceCtorEq, not_false_eq_true])

theorem takeDisp_length (mode : Nat) (bs : Bytes) (d : Int) (rest : Bytes)
    (h : takeDisp mode bs = some (d, rest)) : rest.length + dispSize mode = bs.length := by
  unfold takeDisp at h
  split at h
  next =>
    rw [Option.some.injEq, Prod.mk.injEq] at h
    rw [h.2]
    rfl
  next => exact takeImm_length 1 bs d rest h
  next h0 h1 =>
    have hsize : dispSize mode = 4 := by
      unfold dispSize
      split
      next => exact absurd rfl h0
      next => exact absurd rfl h1
      next => rfl
    rw [hsize]
    exact takeImm_length 4 bs d rest h

theorem takeSib_length (rex : Rex) (mode : Nat) (bs : Bytes) (m : MemRef) (rest : Bytes)
    (h : takeSib rex mode bs = some (m, rest)) : rest.length + dispSize mode < bs.length := by
  cases bs with
  | nil => exact absurd h (by simp only [takeSib, reduceCtorEq, not_false_eq_true])
  | cons sib bs =>
      rw [List.length_cons]
      simp only [takeSib] at h
      split at h
      next hnone =>
        rcases Option.map_eq_some_iff.mp h with ⟨⟨d, rest'⟩, himm, heq⟩
        rw [Prod.mk.injEq] at heq
        have hlen := takeImm_length 4 bs d rest' himm
        have hrest : rest' = rest := heq.2
        rw [hnone.2, dispSize, ← hrest]
        omega
      next =>
        rcases Option.map_eq_some_iff.mp h with ⟨⟨d, rest'⟩, hdisp, heq⟩
        rw [Prod.mk.injEq] at heq
        have hlen := takeDisp_length mode bs d rest' hdisp
        have hrest : rest' = rest := heq.2
        rw [← hrest]
        omega

/-- With a base whose number ends in four, the operand is read past its end. -/
theorem takeModRM_overruns (w : Bool) (src dst : Reg) (d : Int) (rest : Bytes)
    (h4 : dst.val % 8 = 4) :
    ∃ x : Option (MemRef × Bytes), takeModRM (basicBits w src dst) (dispBytes src dst d ++ rest) =
        x.map (fun p => (src, .mem p.1, p.2)) ∧
      ∀ p, x = some p → p.2.length < rest.length := by
  -- The three forms of a displacement, each one byte longer than was written.
  rcases modrmByte_fields src dst with ⟨-, ⟨m0, r0, l0⟩, ⟨m1, r1, l1⟩, ⟨m2, r2, l2⟩⟩
  rw [dispBytes]
  split
  next =>
    refine ⟨_, takeModRM_sib w src dst 0 _ _ m0 r0 l0 (by omega) h4, fun p hp => ?_⟩
    exact takeSib_length _ 0 rest p.1 p.2 hp
  next =>
    split
    next =>
      refine ⟨_, takeModRM_sib w src dst 1 _ _ m1 r1 l1 (by omega) h4, fun p hp => ?_⟩
      have hlen := takeSib_length _ 1 (toLE 1 (u32 d) ++ rest) p.1 p.2 hp
      have hsize : dispSize 1 = 1 := rfl
      rw [hsize, List.length_append, length_toLE] at hlen
      omega
    next =>
      refine ⟨_, takeModRM_sib w src dst 2 _ _ m2 r2 l2 (by omega) h4, fun p hp => ?_⟩
      have hlen := takeSib_length _ 2 (toLE 4 (u32 d) ++ rest) p.1 p.2 hp
      have hsize : dispSize 2 = 4 := rfl
      rw [hsize, List.length_append, length_toLE] at hlen
      omega

theorem map_shorter (x : Option (MemRef × Bytes)) (rest : Bytes)
    (h : ∀ p, x = some p → p.2.length < rest.length) (mk : MemRef → Instr) (i : Instr)
    (rest' : Bytes) (heq : x.map (fun p => (mk p.1, p.2)) = some (i, rest')) :
    rest'.length < rest.length := by
  rcases Option.map_eq_some_iff.mp heq with ⟨p, hp, hpair⟩
  rw [Prod.mk.injEq] at hpair
  rw [← hpair.2]
  exact h p hp

theorem decode_load_overruns (size : OperandSize) (src dst : Reg) (offset : Int)
    (h4 : src.val % 8 = 4) (rest : Bytes) (i : Instr) (rest' : Bytes)
    (h : decode (loadBytes size src dst offset ++ rest) = some (i, rest')) :
    rest'.length < rest.length := by
  rcases takeModRM_overruns (size = .s64) dst src offset rest h4 with ⟨x, hx, hshort⟩
  have hshorter := map_shorter x rest hshort (fun m => .op (.load (accessBytes size) m dst)) i rest'
  rw [loadBytes, List.append_assoc, List.append_assoc, decode_load_operand, decodeFrom, hx] at h
  cases x with
  | none => exact hshorter h
  | some p => exact hshorter h

theorem decode_store_overruns (size : OperandSize) (src dst : Reg) (offset : Int)
    (h4 : dst.val % 8 = 4) (rest : Bytes) (i : Instr) (rest' : Bytes)
    (h : decode (storeBytes size src dst offset ++ rest) = some (i, rest')) :
    rest'.length < rest.length := by
  rcases takeModRM_overruns (size = .s64) src dst offset rest h4 with ⟨x, hx, hshort⟩
  rw [storeBytes, List.append_assoc, decode_store_operand size src dst _ x hx] at h
  exact map_shorter x rest hshort (fun m => .op (.store (accessBytes size) src m)) i rest' h

/-- `r7` is the one register that is mapped to such a base. -/
theorem mapRegister_base (r : Nat) (h : r ≤ 10) : (mapRegister r).val % 8 = 4 ↔ r = 7 := by
  have hall : ∀ i : Fin 11, (mapRegister i).val % 8 = 4 ↔ i.val = 7 := by decide +kernel
  exact hall ⟨r, by omega⟩

/-- What is written is an instruction, whatever comes after it. -/
def ReadsBack (emit : JitState → JitState) (i : Instr) : Prop :=
  ∀ s, (emit s).jitStatus = .noError → ∃ bytes, (emit s).buf = s.buf ++ bytes ∧
    ∀ rest, decode (bytes ++ rest) = some (i, rest)

/-- What is written is never one: where an instruction is read, some of what
    comes after it is taken for part of it. -/
def Overruns (emit : JitState → JitState) : Prop :=
  ∀ s, (emit s).jitStatus = .noError → ∃ bytes, (emit s).buf = s.buf ++ bytes ∧
    ∀ rest i rest', decode (bytes ++ rest) = some (i, rest') → rest'.length < rest.length

theorem AppendsBytes.buf {emit : JitState → JitState} {bytes : Bytes}
    (h : AppendsBytes emit bytes) (s : JitState) (hok : (emit s).jitStatus = .noError) :
    (emit s).buf = s.buf ++ bytes := by
  have hbuf := (h s hok).buf
  rw [layout_bytes] at hbuf
  exact hbuf

/-- A load or a store through any register but `r7` is the instruction it is
    meant to be. Through `r7` it is none. -/
theorem access_reads_back (size : OperandSize) (base reg : Nat) (hbase : base ≤ 10)
    (offset : Int) :
    (base ≠ 7 →
      ReadsBack (emitLoad size (mapRegister base) (mapRegister reg) offset)
        (.op (.load (accessBytes size) (atReg (mapRegister base) offset) (mapRegister reg))) ∧
      ReadsBack (emitStore size (mapRegister reg) (mapRegister base) offset)
        (.op (.store (accessBytes size) (mapRegister reg) (atReg (mapRegister base) offset)))) ∧
    (base = 7 → Overruns (emitLoad size (mapRegister base) (mapRegister reg) offset) ∧
      Overruns (emitStore size (mapRegister reg) (mapRegister base) offset)) := by
  have hseven := mapRegister_base base hbase
  have hload := (appends_load size (mapRegister base) (mapRegister reg) offset).buf
  have hstore := (appends_store size (mapRegister reg) (mapRegister base) offset).buf
  refine ⟨fun hne => ?_, fun h7 => ?_⟩
  · have h4 : (mapRegister base).val % 8 ≠ 4 := fun h => hne (hseven.mp h)
    exact ⟨fun s hok => ⟨_, hload s hok, decode_load size _ _ offset h4⟩,
      fun s hok => ⟨_, hstore s hok, decode_store size _ _ offset h4⟩⟩
  · have h4 : (mapRegister base).val % 8 = 4 := hseven.mpr h7
    exact ⟨fun s hok => ⟨_, hload s hok, decode_load_overruns size _ _ offset h4⟩,
      fun s hok => ⟨_, hstore s hok, decode_store_overruns size _ _ offset h4⟩⟩

/-- A load from `r7` into an empty buffer. -/
theorem access_reads_back_r7 :
    ∃ bytes, (emitLoad .s64 (mapRegister 7) (mapRegister 0) 8 (initializeJitState 64 .basic)).buf =
        (initializeJitState 64 .basic).buf ++ bytes ∧
      ∀ rest i rest', decode (bytes ++ rest) = some (i, rest') → rest'.length < rest.length :=
  ((access_reads_back .s64 7 0 (by decide) 8).2 rfl).1 (initializeJitState 64 .basic)
    (by decide +kernel)

end UniBPF
