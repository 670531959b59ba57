import UniBPF.Theory.Translation

/-!
# The Image

The whole output of the first pass: the entry, the program, the epilogue, the
retpoline nobody calls, and the addresses of the dispatcher and of the
helpers as data. `image` is all of it as pieces, and `imageMarks` are the
places noted on the way.

The translator looks at its status after the program and not again. If space
runs out in what follows, it hands over an image that lacks the end and
reports success. What is said here is about an image that is complete.

## Main definitions

* `entryCode`, `exitCode`, `retpolineCode`: What is around the program.
* `bodyStart`, `exitStart`, `retpolineStart`: Where these start.
* `codeListing`, `image`, `imageMarks`: The image and the places in it.
* `Complete`: The first pass ends without an error.

## Theorems

* `translate_image`: What the first pass leaves behind.
-/

namespace UniBPF

open LittleEndian X86 Relocations

/-- Where the frame pointer of the program comes from. -/
def modeCode : JitMode → List Encoded
  | .basic => [.bin .mov true rsp (mapRegister 10), .binImm .sub true ebpfStackSize rsp]
  | .extended => [.bin .mov true rdx (mapRegister 10), .bin .add true rcx (mapRegister 10)]

def saveCode : List Encoded :=
  [.push rbp, .push rbx, .push r12, .push r13, .push r14, .push r15, .bin .mov true rdi r11,
    .binImm .sub true 8 rsp, .bin .mov true rsp rbp]

def entryCode (mode : JitMode) : List Encoded :=
  saveCode ++ (modeCode mode ++ [.callOver, .jmp targetPcExit 0])

def exitCode : List Encoded :=
  [.bin .mov true rbp rsp, .binImm .add true 8 rsp, .pop r15, .pop r14, .pop r13, .pop r12,
    .pop rbx, .pop rbp, .ret]

/-- The jump in the retpoline names a place in the code as an instruction. -/
def retpolineCode (off : Nat) : List Encoded :=
  [.call 0 (off + 12), .pause, .jmp (off + 5) 0, .storeTop, .ret]

/-- Bytes that are not code. -/
def dataPiece (bytes : Bytes) : CodePiece := ⟨bytes, none, []⟩

def helperTable (host : HostAddresses) (program : ProgramView) : Bytes :=
  (List.range maxExtFuncs).flatMap fun idx => toLE 8 (host.helper program idx).toNat

def dataPieces (host : HostAddresses) (program : ProgramView) : List CodePiece :=
  [dataPiece (toLE 8 host.dispatcher.toNat), dataPiece (helperTable host program)]

/-- Where the program starts. -/
def bodyStart (mode : JitMode) : Nat := codeLength (entryCode mode)

/-- Where the epilogue starts. -/
def exitStart (program : ProgramView) (mode : JitMode) : Nat :=
  bodyStart mode + codeLength (programCode program program.insts 0 false (bodyStart mode))

def retpolineStart (program : ProgramView) (mode : JitMode) : Nat :=
  exitStart program mode + codeLength exitCode

/-- Where the address of the dispatcher is kept. -/
def dispatcherStart (program : ProgramView) (mode : JitMode) : Nat :=
  retpolineStart program mode + codeLength (retpolineCode (retpolineStart program mode))

/-- The code of the image. -/
def codeListing (program : ProgramView) (mode : JitMode) : List Encoded :=
  entryCode mode ++ (programCode program program.insts 0 false (bodyStart mode) ++
    (exitCode ++ retpolineCode (retpolineStart program mode)))

def image (host : HostAddresses) (program : ProgramView) (mode : JitMode) : List CodePiece :=
  pieces (codeListing program mode) ++ dataPieces host program

/-- The places noted in an image. -/
def imageMarks (program : ProgramView) (size : Nat) (mode : JitMode) : Marks :=
  { loopMarks program program.insts 0 false (bodyStart mode)
      (initializeJitState size mode).marks with
    exitLoc := exitStart program mode
    retpolineLoc := retpolineStart program mode
    dispatcherLoc := dispatcherStart program mode
    helperTableLoc := dispatcherStart program mode + 8 }

/-! ## The entry -/

theorem extends_framePointer (s : JitState) (h : (emitFramePointer s).jitStatus = .noError) :
    Extends s (emitFramePointer s) (pieces (modeCode s.jitMode)) := by
  cases hmode : s.jitMode with
  | basic =>
      have hall := (emits_mov rsp (mapRegister 10)).cons
        (emits_binImm .sub true rsp ebpfStackSize)
      simp only [emitFramePointer, hmode] at h ⊢
      exact hall s h
  | extended =>
      have hall := (emits_mov rdx (mapRegister 10)).cons
        (emits_bin .add true 0x01 rcx (mapRegister 10) rfl)
      simp only [emitFramePointer, hmode] at h ⊢
      exact hall s h

theorem emits_saves : Emits emitSaves saveCode := by
  have hall := (emits_push rbp).cons ((emits_push rbx).cons ((emits_push r12).cons
    ((emits_push r13).cons ((emits_push r14).cons ((emits_push r15).cons
    ((emits_mov rdi volatileCtxt).cons ((emits_binImm .sub true rsp 8).cons
    (emits_mov rsp rbp))))))))
  intro s h
  simp only [emitSaves, platformNonvolatileRegisters, List.foldl_cons, List.foldl_nil] at h ⊢
  exact hall s h

/-- What comes before the first instruction. -/
theorem extends_entry (s : JitState) (h : (emitEntry s).jitStatus = .noError) :
    Extends s (emitEntry s) (pieces (entryCode s.jitMode)) := by
  have hcall : Emits (fun s => emit4 5 (emit1 0xe8 s)) [.callOver] := by
    have hall := (appends_emit1 0xe8).comp (appends_emit4 5)
    exact hall
  have hlast := hcall.cons (emits_jmp targetPcExit)
  have hpush := emits_saves s
  simp only [emitEntry] at h ⊢
  generalize emitSaves s = s1 at h hpush ⊢
  have hframe := extends_framePointer s1
  generalize emitFramePointer s1 = s2 at h hframe ⊢
  have hjmp := hlast s2 h
  have hsaved := hpush (hframe hjmp.before).before
  have hmode : s1.jitMode = s.jitMode := congrArg Marks.mode hsaved.marks
  rw [hmode] at hframe
  have hall := hsaved.trans ((hframe hjmp.before).trans hjmp)
  rw [entryCode, pieces_append, pieces_append]
  exact hall

/-! ## What comes after the program -/

theorem emits_exit : Emits (fun s => emit1 0xc3 (platformNonvolatileRegisters.reverse.foldl
    (fun state r => emitPop r state) (emitAlu64Imm32 0x81 0 rsp 8 (emitMov rbp rsp s))))
    exitCode := by
  have hret : Emits (emit1 0xc3) [.ret] := appends_emit1 0xc3
  have hall := (emits_mov rbp rsp).cons ((emits_binImm .add true rsp 8).cons
    ((emits_pop r15).cons ((emits_pop r14).cons ((emits_pop r13).cons ((emits_pop r12).cons
    ((emits_pop rbx).cons ((emits_pop rbp).cons hret)))))))
  intro s h
  simp only [platformNonvolatileRegisters, List.reverse_cons, List.reverse_nil, List.nil_append,
    List.cons_append, List.foldl_cons, List.foldl_nil] at h ⊢
  exact hall s h

theorem emitCall_loc (pc : Nat) (s : JitState) (h : (emitCall pc s).2.jitStatus = .noError) :
    (emitCall pc s).1 = s.offset + 1 := by
  have hext := appends_jumpReloc pc (emit1 0xe8 s) h
  exact (appends_emit1 0xe8 s hext.before).offset

/-- The translator goes back to the call at the start of the retpoline. -/
theorem extends_retpoline (s : JitState) (hok : (emitRetpoline s).jitStatus = .noError) :
    s.jitStatus = .noError ∧
      (Placed s → Extends s (emitRetpoline s) (pieces (retpolineCode s.offset))) := by
  have hpause : Emits emitPause [.pause] := by
    have hall := (appends_emit1 0xf3).comp (appends_emit1 0x90)
    exact hall
  have hstore : Emits (fun s => emit1 0x24 (emit1 0x04 (emit1 0x89 (emit1 0x48 s))))
      [.storeTop] := by
    have hall := (((appends_emit1 0x48).comp (appends_emit1 0x89)).comp
      (appends_emit1 0x04)).comp (appends_emit1 0x24)
    exact hall
  have hret : Emits emitRet [.ret] := appends_emit1 0xc3
  have hend := hstore.cons hret
  simp only [emitRetpoline] at hok ⊢
  generalize hc : emitCall 0 s = c at hok ⊢
  generalize hs3 : (emitJmp c.2.offset (emitPause c.2)).2 = s3 at hok ⊢
  simp only [JitState.redirect] at hok
  have hlast := hend s3 hok
  have hjmp := hpause.cons (emits_jmp c.2.offset) c.2 (by simp only [hs3]; exact hlast.before)
  simp only [hs3] at hjmp
  have hokCall : (emitCall 0 s).2.jitStatus = .noError := by
    rw [hc]
    exact hjmp.before
  have hcall := emits_call 0 s hokCall
  have hloc := emitCall_loc 0 s hokCall
  simp only [hc] at hcall
  rw [hc] at hloc
  have hspec : c.2.offset = s.offset + 5 := hcall.offset
  rw [hspec] at hjmp
  have hdest : s3.offset = s.offset + 12 := (hcall.trans hjmp).offset
  rw [hloc, hdest]
  simp only at hlast
  generalize emitRet (emit1 0x24 (emit1 0x04 (emit1 0x89 (emit1 0x48 s3)))) = s4 at hlast ⊢
  refine ⟨hcall.before, fun hs => ?_⟩
  have hall : Extends s s4 ([] ++ (Encoded.call 0 0).piece ::
      pieces [.pause, .jmp (s.offset + 5) 0, .storeTop, .ret]) :=
    hcall.trans (hjmp.trans hlast)
  have hfixed := hall.toGains.fixup (Encoded.call 0 0).piece ⟨0, 0, false⟩ (s.offset + 12) hs
    rfl (Nat.succ_pos 0) (Nat.succ_pos 3)
  exact ⟨hfixed, hall.marks⟩

theorem appends_words (g : Nat → Nat) (idxs : List Nat) :
    AppendsBytes (fun s => idxs.foldl (fun state idx => emit8 (g idx) state) s)
      (idxs.flatMap fun idx => toLE 8 (g idx)) := by
  induction idxs with
  | nil => exact AppendsBytes.nil
  | cons idx idxs ih =>
      have hall := (appends_emitBytes (toLE 8 (g idx))).comp ih
      exact hall

/-- What the epilogue notes, in a state that is at `off`. -/
def exitMarks (off : Nat) (m : Marks) : Marks :=
  { m with
    exitLoc := off
    retpolineLoc := off + codeLength exitCode
    dispatcherLoc := off + codeLength exitCode + codeLength (retpolineCode 0)
    helperTableLoc := off + codeLength exitCode + codeLength (retpolineCode 0) + 8 }

/-- What comes after the last instruction. -/
theorem gains_exit (host : HostAddresses) (program : ProgramView) (s : JitState) (hs : Placed s)
    (h : (emitExit host program s).jitStatus = .noError) :
    Gains s (emitExit host program s) (pieces exitCode ++
      (pieces (retpolineCode (s.offset + codeLength exitCode)) ++ dataPieces host program)) ∧
      (emitExit host program s).marks = exitMarks s.offset s.marks := by
  simp only [emitExit] at h ⊢
  have hexit := emits_exit { s with exitLoc := s.offset }
  simp only at hexit
  generalize emit1 0xc3 _ = s1 at h hexit ⊢
  have hretpoline := extends_retpoline { s1 with retpolineLoc := s1.offset }
  generalize emitRetpoline _ = s2 at h hretpoline ⊢
  have hdispatcher := appends_emitBytes (toLE 8 host.dispatcher.toNat)
    { s2 with dispatcherLoc := s2.offset }
  rw [emit8] at h ⊢
  generalize emitBytes (toLE 8 host.dispatcher.toNat) _ = s3 at h hdispatcher ⊢
  have htable := appends_words (fun idx => (host.helper program idx).toNat)
    (List.range maxExtFuncs) { s3 with helperTableLoc := s3.offset } h
  have hdispatcher := hdispatcher htable.before
  have hretpoline := hretpoline hdispatcher.before
  have hexit := hexit hretpoline.1
  have hfirst : Gains s { s1 with retpolineLoc := s1.offset } (pieces exitCode) :=
    ⟨hexit.before, hexit.status, hexit.buf, hexit.table, hexit.fits⟩
  have hoff1 : s1.offset = s.offset + codeLength exitCode := hexit.offset
  have hext := hretpoline.2 (hfirst.placed hs)
  have hoffset : ({ s1 with retpolineLoc := s1.offset } : JitState).offset = s1.offset := rfl
  rw [hoffset, hoff1] at hext
  have hsecond : Gains { s1 with retpolineLoc := s1.offset } { s2 with dispatcherLoc := s2.offset }
      (pieces (retpolineCode (s.offset + codeLength exitCode))) := by
    rw [hoff1]
    exact ⟨hext.before, hext.status, hext.buf, hext.table, hext.fits⟩
  have hthird : Gains { s2 with dispatcherLoc := s2.offset } { s3 with helperTableLoc := s3.offset }
      [dataPiece (toLE 8 host.dispatcher.toNat)] :=
    ⟨hdispatcher.before, hdispatcher.status, hdispatcher.buf, hdispatcher.table, hdispatcher.fits⟩
  have hoff2 : s2.offset = s.offset + codeLength exitCode + codeLength (retpolineCode 0) := by
    have hoff := hsecond.offset
    rw [hoffset, hoff1] at hoff
    exact hoff
  have hoff3 : s3.offset =
      s.offset + codeLength exitCode + codeLength (retpolineCode 0) + 8 := by
    have hoff : s3.offset = s2.offset + 8 := hthird.offset
    rw [hoff, hoff2]
  refine ⟨hfirst.trans (hsecond.trans (hthird.trans htable.toGains)), ?_⟩
  refine htable.marks.trans ?_
  have hmarks3 : s3.marks = { s2.marks with dispatcherLoc := s2.offset } := hdispatcher.marks
  have hmarks2 : s2.marks = { s1.marks with retpolineLoc := s.offset + codeLength exitCode } :=
    hext.marks
  have hmarks1 : s1.marks = { s.marks with exitLoc := s.offset } := hexit.marks
  have hnoted : ({ s3 with helperTableLoc := s3.offset } : JitState).marks =
    { s3.marks with helperTableLoc := s3.offset } := rfl
  rw [hnoted, hmarks3, hmarks2, hmarks1, hoff3, hoff2]
  rfl

/-- The first pass ends without an error. That it hands over an image says
    less, since the status is not looked at again after the program. -/
def Complete (host : HostAddresses) (program : ProgramView) (size : Nat) (mode : JitMode) : Prop :=
  ∃ s, translate host program size mode = .ok s ∧ s.jitStatus = .noError

/-- The same as a test. -/
def completes (host : HostAddresses) (program : ProgramView) (size : Nat) (mode : JitMode) : Bool :=
  match translate host program size mode with
  | .ok s => s.jitStatus = .noError
  | .error _ => false

theorem complete_iff (host : HostAddresses) (program : ProgramView) (size : Nat) (mode : JitMode) :
    Complete host program size mode ↔ completes host program size mode = true := by
  rw [Complete, completes]
  constructor
  · rintro ⟨s, hs, hok⟩
    simp only [hs, hok, decide_true]
  · intro h
    split at h
    next s hs => exact ⟨s, hs, of_decide_eq_true h⟩
    next => exact absurd h Bool.false_ne_true

/-- What the first pass leaves behind. -/
theorem translate_image (host : HostAddresses) (program : ProgramView) (size : Nat)
    (mode : JitMode) (s : JitState) (hbase : BasesOk program.insts)
    (hs : translate host program size mode = .ok s) (hok : s.jitStatus = .noError) :
    Gains (initializeJitState size mode) s (image host program mode) ∧
      s.marks = imageMarks program size mode := by
  simp only [translate] at hs
  have hentry := extends_entry (initializeJitState size mode)
  generalize emitEntry (initializeJitState size mode) = s1 at hs hentry
  have hloop := gains_translateLoop program program.insts hbase 0 false s1
  generalize translateLoop program program.insts 0 false s1 = s2 at hs hloop
  by_cases hstatus : s2.jitStatus = .noError
  · simp only [hstatus, ne_eq, not_true_eq_false, if_false, Except.ok.injEq] at hs
    rcases hloop hstatus with ⟨hok1, hgrows⟩
    have hentry := hentry hok1
    have hstart : Placed (initializeJitState size mode) := fun e he => absurd he List.not_mem_nil
    rcases hgrows (hentry.placed hstart) with ⟨hgrows, hmarks⟩
    have hoff1 : s1.offset = bodyStart mode := hentry.offset.trans (Nat.zero_add _)
    have hoff2 : s2.offset = exitStart program mode := by
      rw [hgrows.offset, hoff1]
      rfl
    rw [← hs] at hok
    rcases gains_exit host program s2 (hgrows.placed (hentry.placed hstart)) hok with
      ⟨hexit, hexitMarks⟩
    rw [hs] at hexit hexitMarks
    rw [hoff1] at hgrows hmarks
    rw [hoff2] at hexit hexitMarks
    have hall := hentry.toGains.trans (hgrows.trans hexit)
    refine ⟨?_, ?_⟩
    · have himage : image host program mode = pieces (entryCode mode) ++
          (pieces (programCode program program.insts 0 false (bodyStart mode)) ++
            (pieces exitCode ++ (pieces (retpolineCode (retpolineStart program mode)) ++
              dataPieces host program))) := by
        simp only [image, codeListing, pieces_append, List.append_assoc]
      rw [himage]
      exact hall
    · rw [hexitMarks, hmarks, hentry.marks]
      rfl
  · simp only [ne_eq, hstatus, not_false_eq_true, if_true, reduceCtorEq] at hs

/-- A complete image fits into the buffer. -/
theorem Complete.fits {host : HostAddresses} {program : ProgramView} {size : Nat} {mode : JitMode}
    (h : Complete host program size mode) (hbase : BasesOk program.insts) :
    (layout (image host program mode)).length ≤ size := by
  rcases h with ⟨s, hs, hok⟩
  rcases translate_image host program size mode s hbase hs hok with ⟨hgains, hmarks⟩
  have hoff : s.offset = 0 + (layout (image host program mode)).length := hgains.offset
  have hsize : s.size = size := (congrArg Marks.size hmarks).trans
    (loopMarks_other program program.insts 0 false (bodyStart mode) _).1
  have hfits := hgains.fits (Nat.zero_le _)
  omega

end UniBPF
