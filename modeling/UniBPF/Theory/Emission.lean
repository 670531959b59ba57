import UniBPF.Theory.Encodings

/-!
# What an Emitter Appends

The emitters thread a state through, and most of what they do to it is to
append. `Extends` says so: bytes are appended to the buffer, entries to the
tables, and the places noted elsewhere stay as they are. It is only said of
an emission that ends without an error, and then there was none before it
either.

`Appends` is the same of a function, and has a rule for each way functions
are put together here: one after the other, and one under a condition. With
the rules a lemma about an emitter follows the definition of the emitter.

Three times the translator goes back to an entry it has made and gives it
another target. `Gains.fixup` is that step. It relies on entries being
found by their place, and on no two of them being in the same one.

## Main definitions

* `JitState.table`, `toEntry`: The tables by name, and their entries.
* `Gains`, `Extends`: What a successful emission does to the state.
* `Appends`, `AppendsBytes`: The same of an emitter.
* `Placed`: The entries of the table of jumps lie in the filled part.

## Theorems

* `Appends.comp`, `Emits.emitIf`: The rules.
* `Gains.fixup`: Giving an entry another target.
-/

namespace UniBPF

open LittleEndian X86 Relocations

def JitState.table (s : JitState) : Table → List PatchableRelative
  | .jumps => s.jumps
  | .localCalls => s.localCalls
  | .loads => s.loads
  | .leas => s.leas

def toEntry (e : Nat × Target) : PatchableRelative := ⟨e.1, e.2.pc, e.2.offset, e.2.near⟩

/-- The places a state has noted, and what it was set up with. -/
structure Marks where
  pcLocs : Nat → Nat
  exitLoc : Nat
  retpolineLoc : Nat
  dispatcherLoc : Nat
  helperTableLoc : Nat
  prologSize : Nat
  size : Nat
  mode : JitMode

def JitState.marks (s : JitState) : Marks where
  pcLocs := s.pcLocs
  exitLoc := s.exitLoc
  retpolineLoc := s.retpolineLoc
  dispatcherLoc := s.dispatcherLoc
  helperTableLoc := s.helperTableLoc
  prologSize := s.bpfFunctionPrologSize
  size := s.size
  mode := s.jitMode

/-- Pieces are appended, to the buffer and to the tables. -/
structure Gains (s s' : JitState) (ps : List CodePiece) : Prop where
  before : s.jitStatus = .noError
  status : s'.jitStatus = .noError
  buf : s'.buf = s.buf ++ layout ps
  table : ∀ t, s'.table t = s.table t ++ (tableOf t s.offset ps).map toEntry
  fits : s.offset ≤ s.size → s'.offset ≤ s'.size

/-- A successful emission: pieces are appended and nothing else changes. -/
structure Extends (s s' : JitState) (ps : List CodePiece) : Prop extends Gains s s' ps where
  marks : s'.marks = s.marks

theorem Gains.offset {s s' : JitState} {ps : List CodePiece} (h : Gains s s' ps) :
    s'.offset = s.offset + (layout ps).length := by
  rw [JitState.offset, JitState.offset, h.buf, List.length_append]

theorem Gains.trans {s s' s'' : JitState} {ps qs : List CodePiece} (h : Gains s s' ps)
    (h' : Gains s' s'' qs) : Gains s s'' (ps ++ qs) where
  before := h.before
  status := h'.status
  buf := by rw [h'.buf, h.buf, layout_append, List.append_assoc]
  table := fun t => by
    rw [h'.table, h.table, h.offset, tableOf_append, List.map_append, List.append_assoc]
  fits := fun hfits => h'.fits (h.fits hfits)

theorem Extends.trans {s s' s'' : JitState} {ps qs : List CodePiece} (h : Extends s s' ps)
    (h' : Extends s' s'' qs) : Extends s s'' (ps ++ qs) :=
  ⟨h.toGains.trans h'.toGains, h'.marks.trans h.marks⟩

theorem Extends.refl (s : JitState) (h : s.jitStatus = .noError) : Extends s s [] where
  before := h
  status := h
  buf := by rw [layout_nil, List.append_nil]
  table := fun t => by rw [tableOf_nil, List.map_nil, List.append_nil]
  fits := fun hfits => hfits
  marks := rfl

/-- Two lists of pieces that lay out the same bytes and note the same fields
    are the same to a state. -/
theorem Extends.congr {s s' : JitState} {ps qs : List CodePiece} (h : Extends s s' ps)
    (hbytes : layout ps = layout qs) (hentries : ∀ t base, tableOf t base ps = tableOf t base qs) :
    Extends s s' qs where
  before := h.before
  status := h.status
  buf := hbytes ▸ h.buf
  table := fun t => hentries t s.offset ▸ h.table t
  fits := h.fits
  marks := h.marks

/-- An emitter that appends these pieces whenever it succeeds. -/
def Appends (f : JitState → JitState) (ps : List CodePiece) : Prop :=
  ∀ s, (f s).jitStatus = .noError → Extends s (f s) ps

/-- An emitter of bytes without a field. -/
def AppendsBytes (f : JitState → JitState) (bs : Bytes) : Prop := Appends f [⟨bs, none, []⟩]

theorem Appends.comp {f g : JitState → JitState} {ps qs : List CodePiece} (hf : Appends f ps)
    (hg : Appends g qs) : Appends (fun s => g (f s)) (ps ++ qs) := by
  intro s h
  have hgs := hg (f s) h
  exact (hf s hgs.before).trans hgs

theorem Appends.id : Appends (fun s => s) [] := fun s h => Extends.refl s h

theorem tableOf_bytes (t : Table) (base : Nat) (bs : Bytes) :
    tableOf t base ([⟨bs, none, []⟩] : List CodePiece) = [] := rfl

theorem layout_bytes (bs : Bytes) : layout ([⟨bs, none, []⟩] : List CodePiece) = bs := by
  rw [layout_cons, layout_nil, List.append_nil, Piece.bytes, List.append_nil]

theorem AppendsBytes.comp {f g : JitState → JitState} {as bs : Bytes} (hf : AppendsBytes f as)
    (hg : AppendsBytes g bs) : AppendsBytes (fun s => g (f s)) (as ++ bs) := by
  intro s h
  refine (Appends.comp hf hg s h).congr ?_ (fun _ _ => rfl)
  rw [layout_append, layout_bytes, layout_bytes, layout_bytes]

theorem AppendsBytes.nil : AppendsBytes (fun s => s) [] :=
  fun s h => (Extends.refl s h).congr (layout_bytes []).symm (fun _ _ => rfl)

theorem AppendsBytes.emitIf {f : JitState → JitState} {bs : Bytes} (c : Bool)
    (hf : AppendsBytes f bs) : AppendsBytes (emitIf c f) (if c then bs else []) := by
  cases c with
  | true => exact hf
  | false => exact AppendsBytes.nil

/-! ## Bytes -/

theorem appends_emitBytes (data : Bytes) : AppendsBytes (emitBytes data) data := by
  intro s h
  by_cases hstatus : s.jitStatus = .noError
  · by_cases hroom : s.size < s.offset + data.length
    · simp only [emitBytes, hstatus, ne_eq, not_true_eq_false, if_false, hroom, if_true,
        reduceCtorEq] at h
    · have hemit : emitBytes data s = { s with buf := s.buf ++ data } := by
        simp only [emitBytes, hstatus, ne_eq, not_true_eq_false, if_false, hroom]
      rw [hemit]
      exact
        { before := hstatus
          status := hstatus
          buf := by rw [layout_bytes]
          table := fun t => by
            rw [tableOf_bytes, List.map_nil, List.append_nil]
            cases t with
            | jumps => rfl
            | localCalls => rfl
            | loads => rfl
            | leas => rfl
          fits := fun _ => by
            rw [JitState.offset, List.length_append]
            exact Nat.le_of_not_lt hroom
          marks := rfl }
  · simp only [emitBytes, ne_eq, hstatus, not_false_eq_true, if_true] at h

theorem appends_emit1 (x : Nat) : AppendsBytes (emit1 x) [UInt8.ofNat x] := appends_emitBytes _

theorem appends_emit4 (x : Nat) : AppendsBytes (emit4 x) (toLE 4 x) := appends_emitBytes _

theorem appends_modrm (mode : Nat) (r m : Reg) :
    AppendsBytes (emitModrm mode r m) [modrmByte mode r m] := appends_emit1 _

theorem appends_rex (w r x b : Bool) : AppendsBytes (emitRex w r x b) [rexByte w r x b] :=
  appends_emit1 _

theorem appends_basicRex (w : Bool) (src dst : Reg) :
    AppendsBytes (emitBasicRex w src dst) (basicRex w src dst) :=
  AppendsBytes.emitIf (w || highReg src || highReg dst) (appends_rex _ _ _ _)

theorem appends_disp (r m : Reg) (d : Int) :
    AppendsBytes (emitModrmAndDisplacement r m d) (dispBytes r m d) := by
  intro s h
  simp only [emitModrmAndDisplacement, dispBytes] at h ⊢
  split
  next hzero =>
    rw [if_pos hzero] at h
    exact appends_modrm _ r m s h
  next hzero =>
    rw [if_neg hzero] at h
    split
    next hshort =>
      rw [if_pos hshort] at h
      exact (appends_modrm _ r m).comp (appends_emitBytes _) s h
    next hshort =>
      rw [if_neg hshort] at h
      exact (appends_modrm _ r m).comp (appends_emitBytes _) s h

/-! ## Instructions without a field -/

/-- An emitter of encoded instructions. -/
def Emits (f : JitState → JitState) (es : List Encoded) : Prop :=
  Appends f (es.map Encoded.piece)

theorem Emits.comp {f g : JitState → JitState} {es es' : List Encoded} (hf : Emits f es)
    (hg : Emits g es') : Emits (fun s => g (f s)) (es ++ es') := by
  rw [Emits, List.map_append]
  exact Appends.comp hf hg

theorem Emits.cons {f g : JitState → JitState} {e : Encoded} {es : List Encoded}
    (hf : Emits f [e]) (hg : Emits g es) : Emits (fun s => g (f s)) (e :: es) :=
  Emits.comp hf hg

/-- A listing under a condition. -/
def codeIf (c : Bool) (es : List Encoded) : List Encoded := if c then es else []

theorem Emits.emitIf {f : JitState → JitState} {es : List Encoded} (c : Bool) (hf : Emits f es) :
    Emits (emitIf c f) (codeIf c es) := by
  cases c with
  | true => exact hf
  | false => exact Appends.id

theorem emits_push (r : Reg) : Emits (emitPush r) [.push r] :=
  (appends_basicRex _ _ _).comp (appends_emit1 _)

theorem emits_pop (r : Reg) : Emits (emitPop r) [.pop r] :=
  (appends_basicRex _ _ _).comp (appends_emit1 _)

theorem appends_alu (is64 : Bool) (op : Nat) (src dst : Reg) :
    AppendsBytes (emitAlu is64 op src dst) (aluBytes is64 (UInt8.ofNat op) src dst) := by
  have h := ((appends_basicRex is64 src dst).comp (appends_emit1 op)).comp
    (appends_modrm 0xc0 src dst)
  rw [List.append_assoc] at h
  exact h

theorem emits_bin (op : BinOp) (is64 : Bool) (code : Nat) (src dst : Reg)
    (h : UInt8.ofNat code = op.opcode) :
    Emits (emitAlu is64 code src dst) [.bin op is64 src dst] := by
  have happ := appends_alu is64 code src dst
  rw [h] at happ
  exact happ

theorem appends_aluImm (is64 : Bool) (op : Nat) (src dst : Reg) (imm : Int) :
    AppendsBytes (emitAluImm32 is64 op src dst imm)
      (aluImmBytes is64 (UInt8.ofNat op) src dst imm) :=
  (appends_alu is64 op src dst).comp (appends_emitBytes _)

theorem emits_binImm (op : ImmOp) (is64 : Bool) (dst : Reg) (imm : Int) :
    Emits (emitAluImm32 is64 0x81 op.extension dst imm) [.binImm op is64 imm dst] :=
  appends_aluImm is64 0x81 op.extension dst imm

theorem emits_movImm (is64 : Bool) (dst : Reg) (imm : Int) :
    Emits (emitAluImm32 is64 0xc7 0 dst imm) [.movImm is64 imm dst] :=
  appends_aluImm is64 0xc7 0 dst imm

theorem emits_testImm (is64 : Bool) (dst : Reg) (imm : Int) :
    Emits (emitAluImm32 is64 0xf7 0 dst imm) [.testImm is64 imm dst] :=
  appends_aluImm is64 0xf7 0 dst imm

theorem appends_aluImm8 (is64 : Bool) (op : Nat) (src dst : Reg) (imm : Int) :
    AppendsBytes (emitAluImm8 is64 op src dst imm)
      (aluImm8Bytes is64 (UInt8.ofNat op) src dst imm) :=
  (appends_alu is64 op src dst).comp (appends_emitBytes _)

theorem emits_shiftImm (op : ShiftOp) (is64 : Bool) (dst : Reg) (imm : Int) :
    Emits (emitAluImm8 is64 0xc1 op.extension dst imm) [.shiftImm op is64 imm dst] :=
  appends_aluImm8 is64 0xc1 op.extension dst imm

theorem emits_shiftCl (op : ShiftOp) (is64 : Bool) (dst : Reg) :
    Emits (emitAlu is64 0xd3 op.extension dst) [.shiftCl op is64 dst] :=
  appends_alu is64 0xd3 op.extension dst

theorem emits_neg (is64 : Bool) (dst : Reg) : Emits (emitAlu is64 0xf7 3 dst) [.neg is64 dst] :=
  appends_alu is64 0xf7 3 dst

theorem emits_mov (src dst : Reg) : Emits (emitMov src dst) [.bin .mov true src dst] :=
  appends_alu true 0x89 src dst

theorem emits_loadImm (dst : Reg) (imm : Int) : Emits (emitLoadImm dst imm) [.loadImm dst imm] := by
  intro s h
  simp only [emitLoadImm, Encoded.loadImm] at h ⊢
  split
  next hshort =>
    rw [if_pos hshort] at h
    exact emits_movImm true dst imm s h
  next hshort =>
    rw [if_neg hshort] at h
    have happ := ((appends_basicRex true 0 dst).comp
      (appends_emit1 (0xb8 ||| dst.val % 8))).comp (appends_emitBytes (toLE 8 (imm % 2 ^ 64).toNat))
    rw [List.append_assoc] at happ
    exact happ s h

theorem emits_rol16 (n : Int) (dst : Reg) :
    Emits (fun s => emitAlu32Imm8 0xc1 0 dst n (emit1 0x66 s)) [.rol16 n dst] :=
  (appends_emit1 0x66).comp (appends_aluImm8 false 0xc1 0 dst n)

theorem emits_bswap (is64 : Bool) (dst : Reg) :
    Emits (fun s => emit1 (0xc8 ||| dst.val % 8) (emit1 0x0f (emitBasicRex is64 0 dst s)))
      [.bswap is64 dst] := by
  have h := ((appends_basicRex is64 0 dst).comp (appends_emit1 0x0f)).comp
    (appends_emit1 (0xc8 ||| dst.val % 8))
  rw [List.append_assoc] at h
  exact h

/-- The widening operations are emitted as 32-bit ones, with the prefix of the
    64-bit form in front. -/
theorem appends_mulDiv (is64 : Bool) (ext : Reg) (h : highReg ext = false) :
    AppendsBytes (fun s => emitAlu32 0xf7 ext rcx (emitIf is64 (emitRex true false false false) s))
      (mulDivBytes is64 ext) := by
  have happ := (AppendsBytes.emitIf is64 (appends_rex true false false false)).comp
    (appends_alu false 0xf7 ext rcx)
  have hbytes : (if is64 = true then [rexByte true false false false] else []) ++
      aluBytes false (UInt8.ofNat 0xf7) ext rcx = mulDivBytes is64 ext := by
    cases is64 with
    | false => simp only [Bool.false_eq_true, if_false, List.nil_append]; rfl
    | true =>
        simp only [if_true, mulDivBytes, aluBytes, basicRex, h, Bool.or_self, Bool.false_or,
          Bool.or_false, Bool.true_or]
        rfl
  rw [hbytes] at happ
  exact happ

theorem appends_load (size : OperandSize) (src dst : Reg) (offset : Int) :
    AppendsBytes (emitLoad size src dst offset) (loadBytes size src dst offset) := by
  have hrex := appends_basicRex (size = .s64) dst src
  cases size with
  | s8 =>
      have happ := hrex.comp (((appends_emit1 0x0f).comp (appends_emit1 0xb6)).comp
        (appends_disp dst src offset))
      exact happ
  | s16 =>
      have happ := hrex.comp (((appends_emit1 0x0f).comp (appends_emit1 0xb7)).comp
        (appends_disp dst src offset))
      exact happ
  | s32 => exact hrex.comp ((appends_emit1 0x8b).comp (appends_disp dst src offset))
  | s64 => exact hrex.comp ((appends_emit1 0x8b).comp (appends_disp dst src offset))

theorem emits_load (size : OperandSize) (src dst : Reg) (offset : Int) (h : src.val % 8 ≠ 4) :
    Emits (emitLoad size src dst offset) [.load size src dst offset h] :=
  appends_load size src dst offset

theorem appends_store (size : OperandSize) (src dst : Reg) (offset : Int) :
    AppendsBytes (emitStore size src dst offset) (storeBytes size src dst offset) := by
  have hdisp := appends_disp src dst offset
  -- The prefix and the opcode depend on the size.
  cases size with
  | s8 =>
      have happ := ((appends_rex false (highReg src) false (highReg dst)).comp
        (appends_emit1 0x88)).comp hdisp
      intro s hs
      simp only [emitStore, reduceCtorEq, if_false, decide_false, Bool.false_or, Bool.or_true,
        decide_true, if_true] at hs ⊢
      exact happ s hs
  | s16 =>
      have happ := ((appends_emit1 0x66).comp ((appends_basicRex false src dst).comp
        (appends_emit1 0x89))).comp hdisp
      intro s hs
      simp only [emitStore, reduceCtorEq, if_false, decide_false, Bool.or_false, if_true] at hs ⊢
      exact happ s hs
  | s32 =>
      have happ := ((appends_basicRex false src dst).comp (appends_emit1 0x89)).comp hdisp
      intro s hs
      simp only [emitStore, reduceCtorEq, if_false, decide_false, Bool.or_false] at hs ⊢
      exact happ s hs
  | s64 =>
      have happ := ((appends_basicRex true src dst).comp (appends_emit1 0x89)).comp hdisp
      intro s hs
      simp only [emitStore, reduceCtorEq, if_false, decide_false, Bool.or_false,
        decide_true] at hs ⊢
      exact happ s hs

theorem emits_store (size : OperandSize) (src dst : Reg) (offset : Int) (h : dst.val % 8 ≠ 4) :
    Emits (emitStore size src dst offset) [.store size src dst offset h] :=
  appends_store size src dst offset

theorem emits_storeImm (size : OperandSize) (dst : Reg) (offset imm : Int)
    (h : dst.val % 8 ≠ 4) :
    Emits (emitStoreImm32 size dst offset imm) [.storeImm size dst offset imm h] := by
  have hdisp := appends_disp 0 dst offset
  cases size with
  | s8 =>
      exact ((appends_basicRex false 0 dst).comp (appends_emit1 0xc6)).comp
        (hdisp.comp (appends_emitBytes (toLE 1 (u32 imm))))
  | s16 =>
      exact ((appends_emit1 0x66).comp ((appends_basicRex false 0 dst).comp
        (appends_emit1 0xc7))).comp (hdisp.comp (appends_emitBytes (toLE 2 (u32 imm))))
  | s32 =>
      exact ((appends_basicRex false 0 dst).comp (appends_emit1 0xc7)).comp
        (hdisp.comp (appends_emitBytes (toLE 4 (u32 imm))))
  | s64 =>
      exact ((appends_basicRex true 0 dst).comp (appends_emit1 0xc7)).comp
        (hdisp.comp (appends_emitBytes (toLE 4 (u32 imm))))

/-! ## Instructions with a field -/

/-- Append an entry to one of the tables. -/
def JitState.note (s : JitState) (t : Table) (e : PatchableRelative) : JitState :=
  match t with
  | .jumps => { s with jumps := s.jumps ++ [e] }
  | .localCalls => { s with localCalls := s.localCalls ++ [e] }
  | .loads => { s with loads := s.loads ++ [e] }
  | .leas => { s with leas := s.leas ++ [e] }

theorem JitState.table_note (s : JitState) (t t' : Table) (e : PatchableRelative) :
    (s.note t e).table t' = s.table t' ++ if t = t' then [e] else [] := by
  cases t
  all_goals cases t'
  all_goals simp only [JitState.note, JitState.table, reduceCtorEq, if_false, if_true,
    List.append_nil]

theorem JitState.note_fields (s : JitState) (t : Table) (e : PatchableRelative) :
    (s.note t e).jitStatus = s.jitStatus ∧ (s.note t e).buf = s.buf ∧
      (s.note t e).marks = s.marks := by
  cases t
  all_goals exact ⟨rfl, rfl, rfl⟩

/-- An entry for the next bytes, and the bytes. -/
theorem appends_note (t : Table) (target : Target) (f : JitState → JitState) (bs : Bytes)
    (hf : AppendsBytes f bs) :
    Appends (fun s => f (s.note t (toEntry (s.offset, target))))
      [⟨[], some ⟨t, target⟩, bs⟩] := by
  intro s h
  have hext := hf _ h
  rcases s.note_fields t (toEntry (s.offset, target)) with ⟨hstatus, hbuf, hmarks⟩
  refine
    { before := hstatus.symm.trans hext.before
      status := hext.status
      buf := ?_
      table := fun t' => ?_
      fits := fun hfits => hext.fits ?_
      marks := hext.marks.trans hmarks }
  · rw [hext.buf, hbuf, layout_bytes, layout_cons, layout_nil, List.append_nil, Piece.bytes,
      List.nil_append]
  · rw [hext.table, tableOf_bytes, List.map_nil, List.append_nil, JitState.table_note]
    by_cases ht : t = t'
    · simp only [ht, if_true, tableOf, Piece.entry, List.length_nil, Nat.add_zero,
        List.append_nil, List.map_cons, List.map_nil]
    · simp only [ht, if_false, tableOf, Piece.entry, List.append_nil, List.map_nil]
  · rw [JitState.offset, hbuf]
    exact hfits.trans_eq (congrArg Marks.size hmarks).symm

/-- Fixed bytes and a field after them make one piece. -/
theorem AppendsBytes.field {f g : JitState → JitState} {as bs : Bytes}
    {field : Option (Field Table Target)} (hf : AppendsBytes f as)
    (hg : Appends g [⟨[], field, bs⟩]) : Appends (fun s => g (f s)) [⟨as, field, bs⟩] := by
  intro s h
  refine (Appends.comp hf hg s h).congr ?_ (fun t base => ?_)
  · simp only [layout_append, layout_cons, layout_nil, Piece.bytes, List.nil_append,
      List.append_nil]
  · rw [tableOf_append, tableOf_bytes, layout_bytes, List.nil_append]
    simp only [tableOf, List.append_nil, Piece.entry, List.length_nil, Nat.add_zero]

theorem appends_jumpReloc (pc : Nat) :
    Appends (fun s => (emitJumpAddressReloc pc s).2)
      [⟨[], some ⟨.jumps, ⟨pc, 0, false⟩⟩, toLE 4 0⟩] := by
  intro s h
  by_cases hfull : s.jumps.length = maxInsts
  · simp only [emitJumpAddressReloc, hfull, if_true, reduceCtorEq] at h
  · simp only [emitJumpAddressReloc, hfull, if_false] at h ⊢
    exact appends_note .jumps ⟨pc, 0, false⟩ emit4byteOffsetPlaceholder _ (appends_emit4 0) s h

theorem appends_nearJumpReloc (pc : Nat) :
    Appends (fun s => (emitNearJumpAddressReloc pc s).2)
      [⟨[], some ⟨.jumps, ⟨pc, 0, true⟩⟩, toLE 1 0⟩] := by
  intro s h
  by_cases hfull : s.jumps.length = maxInsts
  · simp only [emitNearJumpAddressReloc, hfull, if_true, reduceCtorEq] at h
  · simp only [emitNearJumpAddressReloc, hfull, if_false] at h ⊢
    exact appends_note .jumps ⟨pc, 0, true⟩ (emit1 0) _ (appends_emit1 0) s h

theorem appends_localCallReloc (pc : Nat) :
    Appends (emitLocalCallAddressReloc pc)
      [⟨[], some ⟨.localCalls, ⟨pc, 0, false⟩⟩, toLE 4 0⟩] := by
  intro s h
  by_cases hfull : s.localCalls.length = maxInsts
  · simp only [emitLocalCallAddressReloc, hfull, if_true, reduceCtorEq] at h
  · simp only [emitLocalCallAddressReloc, hfull, if_false] at h ⊢
    exact appends_note .localCalls ⟨pc, 0, false⟩ emit4byteOffsetPlaceholder _ (appends_emit4 0) s h

theorem emits_jmp (pc : Nat) : Emits (fun s => (emitJmp pc s).2) [.jmp pc 0] :=
  AppendsBytes.field (appends_emit1 0xe9) (appends_jumpReloc pc)

theorem emits_nearJmp (pc : Nat) :
    Emits (fun s => (emitNearJmp pc s).2) [.nearJmp pc 0] :=
  AppendsBytes.field (appends_emit1 0xeb) (appends_nearJumpReloc pc)

theorem emits_call (pc : Nat) : Emits (fun s => (emitCall pc s).2) [.call pc 0] :=
  AppendsBytes.field (appends_emit1 0xe8) (appends_jumpReloc pc)

theorem emits_jcc (cond : Cond) (code pc : Nat) (h : UInt8.ofNat code = cond.code) :
    Emits (fun s => (emitJcc code pc s).2) [.jcc cond pc 0] := by
  have happ := AppendsBytes.field ((appends_emit1 0x0f).comp (appends_emit1 code))
    (appends_jumpReloc pc)
  rw [h] at happ
  exact happ

theorem emits_localCall (pc : Nat) :
    Emits (fun s => emitLocalCallAddressReloc pc (emit1 0xe8 s)) [.localCall pc] :=
  AppendsBytes.field (appends_emit1 0xe8) (appends_localCallReloc pc)

theorem emits_loadDispatcher :
    Emits (emitRipRelativeLoad rax targetPcExternalDispatcher) [.loadDispatcher] := by
  intro s h
  by_cases hfull : s.loads.length = maxInsts
  · simp only [emitRipRelativeLoad, hfull, if_true, reduceCtorEq] at h
  · simp only [emitRipRelativeLoad, hfull, if_false] at h ⊢
    exact AppendsBytes.field (((appends_rex true false false false).comp
      (appends_emit1 0x8b)).comp (appends_modrm 0 rax 5))
      (appends_note .loads ⟨targetPcExternalDispatcher, 0, false⟩ emit4byteOffsetPlaceholder _
        (appends_emit4 0)) s h

theorem emits_leaTable : Emits (emitRipRelativeLea r10 targetLoadHelperTable) [.leaTable] := by
  intro s h
  by_cases hfull : s.leas.length = maxInsts
  · simp only [emitRipRelativeLea, hfull, if_true, reduceCtorEq] at h
  · simp only [emitRipRelativeLea, hfull, if_false] at h ⊢
    exact AppendsBytes.field (((appends_rex true true false false).comp
      (appends_emit1 0x8d)).comp (appends_modrm 0 r10 5))
      (appends_note .leas ⟨targetLoadHelperTable, 0, false⟩ emit4byteOffsetPlaceholder _
        (appends_emit4 0)) s h

/-- Where a jump notes its distance to go. -/
theorem emitJumpAddressReloc_loc (pc : Nat) (s : JitState)
    (h : (emitJumpAddressReloc pc s).2.jitStatus = .noError) :
    (emitJumpAddressReloc pc s).1 = s.offset := by
  by_cases hfull : s.jumps.length = maxInsts
  · simp only [emitJumpAddressReloc, hfull, if_true, reduceCtorEq] at h
  · simp only [emitJumpAddressReloc, hfull, if_false]

theorem emitJcc_loc (code pc : Nat) (s : JitState)
    (h : (emitJcc code pc s).2.jitStatus = .noError) : (emitJcc code pc s).1 = s.offset + 2 := by
  have hext := appends_jumpReloc pc (emit1 code (emit1 0x0f s)) h
  have hoff := ((appends_emit1 0x0f).comp (appends_emit1 code) s hext.before).offset
  rw [emitJcc, emitJumpAddressReloc_loc pc _ h, hoff]
  rfl

theorem emitNearJmp_loc (pc : Nat) (s : JitState)
    (h : (emitNearJmp pc s).2.jitStatus = .noError) : (emitNearJmp pc s).1 = s.offset + 1 := by
  have hext := appends_nearJumpReloc pc (emit1 0xeb s) h
  have hoff := (appends_emit1 0xeb s hext.before).offset
  by_cases hfull : (emit1 0xeb s).jumps.length = maxInsts
  · simp only [emitNearJmp, emitNearJumpAddressReloc, hfull, if_true, reduceCtorEq] at h
  · simp only [emitNearJmp, emitNearJumpAddressReloc, hfull, if_false, hoff]
    rfl

/-! ## Going back to an entry -/

/-- The entries of the table of jumps lie in the filled part. -/
def Placed (s : JitState) : Prop := ∀ e ∈ s.jumps, e.offsetLoc ≤ s.offset

theorem Gains.placed {s s' : JitState} {ps : List CodePiece} (h : Gains s s' ps)
    (hs : Placed s) : Placed s' := by
  intro e he
  have htable := h.table .jumps
  rw [h.offset]
  simp only [JitState.table] at htable
  rw [htable, List.mem_append] at he
  rcases he with he | he
  · exact le_trans (hs e he) (Nat.le_add_right _ _)
  · rw [List.mem_map] at he
    rcases he with ⟨entry, hentry, rfl⟩
    exact (tableOf_between .jumps s.offset ps entry hentry).2

theorem fixupJumpTarget_other (table : List PatchableRelative) (src dest : Nat)
    (h : ∀ e ∈ table, e.offsetLoc ≠ src) : fixupJumpTarget table src dest = table := by
  rw [fixupJumpTarget]
  refine (List.map_congr_left (fun e he => ?_)).trans (List.map_id _)
  rw [if_neg (h e he)]
  rfl

/-- A piece with another target for its field. -/
def retarget (p : CodePiece) (target : Target) : CodePiece :=
  { p with field := some ⟨.jumps, target⟩ }

/-- Giving the entry of one piece another target. The pieces around it are
    not concerned, since theirs are in other places. -/
theorem Gains.fixup {s s' : JitState} {ps qs : List CodePiece} (p : CodePiece) (target : Target)
    (dest : Nat) (h : Gains s s' (ps ++ p :: qs)) (hs : Placed s)
    (hfield : p.field = some ⟨.jumps, target⟩) (hhead : 0 < p.head.length)
    (hcontent : 0 < p.content.length) :
    Gains s (s'.redirect (s.offset + (layout ps).length + p.head.length) dest)
      (ps ++ retarget p { target with offset := dest } :: qs) := by
  have hbytes : (retarget p { target with offset := dest }).bytes = p.bytes := rfl
  refine
    { before := h.before
      status := h.status
      buf := ?_
      table := fun t => ?_
      fits := h.fits }
  · rw [layout_append, layout_cons, hbytes, ← layout_cons, ← layout_append]
    exact h.buf
  · have htable := h.table t
    rw [tableOf_append, tableOf] at htable ⊢
    rw [hbytes]
    cases t with
    | jumps =>
        have hentry : p.entry .jumps (s.offset + (layout ps).length) =
            [(s.offset + (layout ps).length + p.head.length, target)] := by
          simp only [Piece.entry, hfield, if_true]
        have hentry' : (retarget p { target with offset := dest }).entry .jumps
            (s.offset + (layout ps).length) =
            [(s.offset + (layout ps).length + p.head.length, { target with offset := dest })] := by
          simp only [Piece.entry, retarget, if_true]
        simp only [JitState.table, JitState.redirect] at htable ⊢
        rw [htable, hentry, hentry']
        simp only [List.map_append, List.map_cons, List.singleton_append]
        rw [fixupJumpTarget, List.map_append, List.map_append, List.map_cons]
        -- The three parts of the table before, at and after the entry.
        have hbefore := fixupJumpTarget_other s.jumps
          (s.offset + (layout ps).length + p.head.length) dest
          (fun e he => by have := hs e he; omega)
        have hps := fixupJumpTarget_other ((tableOf .jumps s.offset ps).map toEntry)
          (s.offset + (layout ps).length + p.head.length) dest (fun e he => by
            rw [List.mem_map] at he
            rcases he with ⟨entry, hentry, rfl⟩
            have := (tableOf_between .jumps s.offset ps entry hentry).2
            simp only [toEntry]
            omega)
        have hqs := fixupJumpTarget_other ((tableOf .jumps
            (s.offset + (layout ps).length + p.bytes.length) qs).map toEntry)
          (s.offset + (layout ps).length + p.head.length) dest (fun e he => by
            rw [List.mem_map] at he
            rcases he with ⟨entry, hentry, rfl⟩
            have := (tableOf_between .jumps _ qs entry hentry).1
            rw [Piece.bytes, List.length_append] at this
            simp only [toEntry]
            omega)
        rw [fixupJumpTarget] at hbefore hps hqs
        rw [hbefore, hps, hqs]
        simp only [toEntry, if_true]
    | localCalls =>
        simp only [JitState.table, JitState.redirect, Piece.entry, hfield, retarget, reduceCtorEq,
          if_false] at htable ⊢
        exact htable
    | loads =>
        simp only [JitState.table, JitState.redirect, Piece.entry, hfield, retarget, reduceCtorEq,
          if_false] at htable ⊢
        exact htable
    | leas =>
        simp only [JitState.table, JitState.redirect, Piece.entry, hfield, retarget, reduceCtorEq,
          if_false] at htable ⊢
        exact htable

/-- Nothing is noted for a place inside a piece without a field. -/
theorem Gains.redirect_inside {s s' : JitState} {ps qs : List CodePiece} (p : CodePiece)
    (src dest : Nat) (h : Gains s s' (ps ++ p :: qs)) (hs : Placed s) (hfield : p.field = none)
    (hlow : s.offset + (layout ps).length < src)
    (hhigh : src < s.offset + (layout ps).length + p.bytes.length) :
    s'.redirect src dest = s' := by
  have htable := h.table .jumps
  have hentry : p.entry .jumps (s.offset + (layout ps).length) = [] := by
    simp only [Piece.entry, hfield]
  rw [tableOf_append, tableOf, hentry, List.nil_append, List.map_append] at htable
  simp only [JitState.table] at htable
  have hother : fixupJumpTarget s'.jumps src dest = s'.jumps := by
    refine fixupJumpTarget_other _ _ _ (fun e he => ?_)
    rw [htable, List.mem_append, List.mem_append, List.mem_map, List.mem_map] at he
    rcases he with he | ⟨entry, hin, rfl⟩ | ⟨entry, hin, rfl⟩
    · have := hs e he
      omega
    · have := (tableOf_between .jumps _ ps entry hin).2
      simp only [toEntry]
      omega
    · have := (tableOf_between .jumps _ qs entry hin).1
      simp only [toEntry]
      omega
  rw [JitState.redirect, hother]

end UniBPF
