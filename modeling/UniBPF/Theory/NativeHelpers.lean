import UniBPF.Theory.NativeCalls

/-!
# Calls of Helpers in Compiled Code

The code finds the address of a helper in a table at the end of the image,
unless there is a dispatcher of external calls, which nobody registers here.
The address is called with the five argument registers of the program in the
places where the host expects arguments.

What the host does is not code the translator has made. `ServesHelpers` is the
contract: a helper follows the calling convention, so it keeps the registers
a function has to keep and may change all others, and it does to memory what
the interpreter's helper does. After a call the registers `r1` to `r5` of the
program are therefore unknown, where under the interpreter they are kept.

## Main definitions

* `helperArgs`, `ServesHelpers`: What a helper is given, and what it has to do.
* `ExecState.scratch`: The five registers have changed.
* `Site.Reaches`: The code takes the machine to one with a property.

## Theorems

* `InPlace.load_helper`: The table holds the addresses of the helpers.
* `InPlace.helper_address`: The code finds the address.
* `InPlace.calls_helper`: The call.
-/

namespace UniBPF

open LittleEndian X86 Relocations

/-! ## Words in the image -/

theorem getElem?_toLE (n v k : Nat) (hk : k < n) : (toLE n v)[k]? = some (byteOf v k) := by
  induction n generalizing v k with
  | zero => exact absurd hk (Nat.not_lt_zero k)
  | succ n ih =>
      rw [toLE]
      cases k with
      | zero => rw [List.getElem?_cons_zero, byteOf, pow_zero, Nat.div_one]
      | succ k =>
          rw [List.getElem?_cons_succ, ih (v / 256) k (by omega), byteOf_div]

theorem getElem?_words (g : Nat → Nat) (n idx k : Nat) (hidx : idx < n) (hk : k < 8) :
    ((List.range n).flatMap fun i => toLE 8 (g i))[8 * idx + k]? = some (byteOf (g idx) k) := by
  have hlen : ∀ n, ((List.range n).flatMap fun i => toLE 8 (g i)).length = 8 * n := by
    intro n
    induction n with
    | zero => rfl
    | succ n ih =>
        rw [List.range_succ, List.flatMap_append, List.length_append, ih, List.flatMap_singleton,
          length_toLE]
        omega
  induction n with
  | zero => exact absurd hidx (Nat.not_lt_zero idx)
  | succ n ih =>
      rw [List.range_succ, List.flatMap_append, List.flatMap_singleton]
      by_cases hlast : idx = n
      · subst hlast
        rw [List.getElem?_append_right (by rw [hlen]; omega), hlen,
          show 8 * idx + k - 8 * idx = k by omega]
        exact getElem?_toLE 8 _ k hk
      · rw [List.getElem?_append_left (by rw [hlen]; omega)]
        exact ih (by omega)

section Helpers

variable {t : Site} {program : ProgramView} {mode : JitMode} {fp : Word} {s : ExecState} {a : Abs}
  {host : HostAddresses} {size : Nat}

theorem dispatcherStart_eq (program : ProgramView) (mode : JitMode) :
    codeLength (codeListing program mode) = dispatcherStart program mode := by
  rw [codeListing, codeLength_append, codeLength_append, codeLength_append, ← Nat.add_assoc,
    ← Nat.add_assoc]
  rfl

/-- The image ends with the two tables of addresses. -/
theorem InPlace.data (ht : InPlace t host program size mode) :
    ∃ pre, t.code = pre ++ (toLE 8 host.dispatcher.toNat ++ helperTable host program) ∧
      pre.length = dispatcherStart program mode := by
  refine ⟨layout (fill (fieldBytes t.marks) (fun _ => true) 0
    (pieces (codeListing program mode))), ?_, ?_⟩
  · have hdata : ∀ base, layout (fill (fieldBytes t.marks) (fun _ => true) base
        (dataPieces host program)) =
        toLE 8 host.dispatcher.toNat ++ helperTable host program := by
      intro base
      simp only [dataPieces, fill, Piece.fillAt, dataPiece, layout_cons, layout_nil, Piece.bytes,
        List.append_nil]
    rw [ht.code, linked, image, fill_append, layout_append, hdata]
  · rw [length_layout_fill _ _ _ _ (fits_pieces t.marks _)]
    exact dispatcherStart_eq program mode

/-- A word of the image as the processor reads it. -/
theorem InPlace.load_word (off : Nat) (v : Word) {m mem : Memory} {stack : List Word}
    (hm : Holds t.ground mem stack m)
    (h : ∀ k < 8, t.code[off + k]? = some (byteOf v.toNat k)) :
    m.load (t.at off) 8 = some v.toNat := by
  have hload := load_of_bytes m (t.at off) 8 v.toNat (fun k hk => by
    have hfixed := hm.fixed _ _ (t.loaded (off + k) _ (h k hk))
    rw [Site.at, BitVec.add_assoc, ← BitVec.ofNat_add]
    exact hfixed)
  have hword : v.toNat < 256 ^ 8 := v.isLt
  rw [hload, Nat.mod_eq_of_lt hword]

theorem InPlace.load_dispatcher (ht : InPlace t host program size mode) {m mem : Memory}
    {stack : List Word} (hm : Holds t.ground mem stack m) :
    m.load (t.at (dispatcherStart program mode)) 8 = some host.dispatcher.toNat := by
  rcases ht.data with ⟨pre, hcode, hpre⟩
  refine InPlace.load_word _ _ hm (fun k hk => ?_)
  rw [hcode, List.getElem?_append_right (by omega), hpre, Nat.add_sub_cancel_left,
    List.getElem?_append_left (by rw [length_toLE]; exact hk)]
  exact getElem?_toLE 8 _ k hk

/-- The table holds the addresses of the helpers. -/
theorem InPlace.load_helper (ht : InPlace t host program size mode) (idx : Nat)
    (hidx : idx < maxExtFuncs) {m mem : Memory} {stack : List Word}
    (hm : Holds t.ground mem stack m) :
    m.load (t.at (dispatcherStart program mode + 8 + 8 * idx)) 8 =
      some (host.helper program idx).toNat := by
  rcases ht.data with ⟨pre, hcode, hpre⟩
  refine InPlace.load_word _ _ hm (fun k hk => ?_)
  rw [hcode, List.getElem?_append_right (by omega), hpre,
    List.getElem?_append_right (by rw [length_toLE]; omega), length_toLE,
    show dispatcherStart program mode + 8 + 8 * idx + k - dispatcherStart program mode - 8 =
      8 * idx + k by omega]
  exact getElem?_words _ _ idx k hidx hk

/-- The image ends where the table ends. -/
theorem InPlace.table_end (ht : InPlace t host program size mode) :
    dispatcherStart program mode + 8 ≤ t.code.length := by
  rcases ht.data with ⟨pre, hcode, hpre⟩
  rw [hcode, List.length_append, List.length_append, length_toLE, hpre]
  omega

/-! ## Instructions relative to the next -/

theorem rip_addr (next : Word) (c : Cpu) (disp : Int) :
    (⟨.rip, none, disp⟩ : MemRef).addr next c = next + BitVec.ofInt 64 disp := by
  have hzero : next + (0 : Word) = next := BitVec.add_zero next
  simp only [MemRef.addr, hzero]

theorem Site.Runs.loadDispatcher (t : Site) (a : Abs) {off dest : Nat} (v : Word)
    (hlist : Encoded.loadDispatcher.linkedBytes t.marks off <+: t.code.drop off)
    (hdest : t.marks.dispatcherLoc = dest) (hoff : off + 7 < 2 ^ 31) (hd : dest < 2 ^ 31)
    (hload : ∀ m, Holds t.ground a.cpu.mem a.stack m → m.load (t.at dest) 8 = some v.toNat) :
    t.Runs off a (off + 7) ⟨a.cpu.set rax v, a.stack⟩ := by
  refine Site.Runs.single _ hlist (fun m hm => ⟨m, hm, ?_⟩)
  have hdest' : destination t.marks .loads ⟨targetPcExternalDispatcher, 0, false⟩ = dest :=
    congrArg (Nat.cast (R := Int)) hdest
  have hfield := distance_field t.marks .loads ⟨targetPcExternalDispatcher, 0, false⟩ (off + 3)
    dest rfl hdest' hoff hd
  have hinstr : Encoded.loadDispatcher.linkedInstr t.marks off =
      .op (.load 8 ⟨.rip, none, (dest : Int) - (off + 7 : Nat)⟩ rax) :=
    congrArg (fun d => Instr.op (.load 8 ⟨.rip, none, d⟩ rax)) hfield
  have hsize : Encoded.loadDispatcher.size = 7 := rfl
  have hmem : (a.cpu.at (t.ground.sp a.stack.length) m).mem = m := rfl
  rw [hinstr, hsize]
  simp only [Instr.exec, Op.exec, rip_addr, t.at_distance, hmem, hload m hm, Option.map_some,
    BitVec.ofNat_toNat, BitVec.setWidth_eq, a.cpu.at_set _ m rax v (by decide)]

theorem Site.Runs.leaTable (t : Site) (a : Abs) {off dest : Nat}
    (hlist : Encoded.leaTable.linkedBytes t.marks off <+: t.code.drop off)
    (hdest : t.marks.helperTableLoc = dest) (hoff : off + 7 < 2 ^ 31) (hd : dest < 2 ^ 31) :
    t.Runs off a (off + 7) ⟨a.cpu.set r10 (t.at dest), a.stack⟩ := by
  refine Site.Runs.single _ hlist (fun m hm => ⟨m, hm, ?_⟩)
  have hdest' : destination t.marks .leas ⟨targetLoadHelperTable, 0, false⟩ = dest :=
    congrArg (Nat.cast (R := Int)) hdest
  have hfield := distance_field t.marks .leas ⟨targetLoadHelperTable, 0, false⟩ (off + 3)
    dest rfl hdest' hoff hd
  have hinstr : Encoded.leaTable.linkedInstr t.marks off =
      .op (.lea ⟨.rip, none, (dest : Int) - (off + 7 : Nat)⟩ r10) :=
    congrArg (fun d => Instr.op (.lea ⟨.rip, none, d⟩ r10)) hfield
  have hsize : Encoded.leaTable.size = 7 := rfl
  rw [hinstr, hsize]
  simp only [Instr.exec, Op.exec, rip_addr, t.at_distance, Option.map_some,
    a.cpu.at_set _ m r10 _ (by decide)]

/-- A load from the image, which the program itself could not make. -/
theorem Site.Runs.loadTable (t : Site) (a : Abs) {off : Nat} (v : Word)
    (hlist : (Encoded.load .s64 rax rax 0 rax_isBase).linkedBytes t.marks off <+: t.code.drop off)
    (hload : ∀ m, Holds t.ground a.cpu.mem a.stack m →
      m.load (a.cpu.regs rax) 8 = some v.toNat) :
    t.Runs off a (off + (Encoded.load .s64 rax rax 0 rax_isBase).size)
      ⟨a.cpu.set rax v, a.stack⟩ := by
  refine Site.Runs.single _ hlist (fun m hm => ⟨m, hm, ?_⟩)
  have hinstr : (Encoded.load .s64 rax rax 0 rax_isBase).linkedInstr t.marks off =
    .op (.load 8 (atReg rax 0) rax) := rfl
  have hmem : (a.cpu.at (t.ground.sp a.stack.length) m).mem = m := rfl
  have haddr : ∀ next, (atReg rax 0).addr next (a.cpu.at (t.ground.sp a.stack.length) m) =
      a.cpu.regs rax := by
    intro next
    rw [atReg_addr rax 0 next _ (by omega), a.cpu.at_regs _ m rax (by decide)]
    exact BitVec.add_zero _
  rw [hinstr]
  simp only [Instr.exec, Op.exec, haddr, hmem, hload m hm, Option.map_some, BitVec.ofNat_toNat,
    BitVec.setWidth_eq, a.cpu.at_set _ m rax v (by decide)]

/-! ## Finding the address -/

/-- The processors differ in these registers and in the flags at most. -/
def Spares (rs : List Reg) (c c' : Cpu) : Prop :=
  (∀ r, r ∉ rs → c'.regs r = c.regs r) ∧ c'.mem = c.mem

theorem Spares.trans {rs rs' : List Reg} {c c' c'' : Cpu} (h : Spares rs c c')
    (h' : Spares rs' c' c'') : Spares (rs ++ rs') c c'' := by
  refine ⟨fun r hr => ?_, h'.2.trans h.2⟩
  rw [List.mem_append, not_or] at hr
  rw [h'.1 r hr.2, h.1 r hr.1]

theorem X86.Cpu.set_self (c : Cpu) (r : Reg) (v : Word) : (c.set r v).regs r = v := by
  simp only [Cpu.set, Function.update_self]

theorem Spares.update {c c' : Cpu} (r : Reg) (v : Word)
    (hregs : c'.regs = Function.update c.regs r v) (hmem : c'.mem = c.mem) : Spares [r] c c' := by
  refine ⟨fun q hq => ?_, hmem⟩
  rw [List.mem_singleton] at hq
  rw [hregs, Function.update_of_ne hq]

/-- There is no dispatcher, so the code goes on with the table. -/
theorem InPlace.helper_dispatch (ht : InPlace t host program size mode)
    (hdispatcher : host.dispatcher = 0) (off dest : Nat) (c : Cpu) (stack : List Word)
    (hstack : stack.length ≤ 62)
    (hlist : Listed t.marks t.code off (dispatchCode ++ [.jcc .ne 0 dest]))
    (hoff : off + 24 < 2 ^ 31) :
    ∃ c', t.Runs off ⟨c, stack⟩ (off + 24) ⟨c', c.regs r11 :: c.regs r11 :: stack⟩ ∧
      Spares [rax] c c' := by
  have hroom := ht.room
  have hshort := ht.short
  have htable := ht.table_end
  have hpush : ∀ stack, Computes [.push r11] ⟨c, stack⟩ ⟨c, c.regs r11 :: stack⟩ :=
    fun stack => computes_push r11 ⟨c, stack⟩ (by decide)
  have hpushes := ((hpush stack).append (hpush _)).runs t
    (show Listed t.marks t.code off [.push r11, .push r11] from ⟨hlist.1, hlist.2.1, trivial⟩)
    (show stack.length + 2 ≤ t.ground.room by omega)
  have hmarks : t.marks.dispatcherLoc = dispatcherStart program mode := by
    rw [ht.marks]
    rfl
  have hload := Site.Runs.loadDispatcher t ⟨c, c.regs r11 :: c.regs r11 :: stack⟩ 0
    hlist.2.2.1 hmarks (show off + 4 + 7 < 2 ^ 31 by omega) (by omega) (fun m hm => by
      rw [ht.load_dispatcher hm, hdispatcher])
  -- Comparing the address with zero sets the flag.
  have hcompare := (computes_binImm .cmp true 0 rax
    ⟨c.set rax 0, c.regs r11 :: c.regs r11 :: stack⟩ (by decide) (by omega)).runs t
    (show Listed t.marks t.code (off + 4 + 7) [.binImm .cmp true 0 rax] from
      ⟨hlist.2.2.2.1, trivial⟩)
    (show stack.length + 1 + 1 + 1 ≤ t.ground.room by omega)
  have hflags : ((c.set rax 0).bin .cmp true (BitVec.ofInt 64 0) rax).flags =
      some (subFlags 0#64 0#64) := by
    simp only [Cpu.bin, if_true, c.set_self]
    rfl
  have hspares : Spares [rax] c ((c.set rax 0).bin .cmp true (BitVec.ofInt 64 0) rax) :=
    Spares.update rax 0 rfl rfl
  have hcmp : ImmOp.cmp.toBin = .cmp := rfl
  simp only [hcmp] at hcompare
  generalize (c.set rax 0).bin .cmp true (BitVec.ofInt 64 0) rax = c' at hcompare hflags hspares
  have hskip := Site.Runs.jccSkip t ⟨c', c.regs r11 :: c.regs r11 :: stack⟩ .ne 0 dest _
    hlist.2.2.2.2.1 hflags rfl
  exact ⟨c', hpushes.trans (hload.trans (hcompare.trans hskip)), hspares⟩

/-- The index becomes an offset into the table. -/
theorem computes_scaled (idx : Nat) (hidx : idx < maxExtFuncs) (c : Cpu) (stack : List Word) :
    ∃ c', Computes [.movImm false idx rax, .shiftImm .shl true 3 rax] ⟨c, stack⟩ ⟨c', stack⟩ ∧
      c'.regs rax = BitVec.ofNat 64 (8 * idx) ∧ Spares [rax] c c' := by
  have hlt : idx < 64 := hidx
  have hmov : Computes [.movImm false idx rax] ⟨c, stack⟩
      ⟨c.bin .mov false (BitVec.ofInt 64 idx) rax, stack⟩ := by
    rw [← wrap_imm idx (by omega)]
    exact Computes.one (.bin .mov false (.imm (wrap32 idx)) rax) (fun _ => rfl)
      (show rax ≠ rsp by decide) rfl
  have hshl : ∀ c, Computes [.shiftImm .shl true 3 rax] ⟨c, stack⟩
    ⟨c.shift .shl true 3 rax, stack⟩ :=
    fun c => Computes.one (.shift .shl true (.imm (u32 3 % 256)) rax) (fun _ => rfl)
      (show rax ≠ rsp by decide) rfl
  have hregs : ((c.bin .mov false (BitVec.ofInt 64 idx) rax).shift .shl true 3 rax).regs =
      Function.update (Function.update c.regs rax
        (((BitVec.ofInt 64 (idx : Int)).setWidth 32).setWidth 64)) rax
        (Function.update c.regs rax
          (((BitVec.ofInt 64 (idx : Int)).setWidth 32).setWidth 64) rax <<< 3) := rfl
  rw [Function.update_self, Function.update_idem] at hregs
  refine ⟨_, hmov.append (hshl _), ?_, Spares.update rax _ hregs rfl⟩
  rw [hregs, Function.update_self]
  apply BitVec.eq_of_toNat_eq
  rw [BitVec.toNat_shiftLeft, BitVec.toNat_setWidth, BitVec.toNat_setWidth, BitVec.toNat_ofInt,
    BitVec.toNat_ofNat, Nat.shiftLeft_eq]
  omega

/-- The place of the address in the table. -/
theorem InPlace.helper_slot (ht : InPlace t host program size mode) (idx off : Nat)
    (hidx : idx < maxExtFuncs) (c : Cpu) (stack : List Word) (hstack : stack.length ≤ 64)
    (hlist : Listed t.marks t.code off [.movImm false idx rax, .shiftImm .shl true 3 rax,
      .leaTable, .bin .add true r10 rax])
    (hoff : off + 20 < 2 ^ 31) :
    ∃ c', t.Runs off ⟨c, stack⟩ (off + 20) ⟨c', stack⟩ ∧
      c'.regs rax = t.at (dispatcherStart program mode + 8 + 8 * idx) ∧
      Spares ([rax] ++ [rax, r10]) c c' := by
  have hroom := ht.room
  have hshort := ht.short
  have htable := ht.table_end
  have hmarks : t.marks.helperTableLoc = dispatcherStart program mode + 8 := by
    rw [ht.marks]
    rfl
  rcases computes_scaled idx hidx c stack with ⟨c1, hscaled, hvalue, hspares⟩
  have hfirst := hscaled.runs t ⟨hlist.1, hlist.2.1, trivial⟩
    (show stack.length + 2 ≤ t.ground.room by omega)
  have hlea := Site.Runs.leaTable t ⟨c1, stack⟩ hlist.2.2.1 hmarks
    (show off + 10 + 7 < 2 ^ 31 by omega) (by omega)
  generalize htable' : t.at (dispatcherStart program mode + 8) = table at hlea
  have hadd := (computes_bin .add true r10 rax ⟨c1.set r10 table, stack⟩
    ⟨by decide, by decide⟩).runs t
    (show Listed t.marks t.code (off + 10 + 7) [.bin .add true r10 rax] from
      ⟨hlist.2.2.2.1, trivial⟩) (show stack.length + 1 ≤ t.ground.room by omega)
  have hregs : ((c1.set r10 table).bin .add true ((c1.set r10 table).regs r10) rax).regs =
    Function.update (Function.update c1.regs r10 table) rax
      (Function.update c1.regs r10 table rax + Function.update c1.regs r10 table r10) := rfl
  rw [Function.update_self, Function.update_of_ne (by decide), hvalue] at hregs
  refine ⟨_, hfirst.trans (hlea.trans hadd), ?_, hspares.trans ⟨fun r hr => ?_, rfl⟩⟩
  · rw [hregs, Function.update_self, BitVec.add_comm, ← htable', Site.at, Site.at,
      BitVec.add_assoc, ← BitVec.ofNat_add]
  · simp only [List.mem_cons, List.not_mem_nil, or_false, not_or] at hr
    rw [hregs, Function.update_of_ne hr.1, Function.update_of_ne hr.2]

theorem length_loadIndex (idx : Nat) (hidx : idx < maxExtFuncs) :
    codeLength [Encoded.loadImm r9 idx] = 7 := by
  have hlt : idx < 64 := hidx
  have hrange : -2 ^ 31 ≤ (idx : Int) ∧ (idx : Int) ≤ 2 ^ 31 - 1 := by omega
  rw [codeLength, pieces, List.map_singleton, Encoded.loadImm, if_pos hrange]
  rfl

/-- The code finds the address of the helper. -/
theorem InPlace.helper_address (ht : InPlace t host program size mode) (idx off : Nat)
    (hidx : idx < maxExtFuncs) (c : Cpu) (stack : List Word) (hstack : stack.length ≤ 64)
    (hlist : Listed t.marks t.code off (defaultCode idx ++ .jmpNext :: [.loadImm r9 idx]))
    (hoff : off + 40 < 2 ^ 31) :
    ∃ c', t.Runs off ⟨c, stack⟩ (off + 38) ⟨c', stack⟩ ∧
      c'.regs rax = host.helper program idx ∧ Spares [rax, r10, r9] c c' := by
  have hroom := ht.room
  have hlt : idx < 64 := hidx
  have hsplit : defaultCode idx ++ .jmpNext :: [.loadImm r9 idx] =
    [.movImm false idx rax, .shiftImm .shl true 3 rax, .leaTable, .bin .add true r10 rax] ++
      [.load .s64 rax rax 0 rax_isBase, .bin .mov true r11 r9, .jmpNext, .loadImm r9 idx] := rfl
  rw [hsplit] at hlist
  rcases hlist.append with ⟨hslot, hrest⟩
  have hlen : codeLength [Encoded.movImm false idx rax, .shiftImm .shl true 3 rax, .leaTable,
    .bin .add true r10 rax] = 20 := rfl
  rw [hlen] at hrest
  -- The place of the address in the table, and the address.
  rcases ht.helper_slot idx off hidx c stack hstack hslot (by omega) with
    ⟨c1, hfound, hplace, hspares⟩
  have hload := Site.Runs.loadTable t ⟨c1, stack⟩ (host.helper program idx) hrest.1
    (fun m hm => by
      rw [hplace]
      exact ht.load_helper idx hidx hm)
  have hmove := (computes_mov r11 r9 ⟨c1.set rax (host.helper program idx), stack⟩
    ⟨by decide, by decide⟩).runs t
    (show Listed t.marks t.code (off + 23) [.bin .mov true r11 r9] from ⟨hrest.2.1, trivial⟩)
    (show stack.length + 1 ≤ t.ground.room by omega)
  generalize hc2 : (c1.set rax (host.helper program idx)).set r9
    ((c1.set rax (host.helper program idx)).regs r11) = c2 at hmove
  -- The jump is over nothing.
  have hnext := Site.Runs.jmpNext t ⟨c2, stack⟩ hrest.2.2.1
  have hindex := (computes_loadImm r9 idx ⟨c2, stack⟩ (by decide) (by omega)).runs t
    (show Listed t.marks t.code (off + 31) [.loadImm r9 idx] from ⟨hrest.2.2.2.1, trivial⟩)
    (show stack.length + 1 ≤ t.ground.room by omega)
  rw [length_loadIndex idx hidx] at hindex
  refine ⟨c2.set r9 (BitVec.ofInt 64 idx),
    hfound.trans (hload.trans (hmove.trans (hnext.trans hindex))), ?_, fun r hr => ?_, ?_⟩
  · rw [← hc2]
    simp only [Cpu.set]
    rw [Function.update_of_ne (by decide), Function.update_of_ne (by decide), Function.update_self]
  · simp only [List.mem_cons, List.not_mem_nil, or_false, not_or] at hr
    rw [← hc2]
    simp only [Cpu.set]
    rw [Function.update_of_ne hr.2.2, Function.update_of_ne hr.2.2, Function.update_of_ne hr.1]
    refine hspares.1 r (fun hmem => ?_)
    simp only [List.cons_append, List.nil_append, List.mem_cons, List.not_mem_nil, or_false] at hmem
    rcases hmem with h | h | h
    · exact hr.1 h
    · exact hr.1 h
    · exact hr.2.1 h
  · rw [← hc2]
    exact hspares.2

/-! ## The call -/

/-- The code takes the machine to a place, and to an abstract machine with a
    property. -/
def Site.Reaches (t : Site) (off : Nat) (a : Abs) (off' : Nat) (P : Abs → Prop) : Prop :=
  ∀ c, t.Rep a c → ∃ a' c', P a' ∧ t.Rep a' c' ∧ t.Steps ⟨c, t.at off⟩ ⟨c', t.at off'⟩

theorem Site.Runs.reaches {off off' : Nat} {a' : Abs} {P : Abs → Prop}
    (h : t.Runs off a off' a') (hP : P a') : t.Reaches off a off' P := by
  intro c hc
  rcases h c hc with ⟨c', hc', hsteps⟩
  exact ⟨a', c', hP, hc', hsteps⟩

theorem Site.Reaches.bind {off off' off'' : Nat} {P Q : Abs → Prop} (h : t.Reaches off a off' P)
    (h' : ∀ a', P a' → t.Reaches off' a' off'' Q) : t.Reaches off a off'' Q := by
  intro c hc
  rcases h c hc with ⟨a', c', hP, hc', hsteps⟩
  rcases h' a' hP c' hc' with ⟨a'', c'', hQ, hc'', hsteps'⟩
  exact ⟨a'', c'', hQ, hc'', hsteps.trans hsteps'⟩

/-- Calling a function of the host. -/
theorem Site.Reaches.callHost (t : Site) (a : Abs) {off : Nat} {P : Abs → Prop}
    (hlist : Encoded.callRax.linkedBytes t.marks off <+: t.code.drop off)
    (hroom : a.stack.length < t.ground.room)
    (h : ∀ c, t.Rep ⟨a.cpu, t.at (off + 2) :: a.stack⟩ c → ∃ f c' a',
      t.host (a.cpu.regs rax) = some f ∧ f c = some c' ∧ t.Rep a' c' ∧ P a') :
    t.Reaches off a (off + 2) P := by
  intro c hc
  have hstep := t.step_listed hc off _ hlist
  rcases hc with ⟨m, hm, rfl⟩
  rcases hm.cpu_push a.cpu (t.at (off + 2)) hroom with ⟨m', hpush, hm'⟩
  have hinstr : Encoded.callRax.linkedInstr t.marks off = .ctl (.callReg rax) := rfl
  have hsize : Encoded.callRax.size = 2 := rfl
  rw [hinstr, hsize, Instr.exec, Ctl.exec, hpush, Option.map_some, Option.map_some,
    a.cpu.at_regs _ m rax (by decide)] at hstep
  generalize hpushed : a.cpu.at (t.ground.sp (a.stack.length + 1)) m' = pushed at hstep
  rcases h pushed ⟨m', hm', hpushed.symm⟩ with ⟨f, c', a', hhost, hf, hc', hP⟩
  have hload : pushed.mem.load (pushed.regs rsp) 8 = some (t.at (off + 2)).toNat := by
    rw [← hpushed, a.cpu.at_sp]
    exact hm'.top
  have hcalled : nativeStep t.host ⟨pushed, a.cpu.regs rax⟩ = some ⟨c', t.at (off + 2)⟩ := by
    simp only [nativeStep, hhost, hload, Option.bind_some, hf, Option.map_some, BitVec.ofNat_toNat,
      BitVec.setWidth_eq]
  exact ⟨a', c', hP, hc',
    Relation.ReflTransGen.head hstep (Relation.ReflTransGen.single hcalled)⟩

/-- What a helper finds in the registers for arguments. -/
def helperArgs (c : Cpu) : Fin 5 → Word := fun i => c.regs (platformParameterRegisters.getD i 0)

/-- The host has the helpers, and they follow its calling convention: a helper
    returns with the registers kept that a function has to keep, its result
    in `rax`, and the memory of the program as the helper leaves it. -/
structure ServesHelpers (t : Site) (host : HostAddresses) (program : ProgramView)
    (ext : Externals) : Prop where
  call : ∀ idx < maxExtFuncs, ∀ (a : Abs) (c : Cpu) (ret : Word) (stack : List Word) (result : Word)
    (mem : Memory), a.stack = ret :: stack → stack.length ≤ 64 → t.Rep a c →
    ext idx (helperArgs a.cpu) a.cpu.mem = some (result, mem) →
    ∃ f c' a', t.host (host.helper program idx) = some f ∧ f c = some c' ∧ t.Rep a' c' ∧
      a'.stack = stack ∧ a'.cpu.mem = mem ∧ a'.cpu.regs rax = result ∧
      ∀ r ∈ platformNonvolatileRegisters, a'.cpu.regs r = a.cpu.regs r

/-- The registers `r1` to `r5` hold something else. -/
def ExecState.scratch (s : ExecState) (v : Nat → Word) : ExecState :=
  { s with regs := fun r => if 1 ≤ r ∧ r ≤ 5 then v r else s.regs r }

/-- The state after a helper. -/
def servedState (s : ExecState) (result : Word) (mem : Memory) : ExecState :=
  { s with mem := mem }.setReg 0 result

/-- The relation after a helper. -/
theorem Related.served (hrel : Related t program mode fp s a) (result : Word) (mem : Memory)
    (a' : Abs) (hstack : a'.stack = a.stack) (hmem : a'.cpu.mem = mem)
    (hresult : a'.cpu.regs rax = result)
    (hkeeps : ∀ r ∈ platformNonvolatileRegisters, a'.cpu.regs r = a.cpu.regs r) :
    ∃ v, Related t program mode fp ((servedState s result mem).scratch v) a' := by
  refine ⟨fun r => a'.cpu.regs (mapRegister r), fun r hr => ?_, hmem, ?_, hstack.trans hrel.stack,
    hrel.usage, hrel.depth, hrel.returns⟩
  · by_cases hscratch : 1 ≤ r ∧ r ≤ 5
    · simp only [ExecState.scratch, hscratch, and_self, if_true]
    · simp only [ExecState.scratch, hscratch, if_false]
      by_cases hzero : r = 0
      · subst hzero
        simp only [servedState, ExecState.setReg, Function.update_self]
        exact hresult
      · simp only [servedState, ExecState.setReg, Function.update_of_ne hzero]
        have hsaved : ∀ i : Fin 11, 6 ≤ i.val → mapRegister i ∈ platformNonvolatileRegisters := by
          decide
        rw [hkeeps _ (hsaved ⟨r, by omega⟩ (show 6 ≤ r by omega))]
        exact hrel.regs r hr
  · rw [hkeeps rbp (by decide)]
    exact hrel.frame

/-- The code of a call up to where the helper is back. -/
theorem helper_split (off idx : Nat) :
    .bin .mov true rcxAlt rcx :: helperCode (off + 3) idx =
      [Encoded.bin .mov true rcxAlt rcx] ++ ((dispatchCode ++ [.jcc .ne 0 (off + 3 + 55)]) ++
        ((defaultCode idx ++ .jmpNext :: [.loadImm r9 idx]) ++
          (.callRax :: [.pop r11, .pop r11]))) := rfl

/-- The arguments of the helper are the program's. -/
theorem Related.args (hrel : Related t program mode fp s a) (c : Cpu)
    (hrcx : c.regs rcx = a.cpu.regs r10) (hother : ∀ r, r = rdi ∨ r = rsi ∨ r = rdx ∨ r = r8 →
      c.regs r = a.cpu.regs r) : helperArgs c = fun i : Fin 5 => s.regs (1 + i) := by
  funext i
  have hcases : ∀ i : Fin 5, i = 0 ∨ i = 1 ∨ i = 2 ∨ i = 3 ∨ i = 4 := by decide
  rcases hcases i with rfl | rfl | rfl | rfl | rfl
  · exact (hother rdi (Or.inl rfl)).trans (hrel.regs 1 (by omega))
  · exact (hother rsi (Or.inr (Or.inl rfl))).trans (hrel.regs 2 (by omega))
  · exact (hother rdx (Or.inr (Or.inr (Or.inl rfl)))).trans (hrel.regs 3 (by omega))
  · exact hrcx.trans (hrel.regs 4 (by omega))
  · exact (hother r8 (Or.inr (Or.inr (Or.inr rfl)))).trans (hrel.regs 5 (by omega))

theorem length_found (idx : Nat) (hidx : idx < maxExtFuncs) :
    codeLength (defaultCode idx ++ .jmpNext :: [.loadImm r9 idx]) = 38 := by
  have hsplit : defaultCode idx ++ .jmpNext :: [.loadImm r9 idx] =
    (defaultCode idx ++ [.jmpNext]) ++ [.loadImm r9 idx] := rfl
  rw [hsplit, codeLength_append, length_loadIndex idx hidx]
  rfl

theorem length_helper (off idx : Nat) (hidx : idx < maxExtFuncs) :
    codeLength (.bin .mov true rcxAlt rcx :: helperCode (off + 3) idx) = 71 := by
  rw [helper_split, codeLength_append, codeLength_append, codeLength_append, codeLength_append,
    length_found idx hidx]
  rfl

/-- The call of a helper. -/
theorem InPlace.calls_helper (ht : InPlace t host program size mode) {ext : Externals}
    (hserves : ServesHelpers t host program ext) (hdispatcher : host.dispatcher = 0)
    (hrel : Related t program mode fp s a) (idx off : Nat) (hidx : idx < maxExtFuncs)
    (hlist : Listed t.marks t.code off (.bin .mov true rcxAlt rcx :: helperCode (off + 3) idx))
    (hoff : off + 71 < 2 ^ 31) (result : Word) (mem : Memory)
    (hext : ext idx (fun i : Fin 5 => s.regs (1 + i)) s.mem = some (result, mem)) :
    t.Reaches off a (off + 71) fun a' =>
      ∃ v, Related t program mode fp ((servedState s result mem).scratch v) a' := by
  have hroom := ht.room
  have hstack := hrel.length
  rw [helper_split] at hlist
  rcases hlist.append with ⟨hmov, hrest⟩
  rcases hrest.append with ⟨hdispatch, hrest⟩
  rcases hrest.append with ⟨hfind, hrest⟩
  rw [length_found idx hidx] at hrest
  -- Up to the call nothing that the program can see changes.
  have harg := (computes_mov rcxAlt rcx a ⟨by decide, by decide⟩).runs t hmov
    (show a.stack.length + 1 ≤ t.ground.room by omega)
  rcases ht.helper_dispatch hdispatcher (off + 3) _ (a.cpu.set rcx (a.cpu.regs rcxAlt)) a.stack
    hstack hdispatch (by omega) with ⟨c1, hrun1, hspares1⟩
  generalize hsaved : (a.cpu.set rcx (a.cpu.regs rcxAlt)).regs r11 = saved at hrun1
  rcases ht.helper_address idx (off + 27) hidx c1 (saved :: saved :: a.stack)
    (show a.stack.length + 1 + 1 ≤ 64 by omega) hfind (by omega) with ⟨c2, hrun2, haddr, hspares2⟩
  have hspares := hspares1.trans hspares2
  have hmem : c2.mem = a.cpu.mem := hspares.2
  have hkept : ∀ r, r ∉ [rax] ++ [rax, r10, r9] → r ≠ rcx → c2.regs r = a.cpu.regs r := by
    intro r hr hrcx
    rw [hspares.1 r hr]
    exact Function.update_of_ne hrcx _ _
  have hargs : helperArgs c2 = fun i : Fin 5 => s.regs (1 + i) := by
    refine hrel.args c2 ?_ (fun r hr => ?_)
    · rw [hspares.1 rcx (by decide), Cpu.set_self]
      rfl
    · rcases hr with rfl | rfl | rfl | rfl
      all_goals exact hkept _ (by decide) (by decide)
  -- The helper does what it does under the interpreter, and keeps the registers
  -- the calling convention says it keeps.
  have hcall : t.Reaches (off + 65) ⟨c2, saved :: saved :: a.stack⟩ (off + 67) fun a' =>
      a'.stack = saved :: saved :: a.stack ∧ a'.cpu.mem = mem ∧ a'.cpu.regs rax = result ∧
        ∀ r ∈ platformNonvolatileRegisters, a'.cpu.regs r = a.cpu.regs r := by
    refine Site.Reaches.callHost t ⟨c2, saved :: saved :: a.stack⟩ hrest.1
      (show a.stack.length + 1 + 1 < t.ground.room by omega) (fun c hc => ?_)
    rcases hserves.call idx hidx _ c _ (saved :: saved :: a.stack) result mem rfl
      (show a.stack.length + 1 + 1 ≤ 64 by omega) hc (by
      rw [hargs, hmem, hrel.mem]
      exact hext) with ⟨f, c', a', hhost, hf, hrep, hstack', hmem', hresult, hkeeps⟩
    refine ⟨f, c', a', ?_, hf, hrep, hstack', hmem', hresult, fun r hr => ?_⟩
    · rw [haddr]
      exact hhost
    · have hsafe : ∀ r ∈ platformNonvolatileRegisters, r ∉ [rax] ++ [rax, r10, r9] ∧ r ≠ rcx := by
        decide
      rw [hkeeps r hr]
      exact hkept r (hsafe r hr).1 (hsafe r hr).2
  have hfirst : t.Runs off a (off + 65) ⟨c2, saved :: saved :: a.stack⟩ :=
    harg.trans (hrun1.trans hrun2)
  refine (hfirst.reaches (P := fun a' => a' = ⟨c2, saved :: saved :: a.stack⟩) rfl).bind
    (fun a' ha' => ?_)
  subst ha'
  refine hcall.bind (fun a' ha' => ?_)
  rcases a' with ⟨c3, stack3⟩
  rcases ha' with ⟨hstack3, hmem3, hresult3, hkeeps3⟩
  simp only at hstack3
  subst hstack3
  -- `r11` was pushed twice to keep the stack aligned.
  have hpops := ((computes_pop r11 c3 saved (saved :: a.stack) (by decide)).append
    (computes_pop r11 (c3.set r11 saved) saved a.stack (by decide))).runs t hrest.2
    (show a.stack.length + 1 + 1 + 2 ≤ t.ground.room by omega)
  refine hpops.reaches (hrel.served result mem _ rfl hmem3 ?_ (fun r hr => ?_))
  · simp only [Cpu.set]
    rw [Function.update_of_ne (by decide), Function.update_of_ne (by decide)]
    exact hresult3
  · have hne : ∀ r ∈ platformNonvolatileRegisters, r ≠ r11 := by decide
    simp only [Cpu.set]
    rw [Function.update_of_ne (hne r hr), Function.update_of_ne (hne r hr)]
    exact hkeeps3 r hr

end Helpers

end UniBPF
