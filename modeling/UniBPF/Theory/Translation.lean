import UniBPF.Theory.Listing

/-!
# The Listing of the Whole Program

The loop of the translator goes over the instructions and skips the second
half of each double-word load. What it has emitted when it is done is the
listing of the whole program, `programCode`, with one unit for each
instruction that is not a second half. `unitLoc` is where a unit starts, and
the translator notes as the place of an instruction where its unit starts
after what stands at the start of a function.

Everything here is about a translation that ends without an error. After it
has, the second pass fills in the distances.

## Main definitions

* `skipAfter`, `IsStart`: Where an instruction starts.
* `unitCode`, `programCode`: The listing of an instruction with what belongs
  to it, and of the program.
* `unitLoc`, `pcLoc`: Where a unit starts, and where its instruction does.

## Theorems

* `programCode_append`: The listing of a program in two parts.
* `gains_translateLoop`: What the loop emits and notes.
* `unitLoc_succ`: A unit starts where the one before ends.
-/

namespace UniBPF

open LittleEndian X86 Relocations

/-- Whether what comes after these instructions is a second half. -/
def skipAfter : List EbpfInst → Bool → Bool
  | [], skip => skip
  | _ :: rest, true => skipAfter rest false
  | inst :: rest, false => skipAfter rest (inst.opcode == 0x18)

theorem skipAfter_append (as bs : List EbpfInst) (skip : Bool) :
    skipAfter (as ++ bs) skip = skipAfter bs (skipAfter as skip) := by
  induction as generalizing skip with
  | nil => rfl
  | cons a as ih =>
      cases skip with
      | true => exact ih false
      | false => exact ih (a.opcode == 0x18)

/-- An instruction starts at `j`. -/
def IsStart (insts : List EbpfInst) (j : Nat) : Prop :=
  j < insts.length ∧ skipAfter (insts.take j) false = false

/-- The code of an instruction proper. -/
def bodyCode (program : ProgramView) (i off : Nat) (inst : EbpfInst) : List Encoded :=
  match Opcode.decode inst.opcode with
  | some op => instCode program i off inst op ++ truncateCode inst
  | none => []

/-- Where the code of an instruction starts in its unit. -/
def bodyLoc (program : ProgramView) (i off : Nat) : Nat :=
  off + codeLength (startCode program i off)

def unitCode (program : ProgramView) (i off : Nat) (inst : EbpfInst) : List Encoded :=
  startCode program i off ++ bodyCode program i (bodyLoc program i off) inst

/-- The listing of the instructions from `i` on, at an offset. -/
def programCode (program : ProgramView) : List EbpfInst → Nat → Bool → Nat → List Encoded
  | [], _, _, _ => []
  | _ :: rest, i, true, off => programCode program rest (i + 1) false off
  | inst :: rest, i, false, off =>
    unitCode program i off inst ++ programCode program rest (i + 1) (inst.opcode == 0x18)
      (off + codeLength (unitCode program i off inst))

theorem programCode_append (program : ProgramView) (as bs : List EbpfInst) (i : Nat) (skip : Bool)
    (off : Nat) :
    programCode program (as ++ bs) i skip off = programCode program as i skip off ++
      programCode program bs (i + as.length) (skipAfter as skip)
        (off + codeLength (programCode program as i skip off)) := by
  induction as generalizing i skip off with
  | nil => simp only [List.nil_append, programCode, List.length_nil, Nat.add_zero, skipAfter,
      codeLength, pieces, List.map_nil, layout_nil]
  | cons a as ih =>
      have hlen : i + (a :: as).length = i + 1 + as.length := by
        rw [List.length_cons]
        omega
      cases skip with
      | true =>
          rw [List.cons_append, programCode, programCode, skipAfter, hlen]
          exact ih (i + 1) false off
      | false =>
          rw [List.cons_append, programCode, programCode, skipAfter, hlen, ih, List.append_assoc,
            codeLength_append, Nat.add_assoc off]

/-- What the translator notes for one instruction. -/
def unitMarks (program : ProgramView) (i off : Nat) (m : Marks) : Marks :=
  { (if i = 0 ∨ program.isLocalFunc i then withProlog m else m) with
    pcLocs := Function.update m.pcLocs i (bodyLoc program i off) }

/-- No instruction uses the one register that cannot be a base as one. -/
def BasesOk (insts : List EbpfInst) : Prop :=
  ∀ inst ∈ insts, ∀ op, Opcode.decode inst.opcode = some op → BaseOk inst op

theorem gains_translateInst (program : ProgramView) (i : Nat) (inst : EbpfInst) (s : JitState)
    (hbase : ∀ op, Opcode.decode inst.opcode = some op → BaseOk inst op)
    (h : (translateInst program i inst s).jitStatus = .noError) :
    s.jitStatus = .noError ∧ (Placed s →
      Gains s (translateInst program i inst s) (pieces (unitCode program i s.offset inst)) ∧
      (translateInst program i inst s).marks = unitMarks program i s.offset s.marks) := by
  simp only [translateInst] at h ⊢
  cases hdecode : Opcode.decode inst.opcode with
  | none =>
      simp only [hdecode] at h
      exact absurd (emits_truncate inst _ h).before
        (by simp only [reduceCtorEq, not_false_eq_true])
  | some op =>
      simp only [hdecode] at h ⊢
      have hstart := gains_start program i s
      generalize emitFunctionStart program i s = s1 at h hstart ⊢
      have htrunc := emits_truncate inst _ h
      rcases emitsAt_inst program i inst op (hbase op hdecode) _ htrunc.before with ⟨h1, hinst⟩
      rcases hstart h1 with ⟨hbefore, hstart⟩
      refine ⟨hbefore, fun hs => ?_⟩
      rcases hstart hs with ⟨hgrows, hmarks⟩
      have hoff : s1.offset = bodyLoc program i s.offset := hgrows.offset
      have hplaced : Placed s1 := hgrows.placed hs
      have hbody := (hinst hplaced).trans htrunc
      have hunit : pieces (unitCode program i s.offset inst) =
          pieces (startCode program i s.offset) ++
            (pieces (instCode program i s1.offset inst op) ++ pieces (truncateCode inst)) := by
        rw [unitCode, bodyCode, hdecode, hoff]
        simp only [pieces_append]
      have hnoted : Gains s { s1 with pcLocs := Function.update s1.pcLocs i s1.offset }
          (pieces (startCode program i s.offset)) :=
        ⟨hgrows.before, hgrows.status, hgrows.buf, hgrows.table, hgrows.fits⟩
      refine ⟨?_, ?_⟩
      · rw [hunit]
        exact hnoted.trans hbody.toGains
      · rw [hbody.marks, unitMarks, ← hmarks, ← hoff]
        have hlocs : s1.pcLocs = s.marks.pcLocs := by
          have hlocs := congrArg Marks.pcLocs hmarks
          split at hlocs
          next => exact hlocs
          next => exact hlocs
        rw [← hlocs]
        rfl

/-- What the translator notes for the instructions from `i` on. -/
def loopMarks (program : ProgramView) : List EbpfInst → Nat → Bool → Nat → Marks → Marks
  | [], _, _, _, m => m
  | _ :: rest, i, true, off, m => loopMarks program rest (i + 1) false off m
  | inst :: rest, i, false, off, m =>
    loopMarks program rest (i + 1) (inst.opcode == 0x18)
      (off + codeLength (unitCode program i off inst)) (unitMarks program i off m)

/-- What the loop emits and notes. -/
theorem gains_translateLoop (program : ProgramView) (insts : List EbpfInst) (hbase : BasesOk insts)
    (i : Nat) (skip : Bool) (s : JitState)
    (h : (translateLoop program insts i skip s).jitStatus = .noError) :
    s.jitStatus = .noError ∧ (Placed s →
      Gains s (translateLoop program insts i skip s)
        (pieces (programCode program insts i skip s.offset)) ∧
      (translateLoop program insts i skip s).marks =
        loopMarks program insts i skip s.offset s.marks) := by
  induction insts generalizing i skip s with
  | nil => exact ⟨h, fun _ => ⟨(Extends.refl s h).toGains, rfl⟩⟩
  | cons inst rest ih =>
      have hrest : BasesOk rest := fun q hq => hbase q (List.mem_cons_of_mem inst hq)
      cases skip with
      | true => exact ih hrest (i + 1) false s h
      | false =>
          by_cases hstatus : s.jitStatus = .noError
          · simp only [translateLoop, hstatus, ne_eq, not_true_eq_false, if_false] at h ⊢
            rcases ih hrest (i + 1) _ _ h with ⟨hmid, hloop⟩
            have hunit := (gains_translateInst program i inst s (hbase inst List.mem_cons_self)
              hmid).2
            refine ⟨True.intro, fun hs => ?_⟩
            rcases hunit hs with ⟨hgrows, hmarks⟩
            rcases hloop (hgrows.placed hs) with ⟨hgrows', hmarks'⟩
            rw [hgrows.offset] at hgrows' hmarks'
            refine ⟨?_, ?_⟩
            · rw [programCode, pieces_append]
              exact hgrows.trans hgrows'
            · rw [hmarks', hmarks]
              rfl
          · simp only [translateLoop, ne_eq, hstatus, not_false_eq_true, if_true] at h

theorem loopMarks_before (program : ProgramView) (insts : List EbpfInst) (i : Nat) (skip : Bool)
    (off : Nat) (m : Marks) (k : Nat) (h : k < i) :
    (loopMarks program insts i skip off m).pcLocs k = m.pcLocs k := by
  induction insts generalizing i skip off m with
  | nil => rfl
  | cons inst rest ih =>
      cases skip with
      | true => exact ih (i + 1) false off m (by omega)
      | false =>
          rw [loopMarks, ih _ _ _ _ (by omega)]
          exact Function.update_of_ne (by omega) _ _

/-- The place noted for an instruction. -/
theorem loopMarks_pcLocs (program : ProgramView) (insts : List EbpfInst) (i : Nat) (skip : Bool)
    (off : Nat) (m : Marks) (j : Nat) (hj : j < insts.length)
    (hstart : skipAfter (insts.take j) skip = false) :
    (loopMarks program insts i skip off m).pcLocs (i + j) =
      bodyLoc program (i + j)
        (off + codeLength (programCode program (insts.take j) i skip off)) := by
  induction insts generalizing i skip off m j with
  | nil => exact absurd hj (by simp only [List.length_nil, not_lt_zero, not_false_eq_true])
  | cons inst rest ih =>
      cases j with
      | zero =>
          have hskip : skip = false := hstart
          subst hskip
          rw [loopMarks, loopMarks_before _ _ _ _ _ _ _ (by omega)]
          exact Function.update_self _ _ _
      | succ j =>
          rw [List.length_cons] at hj
          have hindex : i + (j + 1) = i + 1 + j := by omega
          cases skip with
          | true =>
              rw [hindex, List.take_succ_cons, programCode, loopMarks]
              exact ih (i + 1) false off m j (by omega) hstart
          | false =>
              rw [hindex, List.take_succ_cons, programCode, loopMarks, codeLength_append,
                ← Nat.add_assoc off]
              exact ih (i + 1) _ _ _ j (by omega) hstart

/-- The places noted for other things stay. -/
theorem loopMarks_other (program : ProgramView) (insts : List EbpfInst) (i : Nat) (skip : Bool)
    (off : Nat) (m : Marks) :
    (loopMarks program insts i skip off m).size = m.size ∧
      (loopMarks program insts i skip off m).mode = m.mode := by
  induction insts generalizing i skip off m with
  | nil => exact ⟨rfl, rfl⟩
  | cons inst rest ih =>
      cases skip with
      | true => exact ih (i + 1) false off m
      | false =>
          rw [loopMarks]
          have hunit : (unitMarks program i off m).size = m.size ∧
              (unitMarks program i off m).mode = m.mode := by
            rw [unitMarks]
            split
            next => exact ⟨rfl, rfl⟩
            next => exact ⟨rfl, rfl⟩
          exact ⟨(ih _ _ _ _).1.trans hunit.1, (ih _ _ _ _).2.trans hunit.2⟩

theorem unitMarks_prolog (program : ProgramView) (i off : Nat) (m : Marks)
    (h : m.prologSize = 15) : (unitMarks program i off m).prologSize = 15 := by
  rw [unitMarks]
  split
  next => rw [withProlog, h]; rfl
  next => exact h

theorem loopMarks_prolog (program : ProgramView) (insts : List EbpfInst) (i : Nat) (skip : Bool)
    (off : Nat) (m : Marks) (h : m.prologSize = 15) :
    (loopMarks program insts i skip off m).prologSize = 15 := by
  induction insts generalizing i skip off m with
  | nil => exact h
  | cons inst rest ih =>
      cases skip with
      | true => exact ih (i + 1) false off m h
      | false => exact ih _ _ _ _ (unitMarks_prolog program i off m h)

/-- The first instruction has a prolog, so its size is known from then on. -/
theorem loopMarks_first (program : ProgramView) (inst : EbpfInst) (rest : List EbpfInst)
    (off : Nat) (m : Marks) (h : m.prologSize = 0) :
    (loopMarks program (inst :: rest) 0 false off m).prologSize = 15 := by
  rw [loopMarks]
  refine loopMarks_prolog program rest _ _ _ _ ?_
  rw [unitMarks, if_pos (Or.inl rfl), withProlog, if_pos h]

/-! ## Where things are -/

/-- Where the unit of the instruction at `j` starts, in a program that starts
    at `off`. -/
def unitLoc (program : ProgramView) (off j : Nat) : Nat :=
  off + codeLength (programCode program (program.insts.take j) 0 false off)

/-- Where the instruction at `j` starts. -/
def pcLoc (program : ProgramView) (off j : Nat) : Nat :=
  bodyLoc program j (unitLoc program off j)

/-- The listing of the program around one instruction. -/
theorem programCode_split (program : ProgramView) (off j : Nat) (inst : EbpfInst)
    (hinst : program.insts[j]? = some inst) (hstart : IsStart program.insts j) :
    ∃ pre post, programCode program program.insts 0 false off =
        pre ++ (unitCode program j (unitLoc program off j) inst ++ post) ∧
      off + codeLength pre = unitLoc program off j := by
  have hsplit : program.insts = program.insts.take j ++ inst :: program.insts.drop (j + 1) := by
    rcases List.getElem?_eq_some_iff.mp hinst with ⟨hj, hget⟩
    rw [← hget, List.getElem_cons_drop, List.take_append_drop]
  have hlen : (program.insts.take j).length = j := List.length_take_of_le (le_of_lt hstart.1)
  refine ⟨programCode program (program.insts.take j) 0 false off,
    programCode program (program.insts.drop (j + 1)) (j + 1) (inst.opcode == 0x18)
      (unitLoc program off j + codeLength (unitCode program j (unitLoc program off j) inst)),
    ?_, rfl⟩
  conv_lhs => rw [hsplit]
  rw [programCode_append, hlen, hstart.2, Nat.zero_add, programCode]
  rfl

/-- A unit starts where the one before ends. -/
theorem unitLoc_succ (program : ProgramView) (off j : Nat) (inst : EbpfInst)
    (hinst : program.insts[j]? = some inst) (hstart : IsStart program.insts j) :
    unitLoc program off (j + 1) =
      unitLoc program off j + codeLength (unitCode program j (unitLoc program off j) inst) := by
  have hlen : (program.insts.take j).length = j := List.length_take_of_le (le_of_lt hstart.1)
  have htake : program.insts.take (j + 1) = program.insts.take j ++ [inst] := by
    rw [List.take_add_one, hinst]
    rfl
  rw [unitLoc, htake, programCode_append, hlen, hstart.2, codeLength_append, Nat.zero_add,
    programCode, programCode, codeLength_append, show codeLength [] = 0 from rfl, Nat.add_zero,
    ← Nat.add_assoc]
  rfl

/-- A second half takes no room. -/
theorem unitLoc_second (program : ProgramView) (off j : Nat) (inst : EbpfInst)
    (hinst : program.insts[j]? = some inst)
    (hskip : skipAfter (program.insts.take j) false = true) :
    unitLoc program off (j + 1) = unitLoc program off j := by
  have htake : program.insts.take (j + 1) = program.insts.take j ++ [inst] := by
    rw [List.take_add_one, hinst]
    rfl
  rw [unitLoc, htake, programCode_append, hskip, codeLength_append, programCode, programCode]
  rfl

end UniBPF
