import UniBPF.Theory.Validated
import UniBPF.Theory.NativeInsts

/-!
# A Program in Place

`InPlace` says that the code at a site is the linked image of a program
that was loaded. From it follow the places of things: where the code of an
instruction is listed, where control comes to when an instruction is done,
and where a jump or a local call leads.

The code of a function starts with a prolog, which a call goes through and
nothing else. Where the instruction before may fall into the function there
is a jump over it, and a jump to the function goes past it too.

## Main definitions

* `InPlace`: The code of a program is at the site.
* `unitAt`, `instAt`: Where the unit of an instruction starts, and its
  instruction proper.

## Theorems

* `InPlace.listed_unit`, `InPlace.listed_body`: The code of an
  instruction is there.
* `InPlace.falls`: Control comes from the end of one unit to the next
  instruction.
* `InPlace.jumps`, `InPlace.calls`: Where jumps and calls lead.
-/

namespace UniBPF

open LittleEndian X86 Relocations

/-- The code of a program is at the site. -/
structure InPlace (t : Site) (host : HostAddresses) (program : ProgramView) (size : Nat)
    (mode : JitMode) : Prop where
  validated : Validated program
  bases : BasesOk program.insts
  marks : t.marks = imageMarks program size mode
  code : t.code = linked t.marks (image host program mode)
  short : t.code.length < 2 ^ 31
  room : 128 ≤ t.ground.room

/-- Where the unit of an instruction starts. -/
def unitAt (program : ProgramView) (mode : JitMode) (j : Nat) : Nat :=
  unitLoc program (bodyStart mode) j

/-- Where an instruction starts. -/
def instAt (program : ProgramView) (mode : JitMode) (j : Nat) : Nat :=
  pcLoc program (bodyStart mode) j

theorem Listed.bound {m : Marks} {code : Bytes} {off : Nat} {es : List Encoded}
    (h : Listed m code off es) (hoff : off ≤ code.length) : off + codeLength es ≤ code.length := by
  induction es generalizing off with
  | nil => exact hoff
  | cons e es ih =>
      have hsize := h.1.length_le
      have hpos := e.size_pos
      rw [e.length_linked, List.length_drop] at hsize
      have hlen : off + codeLength (e :: es) = off + e.size + codeLength es := by
        rw [codeLength, pieces, List.map_cons, layout_cons, List.length_append, ← Nat.add_assoc]
        rfl
      rw [hlen]
      exact ih h.2 (by omega)

theorem IsStart.exists_inst {insts : List EbpfInst} {j : Nat} (h : IsStart insts j) :
    ∃ inst, insts[j]? = some inst :=
  ⟨insts.get ⟨j, h.1⟩, List.getElem?_eq_getElem h.1⟩

section Places

variable {t : Site} {host : HostAddresses} {program : ProgramView} {size : Nat} {mode : JitMode}

theorem InPlace.listed (h : InPlace t host program size mode) :
    Listed t.marks t.code 0 (codeListing program mode) := by
  rw [h.code]
  exact listed_linked t.marks host program mode

/-- A part of the listing is in the code, and all of it is within bounds. -/
theorem InPlace.part (h : InPlace t host program size mode) (pre es post : List Encoded)
    (hsplit : codeListing program mode = pre ++ (es ++ post)) :
    Listed t.marks t.code (codeLength pre) es ∧
      codeLength pre + codeLength es ≤ t.code.length := by
  have hall := h.listed
  rw [hsplit] at hall
  rcases hall.append with ⟨hpre, hrest⟩
  have hbound := hpre.bound (Nat.zero_le _)
  rw [Nat.zero_add] at hrest hbound
  have hes := hrest.append.1
  exact ⟨hes, hes.bound hbound⟩

theorem InPlace.listed_entry (h : InPlace t host program size mode) :
    Listed t.marks t.code 0 (entryCode mode) :=
  (h.part [] (entryCode mode) _ rfl).1

theorem InPlace.listed_exit (h : InPlace t host program size mode) :
    Listed t.marks t.code (exitStart program mode) exitCode ∧
      exitStart program mode + codeLength exitCode ≤ t.code.length := by
  have hpart := h.part (entryCode mode ++ programCode program program.insts 0 false
    (bodyStart mode)) exitCode (retpolineCode (retpolineStart program mode))
    (by rw [codeListing, List.append_assoc])
  rw [codeLength_append] at hpart
  exact hpart

/-- The code of an instruction, with what stands before it. -/
theorem InPlace.listed_unit (h : InPlace t host program size mode) (j : Nat)
    (inst : EbpfInst) (hinst : program.insts[j]? = some inst) (hstart : IsStart program.insts j) :
    Listed t.marks t.code (unitAt program mode j)
        (unitCode program j (unitAt program mode j) inst) ∧
      unitAt program mode j + codeLength (unitCode program j (unitAt program mode j) inst) ≤
        t.code.length := by
  rcases programCode_split program (bodyStart mode) j inst hinst hstart with
    ⟨pre, post, hsplit, hpre⟩
  have hpart := h.part (entryCode mode ++ pre)
    (unitCode program j (unitAt program mode j) inst)
    (post ++ (exitCode ++ retpolineCode (retpolineStart program mode)))
    (by rw [codeListing, hsplit]; simp only [List.append_assoc, unitAt])
  have hoff : codeLength (entryCode mode ++ pre) = unitAt program mode j := by
    rw [codeLength_append]
    exact hpre
  rw [hoff] at hpart
  exact hpart

theorem instAt_eq (program : ProgramView) (mode : JitMode) (j : Nat) :
    instAt program mode j = unitAt program mode j +
      codeLength (startCode program j (unitAt program mode j)) := rfl

/-- The code of an instruction proper. -/
theorem InPlace.listed_body (h : InPlace t host program size mode) (j : Nat)
    (inst : EbpfInst) (op : Opcode) (hinst : program.insts[j]? = some inst)
    (hstart : IsStart program.insts j) (hop : Opcode.decode inst.opcode = some op) :
    Listed t.marks t.code (instAt program mode j)
      (instCode program j (instAt program mode j) inst op ++ truncateCode inst) := by
  have hunit := (h.listed_unit j inst hinst hstart).1
  rw [unitCode] at hunit
  have hbody := hunit.append.2
  rw [← instAt_eq, bodyCode, hop] at hbody
  exact hbody

/-- The end of the code of an instruction is the start of the next unit. -/
theorem unitAt_succ (program : ProgramView) (mode : JitMode) (j : Nat) (inst : EbpfInst)
    (op : Opcode) (hinst : program.insts[j]? = some inst) (hstart : IsStart program.insts j)
    (hop : Opcode.decode inst.opcode = some op) :
    unitAt program mode (j + 1) = instAt program mode j +
      codeLength (instCode program j (instAt program mode j) inst op ++ truncateCode inst) := by
  rw [unitAt, unitLoc_succ program (bodyStart mode) j inst hinst hstart, unitCode,
    codeLength_append, bodyCode, hop, ← Nat.add_assoc]
  rfl

theorem InPlace.instAt_le (h : InPlace t host program size mode) (j : Nat)
    (hstart : IsStart program.insts j) : instAt program mode j ≤ t.code.length := by
  rcases hstart.exists_inst with ⟨inst, hinst⟩
  have hbound := (h.listed_unit j _ hinst hstart).2
  rw [unitCode, codeLength_append] at hbound
  rw [instAt_eq]
  omega

/-- The place noted for an instruction. -/
theorem InPlace.pcLocs (h : InPlace t host program size mode) (j : Nat)
    (hstart : IsStart program.insts j) : t.marks.pcLocs j = instAt program mode j := by
  have hloc := loopMarks_pcLocs program program.insts 0 false (bodyStart mode)
    (initializeJitState size mode).marks j hstart.1 hstart.2
  rw [Nat.zero_add] at hloc
  rw [h.marks]
  exact hloc

theorem InPlace.prologSize (h : InPlace t host program size mode)
    (hne : program.insts ≠ []) : t.marks.prologSize = 15 := by
  rw [h.marks]
  have hprolog : (imageMarks program size mode).prologSize = (loopMarks program program.insts 0
    false (bodyStart mode) (initializeJitState size mode).marks).prologSize := rfl
  rw [hprolog]
  cases hinsts : program.insts with
  | nil => exact absurd hinsts hne
  | cons inst rest => exact loopMarks_first program inst rest _ _ rfl

/-! ## Where control goes -/

/-- Control comes from the end of one unit to the next instruction. -/
theorem InPlace.falls (h : InPlace t host program size mode) (j : Nat) (last : EbpfInst)
    (hstart : IsStart program.insts (j + 1)) (hlast : program.insts[j]? = some last)
    (hfall : last.opcode ≠ 0x95) (a : Abs) :
    t.Runs (unitAt program mode (j + 1)) a (instAt program mode (j + 1)) a := by
  rcases hstart.exists_inst with ⟨inst, hinst⟩
  have hlist := (h.listed_unit (j + 1) _ hinst hstart).1
  rw [unitCode] at hlist
  have hstartList := hlist.append.1
  have hfalls : program.fallsInto (j + 1) = program.isLocalFunc (j + 1) := by
    have hthrough : hasFallthrough last = true := decide_eq_true hfall
    simp only [ProgramView.fallsInto, Nat.add_sub_cancel, hlast, Option.elim, hthrough, ne_eq,
      Nat.add_eq_zero_iff, one_ne_zero, and_false, not_false_eq_true, decide_true, Bool.true_and,
      Bool.and_true]
  rw [instAt_eq]
  cases hlocal : program.isLocalFunc (j + 1) with
  | true =>
      -- There is a prolog, and the jump in front of it goes to its end.
      simp only [startCode, hfalls, hlocal, if_true] at hstartList ⊢
      have hlen : codeLength (Encoded.nearJmp 0 (unitAt program mode (j + 1) + 17) ::
        prologCode (program.usageAt (j + 1))) = 17 := rfl
      rw [hlen]
      exact Site.Runs.nearJmp t a 0 _ hstartList.1 (by omega) (by push_cast; omega)
  | false =>
      have hnone : startCode program (j + 1) (unitAt program mode (j + 1)) = [] := by
        simp only [startCode, hfalls, hlocal, Nat.add_eq_zero_iff, one_ne_zero, and_false,
          Bool.false_eq_true, or_self, if_false]
      rw [hnone]
      exact Site.Runs.refl t _ a

/-- A jump leads to the place of its target. -/
theorem InPlace.jumps (h : InPlace t host program size mode) (j : Nat)
    (hstart : IsStart program.insts j) (hclash : j ≠ targetPcRetpoline) :
    destination t.marks .jumps ⟨j, 0, false⟩ = instAt program mode j := by
  have hfew := h.validated.few
  have hexit : j ≠ targetPcExit := by
    have hlt := hstart.1
    simp only [maxInsts] at hfew
    simp only [targetPcExit]
    omega
  rw [destination, if_neg (by simp only [ne_eq, not_true_eq_false, not_false_eq_true]),
    if_neg hexit, if_neg hclash, h.pcLocs j hstart]

theorem InPlace.jumps_exit (h : InPlace t host program size mode) :
    destination t.marks .jumps ⟨targetPcExit, 0, false⟩ = exitStart program mode := by
  rw [destination, if_neg (by simp only [ne_eq, not_true_eq_false, not_false_eq_true]),
    if_pos rfl, h.marks]
  rfl

/-- A local call leads to the prolog of a function. -/
theorem InPlace.calls (h : InPlace t host program size mode) (j : Nat)
    (hstart : IsStart program.insts j) (hlocal : program.isLocalFunc j = true) :
    ∃ off : Nat, destination t.marks .localCalls ⟨j, 0, false⟩ = off ∧
      Listed t.marks t.code off (prologCode (program.usageAt j)) ∧
      off + 15 = instAt program mode j := by
  rcases hstart.exists_inst with ⟨inst, hinst⟩
  have hlist := (h.listed_unit j _ hinst hstart).1
  rw [unitCode] at hlist
  have hstartList := hlist.append.1
  have hdest : destination t.marks .localCalls ⟨j, 0, false⟩ =
      (instAt program mode j : Int) - 15 := by
    rw [destination, h.pcLocs j hstart,
      h.prologSize (List.ne_nil_of_length_pos (by have := hstart.1; omega))]
    rfl
  rw [hdest, instAt_eq]
  cases hfalls : program.fallsInto j with
  | true =>
      simp only [startCode, hfalls, if_true] at hstartList ⊢
      have hlen : codeLength (Encoded.nearJmp 0 (unitAt program mode j + 17) ::
        prologCode (program.usageAt j)) = 17 := rfl
      rw [hlen]
      exact ⟨unitAt program mode j + 2, by omega, hstartList.2, by omega⟩
  | false =>
      simp only [startCode, hfalls, hlocal, or_true, if_true, Bool.false_eq_true,
        if_false] at hstartList ⊢
      rw [length_prolog]
      exact ⟨unitAt program mode j, by omega, hstartList, rfl⟩

end Places

end UniBPF
