import UniBPF.Theory.Loads

/-!
# Read-Only Data

A relocation against a section is answered with the address of a copy of the
section, and the copies are looked up by the address the section had in the
file buffer. The buffer is freed when the load is over and the copy is not, so
a later file may find the copy of an earlier one under its own address.

`Serves` is what a program relies on: there is a section at the base of the
address it was given, and it starts with the contents of the program's own.
A copy is made by the first relocation at its address and by no other, so a
relocation is served exactly when that first one was of contents that start
the same way (`rodata_served_iff`). In particular it is served when it is
itself the first.

## Main definitions

* `firstAt`: The first relocation against a section at an address.
* `Serves`: A call was given its own section.
* `CopiesInv`: The invariant of the copies.

## Theorems

* `copiesInv_call`, `copiesInv_op`: The invariant is kept.
* `serves_iff`: A call was given its own section exactly when the copy starts
  with it.
* `rodata_served_iff`: All calls of a run are served exactly when each finds
  its own contents in the first relocation at its address.
* `stale_section_served`: A buffer that is used again.
-/

namespace UniBPF

variable (A : Allocator Obj)

/-- The first relocation against a section at an address. -/
def firstAt (rs : List RelocRequest) (addr : Nat) : Option RelocRequest :=
  rs.find? fun r => decide (r.symbolSize = 0) && decide (r.mapData = addr)

/-- The relocations a history is made of. -/
def History.requests (h : History) : List RelocRequest :=
  h.calls.map RelocCall.request

/-- The call was answered with `base + imm` where a copy of its own section
    starts at `base`. -/
def Serves (ctx : BpfMapCtx) (c : RelocCall) : Prop :=
  ∃ (base : Addr) (bytes : Bytes), c.result = (base + c.request.imm) % 2 ^ 64 ∧
    ctx.heap base = some (.section bytes) ∧
    bytes.take c.request.mapDataSize = c.request.contents

/-- Another relocation is the first one only where there was none. -/
theorem firstAt_append (rs : List RelocRequest) (r : RelocRequest) (addr : Nat) :
    firstAt (rs ++ [r]) addr = match firstAt rs addr with
      | some f => some f
      | none => if r.symbolSize = 0 ∧ r.mapData = addr then some r else none := by
  unfold firstAt
  rw [List.find?_append]
  cases hfirst : rs.find? fun r => decide (r.symbolSize = 0) && decide (r.mapData = addr) with
  | some f => rfl
  | none =>
      by_cases hr : r.symbolSize = 0 ∧ r.mapData = addr
      · rw [if_pos hr]
        simp only [List.find?_cons, hr.1, hr.2, decide_true, Bool.and_self, Option.none_or]
      · have hfalse : (decide (r.symbolSize = 0) && decide (r.mapData = addr)) = false := by
          rw [← Bool.decide_and]
          exact decide_eq_false hr
        rw [if_neg hr]
        simp only [List.find?_cons, hfalse, List.find?_nil, Option.none_or]

theorem requests_append (ctx ctx' : BpfMapCtx) (calls : List RelocCall) (c : RelocCall) :
    (⟨ctx', calls ++ [c]⟩ : History).requests
      = (⟨ctx, calls⟩ : History).requests ++ [c.request] := by
  simp only [History.requests, List.map_append, List.map_cons, List.map_nil]

/-- The invariant of the copies: each is of the section its first relocation
    was against, and every call was answered with the copy at its address. -/
structure CopiesInv (h : History) : Prop where
  range : ∀ a o, h.ctx.heap a = some o → 0 < a ∧ a < 2 ^ 64
  copies : ∀ addr mem, h.ctx.globalData addr = some mem →
    ∃ f, firstAt h.requests addr = some f ∧ h.ctx.heap mem = some (.section f.contents)
  unseen : ∀ addr, h.ctx.globalData addr = none → firstAt h.requests addr = none
  answered : ∀ c ∈ h.calls, c.request.symbolSize = 0 →
    ∃ mem, h.ctx.globalData c.request.mapData = some mem ∧
      c.result = (mem + c.request.imm) % 2 ^ 64

theorem copiesInv_new : CopiesInv History.new :=
  ⟨ctxInv_empty.range,
    fun _ _ h => absurd h (by simp only [History.new, BpfMapCtx.empty, reduceCtorEq,
      not_false_eq_true]),
    fun _ _ => rfl, fun _ hc => absurd hc List.not_mem_nil⟩

/-- A call that copies nothing, and that was answered from the table if it was
    against a section. -/
theorem copiesInv_same (ctx : BpfMapCtx) (calls : List RelocCall) (c : RelocCall)
    (hinv : CopiesInv ⟨ctx, calls⟩)
    (hc : c.request.symbolSize = 0 → ∃ mem, ctx.globalData c.request.mapData = some mem ∧
      c.result = (mem + c.request.imm) % 2 ^ 64) : CopiesInv ⟨ctx, calls ++ [c]⟩ := by
  have hreq := requests_append ctx ctx calls c
  refine ⟨hinv.range, ?_, ?_, ?_⟩
  · intro addr mem hmem
    rcases hinv.copies addr mem hmem with ⟨f, hf, hheap⟩
    refine ⟨f, ?_, hheap⟩
    rw [hreq, firstAt_append, hf]
  · intro addr hnone
    -- The call found something at its own address, so this is another one.
    have hother : ¬ (c.request.symbolSize = 0 ∧ c.request.mapData = addr) := by
      rintro ⟨hsize, haddr⟩
      rcases hc hsize with ⟨mem, hmem, -⟩
      simp only at hnone
      rw [haddr, hnone] at hmem
      exact absurd hmem (by simp only [reduceCtorEq, not_false_eq_true])
    have hunseen := hinv.unseen addr hnone
    rw [hreq, firstAt_append, hunseen]
    exact if_neg hother
  · intro c' hc' hsize
    rcases List.mem_append.mp hc' with hold | hlast
    · exact hinv.answered c' hold hsize
    · rw [List.mem_singleton.mp hlast] at hsize ⊢
      exact hc hsize

/-- A call that copies its section. -/
theorem copiesInv_copied (ctx : BpfMapCtx) (calls : List RelocCall) (c : RelocCall) (mem : Addr)
    (hinv : CopiesInv ⟨ctx, calls⟩) (hsize : c.request.symbolSize = 0)
    (hnew : ctx.globalData c.request.mapData = none) (halloc : A.alloc ctx.heap = some mem)
    (hresult : c.result = (mem + c.request.imm) % 2 ^ 64) :
    CopiesInv ⟨ctx.addSection c.request mem, calls ++ [c]⟩ := by
  have hfree := A.alloc_free ctx.heap mem halloc
  have hunseen := hinv.unseen c.request.mapData hnew
  have hreq := requests_append ctx (ctx.addSection c.request mem) calls c
  refine ⟨range_update A ctx.heap mem _ halloc hinv.range, ?_, ?_, ?_⟩
  · intro addr m hm
    rw [hreq, firstAt_append]
    by_cases haddr : addr = c.request.mapData
    -- The new copy, of the relocation that comes first at this address.
    · simp only [BpfMapCtx.addSection, haddr, Function.update_self, Option.some.injEq] at hm
      refine ⟨c.request, ?_, ?_⟩
      · rw [haddr, hunseen]
        exact if_pos ⟨hsize, rfl⟩
      · simp only [BpfMapCtx.addSection, ← hm, Function.update_self]
    · simp only [BpfMapCtx.addSection, Function.update_of_ne haddr] at hm
      rcases hinv.copies addr m hm with ⟨f, hf, hheap⟩
      refine ⟨f, ?_, update_of_free ctx.heap mem m _ _ hfree hheap⟩
      rw [hf]
  · intro addr hnone
    -- An address without a copy is not the one that was just copied.
    have haddr : addr ≠ c.request.mapData := by
      intro heq
      simp only [BpfMapCtx.addSection, heq, Function.update_self, reduceCtorEq] at hnone
    simp only [BpfMapCtx.addSection, Function.update_of_ne haddr] at hnone
    rw [hreq, firstAt_append, hinv.unseen addr hnone]
    exact if_neg (fun hc => haddr hc.2.symm)
  · intro c' hc' hsize'
    rcases List.mem_append.mp hc' with hold | hlast
    · rcases hinv.answered c' hold hsize' with ⟨m, hm, hres⟩
      exact ⟨m, update_of_free ctx.globalData _ _ mem m hnew hm, hres⟩
    · rw [List.mem_singleton.mp hlast]
      refine ⟨mem, ?_, hresult⟩
      simp only [BpfMapCtx.addSection, Function.update_self]

/-- A call that makes a map. -/
theorem copiesInv_created (ctx : BpfMapCtx) (calls : List RelocCall) (name : Bytes) (map : BpfMap)
    (a : Addr) (hinv : CopiesInv ⟨ctx, calls⟩) (halloc : A.alloc ctx.heap = some a) :
    CopiesInv ⟨ctx.addMap name map a, calls⟩ := by
  have hfree := A.alloc_free ctx.heap a halloc
  refine ⟨range_update A ctx.heap a _ halloc hinv.range, ?_, hinv.unseen, hinv.answered⟩
  intro addr mem hmem
  rcases hinv.copies addr mem hmem with ⟨f, hf, hheap⟩
  exact ⟨f, hf, update_of_free ctx.heap a mem _ _ hfree hheap⟩

theorem copiesInv_call (ctx ctx' : BpfMapCtx) (calls : List RelocCall) (c : RelocCall)
    (hinv : CopiesInv ⟨ctx, calls⟩) (h : Relocates A ctx c.request c.result ctx') :
    CopiesInv ⟨ctx', calls ++ [c]⟩ := by
  -- A call about a map is not answered from the table of copies.
  have hmap : sizeofMapDef ≤ c.request.symbolSize → ∀ ctx'', c.request.symbolSize = 0 →
      ∃ mem, BpfMapCtx.globalData ctx'' c.request.mapData = some mem ∧
        c.result = (mem + c.request.imm) % 2 ^ 64 := by
    intro hbig ctx'' hzero
    rw [hzero] at hbig
    exact absurd hbig (by decide)
  generalize hv : c.result = v at h
  cases h with
  | sectionKnown mem hsize hknown =>
      exact copiesInv_same ctx calls c hinv (fun _ => ⟨mem, hknown, hv⟩)
  | sectionCopied mem hsize hnew halloc =>
      exact copiesInv_copied A ctx calls c mem hinv hsize hnew halloc hv
  | tooSmall d hsize hdef hsmall =>
      exact copiesInv_same ctx calls c hinv (fun hzero => absurd hzero hsize)
  | found d _ map hsize hdef hbound hat hsame =>
      exact copiesInv_same ctx calls c hinv (hmap hsize ctx)
  | redefined d a map hsize hdef hbound hat hsame =>
      exact copiesInv_same ctx calls c hinv (hmap hsize ctx)
  | unsupported d hsize hdef hnew hdata =>
      exact copiesInv_same ctx calls c hinv (hmap hsize ctx)
  | created d data _ hsize hdef hnew hdata halloc =>
      exact copiesInv_same _ calls c
        (copiesInv_created A ctx calls c.request.symbolName ⟨d, data⟩ v hinv halloc) (hmap hsize _)

/-- An operation is on a map, so it changes no copy. -/
theorem copiesInv_op (ctx ctx' : BpfMapCtx) (calls : List RelocCall) (a : Addr) (op : MapOp)
    (hinv : CopiesInv ⟨ctx, calls⟩) (h : ctx.mapOp a op = some ctx') :
    CopiesInv ⟨ctx', calls⟩ := by
  rcases mapOp_cases ctx ctx' a op h with ⟨map, map', hmap, -, hctx⟩
  have hat := (mapAt_eq_some ctx a map).mp hmap
  rw [hctx]
  refine ⟨?_, ?_, hinv.unseen, hinv.answered⟩
  · intro b o hb
    by_cases hab : b = a
    · rw [hab]
      exact hinv.range a _ hat
    · simp only [Function.update_of_ne hab] at hb
      exact hinv.range b o hb
  · intro addr mem hmem
    rcases hinv.copies addr mem hmem with ⟨f, hf, hheap⟩
    have hne : mem ≠ a := by
      intro heq
      simp only at hheap
      rw [heq, hat] at hheap
      exact absurd hheap (by simp only [Option.some.injEq, reduceCtorEq, not_false_eq_true])
    refine ⟨f, hf, ?_⟩
    simp only [Function.update_of_ne hne]
    exact hheap

/-- A base below the end of the address space is determined by its sum with an
    immediate. -/
theorem base_unique (a b imm : Nat) (ha : a < 2 ^ 64) (hb : b < 2 ^ 64)
    (h : (a + imm) % 2 ^ 64 = (b + imm) % 2 ^ 64) : a = b := by
  omega

/-- A call was given its own section exactly when the copy at its address
    starts with it. -/
theorem serves_iff (h : History) (hinv : CopiesInv h) (c : RelocCall) (hc : c ∈ h.calls)
    (hsize : c.request.symbolSize = 0) :
    Serves h.ctx c ↔ ∀ f, firstAt h.requests c.request.mapData = some f →
      f.contents.take c.request.mapDataSize = c.request.contents := by
  rcases hinv.answered c hc hsize with ⟨mem, hmem, hresult⟩
  rcases hinv.copies c.request.mapData mem hmem with ⟨f, hf, hheap⟩
  constructor
  · rintro ⟨base, bytes, hbase, hbytes, htake⟩ f' hf'
    have heq : base = mem := base_unique base mem c.request.imm (hinv.range base _ hbytes).2
      (hinv.range mem _ hheap).2 (hbase.symm.trans hresult)
    rw [heq, hheap, Option.some.injEq, Obj.section.injEq] at hbytes
    rw [hf, Option.some.injEq] at hf'
    rw [← hf', hbytes]
    exact htake
  · intro hfirst
    exact ⟨mem, f.contents, hresult, hheap, hfirst f hf⟩

theorem copiesInv_history (es : List LoadEvent) (h : History)
    (hrun : Steps.run (loadStep A) History.new es = some h) : CopiesInv h :=
  history_invariant A CopiesInv copiesInv_new
    (fun ctx ctx' calls c hinv hc => copiesInv_call A ctx ctx' calls c hinv hc)
    (fun ctx ctx' calls a op hinv hop => copiesInv_op ctx ctx' calls a op hinv hop) es h hrun

/-- Over every run of loads and operations, the relocations against sections
    are all given their own section exactly when at each one's address the
    first relocation was against contents that start with its own. -/
theorem rodata_served_iff (es : List LoadEvent) (h : History)
    (hrun : Steps.run (loadStep A) History.new es = some h) :
    (∀ c ∈ h.calls, c.request.symbolSize = 0 → Serves h.ctx c) ↔
      ∀ r ∈ h.requests, r.symbolSize = 0 → ∀ f, firstAt h.requests r.mapData = some f →
        f.contents.take r.mapDataSize = r.contents := by
  have hinv := copiesInv_history A es h hrun
  constructor
  · intro hserves r hr hsize
    rcases List.mem_map.mp hr with ⟨c, hc, hcr⟩
    rw [← hcr] at hsize ⊢
    exact (serves_iff h hinv c hc hsize).mp (hserves c hc hsize)
  · intro hfirst c hc hsize
    exact (serves_iff h hinv c hc hsize).mpr
      (hfirst c.request (List.mem_map.mpr ⟨c, hc, rfl⟩) hsize)

/-- Two programs one after another in the same buffer, with the same
    section. -/
theorem rodata_served_twice :
    ∃ h, Steps.run (loadStep sampleAllocator) History.new
        [sampleLoad (mapObject 0 [1, 2, 3, 4]), sampleLoad (mapObject 0 [1, 2, 3, 4])] = some h ∧
      h.calls.length = 2 ∧ ∀ c ∈ h.calls, c.request.symbolSize = 0 → Serves h.ctx c := by
  have hall : ((Steps.run (loadStep sampleAllocator) History.new
      [sampleLoad (mapObject 0 [1, 2, 3, 4]), sampleLoad (mapObject 0 [1, 2, 3, 4])]).any fun h =>
        decide (h.calls.length = 2) && h.requests.all fun r =>
          (firstAt h.requests r.mapData).all fun f =>
            decide (f.contents.take r.mapDataSize = r.contents)) = true := by
    decide +kernel
  rcases (Option.any_eq_true _ _).mp hall with ⟨h, hrun, htest⟩
  rcases (Bool.and_eq_true _ _).mp htest with ⟨htwo, hsame⟩
  refine ⟨h, hrun, of_decide_eq_true htwo, (rodata_served_iff _ _ h hrun).mpr ?_⟩
  intro r hr hsize f hf
  have hfirst := List.all_eq_true.mp hsame r hr
  rw [hf] at hfirst
  exact of_decide_eq_true hfirst

/-- A second program in the buffer of the first, with other contents at the
    same place: it is given the copy of the first. -/
theorem stale_section_served :
    ¬ ∀ (A : Allocator Obj) (es : List LoadEvent) (h : History),
      Steps.run (loadStep A) History.new es = some h →
      ∀ c ∈ h.calls, c.request.symbolSize = 0 → Serves h.ctx c := by
  intro hclaim
  have hall : ((Steps.run (loadStep sampleAllocator) History.new
      [sampleLoad (mapObject 0 [1, 2, 3, 4]), sampleLoad (mapObject 0 [5, 6, 7, 8])]).any fun h =>
        h.calls.any fun c => (firstAt h.requests c.request.mapData).any fun f =>
          decide (c.request.symbolSize = 0 ∧
            f.contents.take c.request.mapDataSize ≠ c.request.contents)) = true := by
    decide +kernel
  rcases (Option.any_eq_true _ _).mp hall with ⟨h, hrun, htest⟩
  rcases List.any_eq_true.mp htest with ⟨c, hc, htest⟩
  rcases (Option.any_eq_true _ _).mp htest with ⟨f, hf, htest⟩
  rcases of_decide_eq_true htest with ⟨hsize, hother⟩
  have hinv := copiesInv_history sampleAllocator _ h hrun
  have hserves := hclaim sampleAllocator _ h hrun c hc hsize
  exact hother ((serves_iff h hinv c hc hsize).mp hserves f hf)

end UniBPF
