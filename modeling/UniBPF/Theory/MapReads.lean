import UniBPF.Theory.Entries
import UniBPF.Theory.EntryPoint
import UniBPF.Theory.Loads

/-!
# What a Map Relocation Reads

The callback gets a section and a symbol in it, and reads the definition of a
map there, 28 bytes from the start of the symbol. Two checks stand between a
file and that read. The loader compares the end of the symbol with the end of
the section, but the end is a sum of two numbers from the file and may wrap.
The callback compares the size of the symbol with the size of a definition,
but only after it has read one.

So nothing keeps a symbol that is smaller than a definition from the end of
its section, and a symbol whose end wraps may be anywhere. The read stays in
the section exactly if the offset of the symbol leaves room for a definition
(`map_reads_iff`); the size of the symbol does not come into it, unless it is
zero and the section is copied instead. What the later check does achieve is
that no definition is used that is not inside its symbol.

## Main definitions

* `Span`, `mapReads`: What the callback reads.
* `Requested`: A request that passes the checks of the loader.
* `RelocationSafe`: The reads stay in the section, and what is used stays in
  the symbol.

## Theorems

* `parseElf_inside`: The sections of a file are in the file.
* `doMapRelocation_reads`: The callback depends on nothing else.
* `requested_of_call`: The requests of a load pass the checks.
* `map_reads_iff`: When a relocation is safe.
-/

namespace UniBPF

open LittleEndian

/-- A range of addresses. -/
structure Span where
  addr : Nat
  len : Nat
deriving DecidableEq, Repr

/-- What `do_map_relocation` reads of the file: the section it copies, unless
    it has it already, or a definition, before it looks at the size of the
    symbol. -/
def mapReads (ctx : BpfMapCtx) (r : RelocRequest) : List Span :=
  if r.symbolSize = 0 then
    match ctx.globalData r.mapData with
    | some _ => []
    | none => [⟨r.mapData, r.mapDataSize⟩]
  else [⟨(r.mapData + r.symbolOffset) % 2 ^ 64, sizeofMapDef⟩]

/-- The range lies in the section of the request. -/
def Span.Inside (span : Span) (r : RelocRequest) : Prop :=
  r.mapData ≤ span.addr ∧ span.addr + span.len ≤ r.mapData + r.mapDataSize

/-- A request for an entry of this object that passes the checks of the
    loader, whatever the program around it is by then. -/
def Requested (buffer : FileBuffer) (main : Option Bytes) (r : RelocRequest) : Prop :=
  ∃ layout appliesTo symtab rel site code map name, parseElf buffer.bytes main = .ok layout ∧
    resolveEntry buffer.bytes layout appliesTo symtab rel = .ok site ∧
    checkData layout site code = .ok map ∧ r = dataRequest buffer map name site code

/-- The callback reads the section only, and uses a definition only if all of
    it is in the symbol. -/
def RelocationSafe (A : Allocator Obj) (ctx : BpfMapCtx) (r : RelocRequest) : Prop :=
  (∀ span ∈ mapReads ctx r, span.Inside r) ∧
    ∀ x ctx', r.symbolSize ≠ 0 → doMapRelocation A ctx r = some (x, ctx') → x ≠ 0 ∨ ctx' ≠ ctx →
      sizeofMapDef ≤ r.symbolSize

section Bounds

variable (elf : Bytes)

theorem boundsCheck_le (size offset len : Nat) (hoffset : offset < 2 ^ 64) (hlen : len < 2 ^ 64)
    (h : boundsCheck size offset len = true) : offset + len ≤ size := by
  simp only [boundsCheck, Bool.not_eq_true', Bool.or_eq_false_iff, decide_eq_false_iff_not] at h
  omega

theorem readLE_lt_word (off : Nat) : readLE elf off 8 < 2 ^ 64 :=
  readLE_lt elf off 8

theorem parseSection_inside (off : Nat) (sec : Section) (h : parseSection elf off = .ok sec) :
    sec.offset + sec.size ≤ elf.length := by
  unfold parseSection at h
  split at h
  · exact absurd h (by simp only [reduceCtorEq, not_false_eq_true])
  split at h
  · exact absurd h (by simp only [reduceCtorEq, not_false_eq_true])
  split at h
  · exact absurd h (by simp only [reduceCtorEq, not_false_eq_true])
  · rename_i hcheck
    rw [Bool.not_eq_true', Bool.not_eq_false] at hcheck
    rw [← Except.ok.inj h]
    exact boundsCheck_le elf.length _ _ (readLE_lt_word elf _) (readLE_lt_word elf _) hcheck

theorem parseSections_inside (shentsize n : Nat) : ∀ (off : Nat) (secs : List Section),
    parseSections elf shentsize n off = .ok secs →
      ∀ sec ∈ secs, sec.offset + sec.size ≤ elf.length := by
  induction n with
  | zero =>
      intro off secs h sec hsec
      simp only [parseSections, Except.ok.injEq] at h
      rw [← h] at hsec
      exact absurd hsec List.not_mem_nil
  | succ n ih =>
      intro off secs h sec hsec
      unfold parseSections at h
      cases hfirst : parseSection elf off with
      | error stop =>
          rw [hfirst] at h
          exact absurd h (by simp only [reduceCtorEq, not_false_eq_true])
      | ok first =>
          rw [hfirst] at h
          cases hrest : parseSections elf shentsize n ((off + shentsize) % 2 ^ 64) with
          | error stop =>
              rw [hrest] at h
              exact absurd h (by simp only [reduceCtorEq, not_false_eq_true])
          | ok rest =>
              rw [hrest] at h
              have hsecs : first :: rest = secs := Except.ok.inj h
              rw [← hsecs] at hsec
              rcases List.mem_cons.mp hsec with heq | hmem
              · rw [heq]
                exact parseSection_inside elf off first hfirst
              · exact ih _ rest hrest sec hmem

/-- The sections of an object that is laid out are in the file. -/
theorem parseElf_inside (main : Option Bytes) (layout : Layout)
    (h : parseElf elf main = .ok layout) :
    ∀ sec ∈ layout.sections, sec.offset + sec.size ≤ elf.length := by
  rcases parseElf_stages elf main layout h with ⟨ehdr, t, found, -, hsecs, -, hlayout⟩
  rcases layoutFunctions_ok elf t.sections t.strtab found layout hlayout with
    ⟨-, -, -, hsections, -⟩
  rw [hsections]
  exact parseSections_inside elf ehdr.shentsize ehdr.shnum ehdr.shoff t.sections hsecs

/-- The numbers of a symbol have 64 bits. -/
theorem resolveEntry_sym_lt (layout : Layout) (appliesTo symtab : Section) (rel : Rel)
    (site : RelocSite)
    (h : resolveEntry elf layout appliesTo symtab rel = .ok site) : site.sym.value < 2 ^ 64 := by
  unfold resolveEntry at h
  split at h
  · exact absurd h (by simp only [reduceCtorEq, not_false_eq_true])
  cases hsym : parseSym elf (symtab.offset + rel.sym * sizeofSym) with
  | error stop =>
      rw [hsym] at h
      exact absurd h (by simp only [reduceCtorEq, not_false_eq_true])
  | ok sym =>
      have hvalue : sym.value < 2 ^ 64 := by
        unfold parseSym at hsym
        split at hsym
        · exact absurd hsym (by simp only [reduceCtorEq, not_false_eq_true])
        · rw [← Except.ok.inj hsym]
          exact readLE_lt_word elf _
      simp only [hsym] at h
      split at h
      · exact absurd h (by simp only [reduceCtorEq, not_false_eq_true])
      split at h
      · exact absurd h (by simp only [reduceCtorEq, not_false_eq_true])
      · rw [← Except.ok.inj h]
        exact hvalue

end Bounds

/-- What is known of a request: its section is in the buffer, and the offset
    of its symbol has 64 bits. -/
theorem Requested.bounds {buffer : FileBuffer} {main : Option Bytes} {r : RelocRequest}
    (h : Requested buffer main r) :
    r.mapData + r.mapDataSize ≤ 2 ^ 64 ∧ r.symbolOffset < 2 ^ 64 := by
  rcases h with ⟨layout, appliesTo, symtab, rel, site, code, map, name, hparse, hsite, hcheck, hr⟩
  have hmap := List.mem_of_getElem? (checkData_section layout site code map hcheck)
  have hinside := parseElf_inside buffer.bytes main layout hparse map hmap
  have hfits := buffer.fits
  rw [hr]
  refine ⟨?_, resolveEntry_sym_lt buffer.bytes layout appliesTo symtab rel site hsite⟩
  simp only [RelocRequest.mapData, dataRequest]
  omega

/-- A definition is only used if its symbol is large enough for it. -/
theorem doMapRelocation_small (A : Allocator Obj) (ctx ctx' : BpfMapCtx) (r : RelocRequest)
    (x : Nat) (hsize : r.symbolSize ≠ 0) (hsmall : r.symbolSize < sizeofMapDef)
    (h : doMapRelocation A ctx r = some (x, ctx')) : x = 0 ∧ ctx' = ctx := by
  unfold doMapRelocation at h
  rw [if_neg hsize] at h
  cases hdefn : r.mapDefinition with
  | none =>
      rw [hdefn] at h
      exact absurd h (by simp only [reduceCtorEq, not_false_eq_true])
  | some d =>
      simp only [hdefn, if_pos hsmall, Option.some.injEq, Prod.mk.injEq] at h
      exact ⟨h.1.symm, h.2.symm⟩

section Reads

variable (A : Allocator Obj) (ctx : BpfMapCtx)

/-- A definition is 28 bytes, wherever they are. -/
theorem MapDef.parse_slice (bs : Bytes) (off : Nat) :
    MapDef.parse bs off = MapDef.parse ((bs.drop off).take sizeofMapDef) 0 := by
  have hfield : ∀ k, k + 4 ≤ sizeofMapDef → readLE bs (off + k) 4
      = readLE ((bs.drop off).take sizeofMapDef) k 4 := by
    intro k hk
    rw [readLE, readLE, List.drop_take, List.drop_drop, List.take_take, Nat.min_eq_left (by omega)]
  have hfirst := hfield 0 (by decide)
  rw [Nat.add_zero] at hfirst
  simp only [MapDef.parse, hfirst, Nat.zero_add, hfield 4 (by decide), hfield 8 (by decide),
    hfield 12 (by decide), hfield 16 (by decide), hfield 20 (by decide), hfield 24 (by decide)]

/-- The callback depends on no other bytes of the file than those it reads. -/
theorem doMapRelocation_reads (r : RelocRequest) (other : FileBuffer)
    (haddr : other.addr = r.buffer.addr) (hlen : other.bytes.length = r.buffer.bytes.length)
    (hsame : ∀ span ∈ mapReads ctx r,
      (other.bytes.drop (span.addr - r.buffer.addr)).take span.len
        = (r.buffer.bytes.drop (span.addr - r.buffer.addr)).take span.len) :
    doMapRelocation A ctx { r with buffer := other } = doMapRelocation A ctx r := by
  have hdata : RelocRequest.mapData { r with buffer := other } = r.mapData := by
    simp only [RelocRequest.mapData, haddr]
  unfold doMapRelocation
  by_cases hsize : r.symbolSize = 0
  · simp only [if_pos hsize, doDataRelocation, hdata]
    cases hcopied : ctx.globalData r.mapData with
    | some mem => rfl
    | none =>
        have hcontents : RelocRequest.contents { r with buffer := other } = r.contents := by
          have hspan := hsame ⟨r.mapData, r.mapDataSize⟩ (by
            simp only [mapReads, if_pos hsize, hcopied, List.mem_singleton])
          simp only [RelocRequest.mapData, Nat.add_sub_cancel_left] at hspan
          exact hspan
        rw [hcontents]
  · have hspan := hsame ⟨(r.mapData + r.symbolOffset) % 2 ^ 64, sizeofMapDef⟩ (by
      simp only [mapReads, if_neg hsize, List.mem_singleton])
    have hdefn : RelocRequest.mapDefinition { r with buffer := other } = r.mapDefinition := by
      simp only [RelocRequest.mapDefinition, hdata, haddr, hlen]
      rw [MapDef.parse_slice other.bytes, MapDef.parse_slice r.buffer.bytes, hspan]
    simp only [hdefn, if_neg hsize]

end Reads

section Calls

variable {σ : Type} (reloc : DataRelocation σ) (vm : Vm) (buffer : FileBuffer) (main : Option Bytes)
  (layout : Layout) (hparse : parseElf buffer.bytes main = .ok layout)

/-- Every call so far was a request that passed the checks. -/
def AllRequested (s : LinkState σ) : Prop :=
  ∀ c ∈ s.calls, Requested buffer main c.request

include hparse

theorem allRequested_relocateData (appliesTo symtab : Section) (rel : Rel) (site : RelocSite)
    (hsite : resolveEntry buffer.bytes layout appliesTo symtab rel = .ok site) (s : LinkState σ)
    (h : AllRequested buffer main s) :
    AllRequested buffer main (relocateData reloc buffer layout site s).2 := by
  unfold relocateData
  cases hcheck : checkData layout site s.code with
  | error stop => exact h
  | ok map =>
      simp only []
      by_cases hshort : s.code.length < site.pos + 16
      · rw [if_pos hshort]
        exact h
      rw [if_neg hshort]
      cases cString buffer.bytes (layout.strtab.offset + site.sym.name) with
      | none => exact h
      | some name =>
          simp only []
          cases reloc s.ctx (dataRequest buffer map name site s.code) with
          | none => exact h
          | some answer =>
              intro c hc
              rcases List.mem_append.mp hc with hold | hnew
              · exact h c hold
              · rw [List.mem_singleton.mp hnew]
                exact ⟨layout, appliesTo, symtab, rel, site, s.code, map, name, hparse, hsite,
                  hcheck, rfl⟩

theorem allRequested_relocateEntry (appliesTo symtab relo : Section) (j : Nat) (s : LinkState σ)
    (h : AllRequested buffer main s) :
    AllRequested buffer main
      (relocateEntry reloc vm buffer layout appliesTo symtab relo j s).2 := by
  unfold relocateEntry
  cases parseRel buffer.bytes (relo.offset + j * sizeofRel) with
  | error stop => exact h
  | ok rel =>
      simp only []
      cases hsite : resolveEntry buffer.bytes layout appliesTo symtab rel with
      | error stop => exact h
      | ok site =>
          simp only []
          by_cases hdata : rel.type = rBpf64x64
          · rw [if_pos hdata]
            exact allRequested_relocateData reloc buffer main layout hparse appliesTo symtab rel
              site hsite s h
          rw [if_neg hdata]
          by_cases hcall : rel.type = rBpf64x32
          · rw [if_pos hcall]
            -- A call relocation asks the callback nothing.
            unfold relocateCall
            split
            · exact h
            · simp only []
              split
              · exact h
              · exact h
          · rw [if_neg hcall]
            exact h

theorem allRequested_relocateSection (relo : Section) (s : LinkState σ)
    (h : AllRequested buffer main s) :
    AllRequested buffer main (relocateSection reloc vm buffer layout relo s).2 := by
  unfold relocateSection
  by_cases htype : relo.type ≠ shtRel
  · rw [if_pos htype]
    exact h
  rw [if_neg htype]
  cases layout.sections[relo.info]? with
  | none => exact h
  | some appliesTo =>
      simp only []
      split
      · exact h
      · split
        · exact h
        · cases layout.sections[relo.link]? with
          | none => exact h
          | some symtab =>
              exact untilStop_inv _ (AllRequested buffer main)
                (allRequested_relocateEntry reloc vm buffer main layout hparse appliesTo symtab
                  relo) _ s h

omit hparse in
/-- The calls of a load, whether or not it succeeds, are requests that passed
    the checks. -/
theorem requested_of_call (base : Addr) (ctx : σ) (loaded : Loaded σ)
    (h : ubpfLoadElfEx reloc base vm ctx buffer main = some loaded) (c : RelocCall)
    (hc : c ∈ loaded.calls) : Requested buffer main c.request := by
  rcases ubpfLoadElfEx_cases reloc base vm ctx buffer main loaded h with
    ⟨e, -, -, -, hcalls, -⟩ | ⟨layout, s, stop, hlayout, hpass, -, hcalls, -, -⟩
  · rw [hcalls] at hc
    exact absurd hc List.not_mem_nil
  · have hall := untilStop_inv _ (AllRequested buffer main)
      (allRequested_relocateSection reloc vm buffer main layout hlayout) layout.sections
      ⟨layout.code, ctx, [], []⟩ (fun c hc => absurd hc List.not_mem_nil)
    rw [hcalls] at hc
    have hstate : (relocateSections reloc vm buffer layout ctx).2 = s := by
      rw [hpass]
    rw [← hstate] at hc
    exact hall c hc

end Calls

/-- A relocation is safe exactly if the symbol has no size, or leaves room for
    a definition behind its start. -/
theorem map_reads_iff (A : Allocator Obj) (ctx : BpfMapCtx) (buffer : FileBuffer)
    (main : Option Bytes) (r : RelocRequest) (h : Requested buffer main r) :
    RelocationSafe A ctx r ↔ r.symbolSize = 0 ∨ r.symbolOffset + sizeofMapDef ≤ r.mapDataSize := by
  rcases h.bounds with ⟨hend, hoffset⟩
  have hused : ∀ x ctx', r.symbolSize ≠ 0 → doMapRelocation A ctx r = some (x, ctx') →
      x ≠ 0 ∨ ctx' ≠ ctx → sizeofMapDef ≤ r.symbolSize := by
    intro x ctx' hsize hcall huse
    by_contra hsmall
    rcases doMapRelocation_small A ctx ctx' r x hsize (by omega) hcall with ⟨hzero, hsame⟩
    rcases huse with hne | hne
    · exact hne hzero
    · exact hne hsame
  unfold RelocationSafe mapReads Span.Inside
  by_cases hsize : r.symbolSize = 0
  · rw [if_pos hsize]
    refine ⟨fun _ => .inl hsize, fun _ => ⟨?_, hused⟩⟩
    -- The section is copied as a whole, or not at all.
    cases ctx.globalData r.mapData with
    | some mem =>
        intro span hspan
        exact absurd hspan List.not_mem_nil
    | none =>
        intro span hspan
        rw [List.mem_singleton.mp hspan]
        exact ⟨le_rfl, le_rfl⟩
  · rw [if_neg hsize]
    simp only [List.mem_singleton, forall_eq]
    constructor
    · rintro ⟨⟨hfrom, hto⟩, -⟩
      right
      omega
    · intro hor
      refine ⟨?_, hused⟩
      rcases hor with hzero | hroom
      · exact absurd hzero hsize
      · have hno : r.mapData + r.symbolOffset < 2 ^ 64 := by
          unfold sizeofMapDef at hroom
          omega
        rw [Nat.mod_eq_of_lt hno]
        omega

/-- The load of an object with one symbol in a data section. -/
def symbolLoaded (symbolSize : Nat) (data : Bytes) : Option (Loaded BpfMapCtx) :=
  ubpfLoadElfEx (doMapRelocation sampleAllocator) 0x200000 (initUbpfVm .bpfilter) BpfMapCtx.empty
    (sampleBuffer (mapObject symbolSize data)) (some mainName)

/-- A symbol as large as a definition, in a section as large as that. -/
theorem whole_definition_safe :
    ∃ loaded c, symbolLoaded 28 sampleHash = some loaded ∧ c ∈ loaded.calls ∧
      RelocationSafe sampleAllocator .empty c.request := by
  have hload : ((symbolLoaded 28 sampleHash).any fun loaded => loaded.calls.any fun c =>
      decide (c.request.symbolOffset + sizeofMapDef ≤ c.request.mapDataSize)) = true := by
    decide +kernel
  rcases (Option.any_eq_true _ _).mp hload with ⟨loaded, hloaded, hcalls⟩
  rcases List.any_eq_true.mp hcalls with ⟨c, hc, hroom⟩
  have hrequested := requested_of_call _ _ _ _ _ _ loaded hloaded c hc
  exact ⟨loaded, c, hloaded, hc, (map_reads_iff sampleAllocator .empty _ _ c.request hrequested).mpr
    (.inr (of_decide_eq_true hroom))⟩

/-- A symbol of four bytes in a section of sixteen: the load succeeds, and the
    callback has read twelve bytes behind the section. -/
theorem short_symbol_overread :
    ∃ loaded c, symbolLoaded 4 (List.replicate 16 0) = some loaded ∧ loaded.error = none ∧
      c ∈ loaded.calls ∧
      Requested (sampleBuffer (mapObject 4 (List.replicate 16 0))) (some mainName) c.request ∧
      mapReads .empty c.request = [⟨c.request.mapData, 28⟩] ∧ c.request.mapDataSize = 16 ∧
      ¬ RelocationSafe sampleAllocator .empty c.request := by
  have hload : ((symbolLoaded 4 (List.replicate 16 0)).any fun loaded =>
      decide (loaded.error = none) && loaded.calls.any fun c =>
        decide (mapReads .empty c.request = [⟨c.request.mapData, 28⟩] ∧
          c.request.mapDataSize = 16)) = true := by
    decide +kernel
  rcases (Option.any_eq_true _ _).mp hload with ⟨loaded, hloaded, htest⟩
  rcases (Bool.and_eq_true _ _).mp htest with ⟨hends, hcalls⟩
  rcases List.any_eq_true.mp hcalls with ⟨c, hc, hreads⟩
  rcases of_decide_eq_true hreads with ⟨hspan, hsize⟩
  refine ⟨loaded, c, hloaded, of_decide_eq_true hends, hc,
    requested_of_call _ _ _ _ _ _ loaded hloaded c hc, hspan, hsize, ?_⟩
  intro hsafe
  have hinside :=
    (hsafe.1 ⟨c.request.mapData, 28⟩ (by rw [hspan]; exact List.mem_singleton_self _)).2
  simp only [hsize] at hinside
  omega

end UniBPF
