import Mathlib.Data.List.Pairwise
import UniBPF.Theory.MapReads

/-!
# Which Function an Entry Belongs to

A relocation entry names an offset in a section. The functions of the section
have been copied into the linked program by then, so the loader looks for the
function whose range holds the offset and patches the instruction in its copy.

The search leaves out the first byte of each function: it asks for an offset
above the start. An entry on the first instruction of a function is therefore
in no function at all, and the object is rejected, although nothing is wrong
with it. A program that starts by loading the address of a map is such an
object.

A function may also have no copy. The last entry point takes the slot of those
before it, and the loop over the symbols stops early where the size of the
table does not fit an `int`. An entry in such a function is in none either.
Every other entry finds its function, and only that one, as long as functions
do not overlap.

## Main definitions

* `NonOverlapping`: The functions of an object are apart.
* `EntryIn`: An entry of an executable section, in the range of a function.
* `AttributedTo`: The entry is taken to be in the function, and patches its
  copy.

## Theorems

* `placeFunctions_copies`: The linked program has a copy of each function.
* `findSource_symbol`, `findSource_laidOut`: The search.
* `relocateEntry_writes`: What a round writes.
* `attribution_iff`: When the loader attributes an entry.
-/

namespace UniBPF

open LittleEndian

/-- The symbol is about the section with this header. -/
def Sym.InSection (sections : List Section) (shdr : Nat) (sym : Sym) : Prop :=
  (sections[sym.shndx]?).map Section.shdr = some shdr

/-- The ranges of two functions do not overlap if they are in one section. -/
def Apart (sections : List Section) (f g : Sym) : Prop :=
  ∀ shdr, f.InSection sections shdr → g.InSection sections shdr →
    f.value + f.size ≤ g.value ∨ g.value + g.size ≤ f.value

/-- No two functions of the symbol table overlap. -/
def NonOverlapping (elf : Bytes) (t : Tables) : Prop :=
  (t.functions elf).Pairwise (Apart t.sections)

/-- An entry of an executable section, at an offset in the range of a function
    of the object. The file is the content of a `std::vector`, which holds less
    than `2 ^ 63` bytes. -/
structure EntryIn (buffer : FileBuffer) (main : Option Bytes) (layout : Layout) (t : Tables)
    (relo appliesTo symtab : Section) (j : Nat) (rel : Rel) (sym : Sym) : Prop where
  size : buffer.bytes.length < 2 ^ 63
  parsed : parseElf buffer.bytes main = .ok layout
  tables : tables buffer.bytes = some t
  relocations : relo ∈ layout.sections ∧ relo.type = shtRel
  code : layout.sections[relo.info]? = some appliesTo ∧ appliesTo.isExec = true
  symbols : layout.sections[relo.link]? = some symtab
  entry : j < relo.size / sizeofRel ∧ parseRel buffer.bytes (relo.offset + j * sizeofRel) = .ok rel
  function : sym ∈ t.functions buffer.bytes ∧ sym.InSection t.sections appliesTo.shdr
  lower : sym.value ≤ rel.offset
  upper : rel.offset < sym.value + sym.size

/-- Where the immediates of the instruction at a position are that an entry of
    a type is about: both halves of a double-word load, the one of a call. -/
def immediatesAt (type pos : Nat) : List Nat :=
  if type = rBpf64x64 then [pos + 4, pos + 12] else if type = rBpf64x32 then [pos + 4] else []

/-- What the loader has recorded of a function that is placed, without the
    place. -/
def RelocatedFunction.unplaced (f : RelocatedFunction) : RelocatedFunction :=
  { f with linkedData := 0, landed := 0 }

/-- The loader takes the entry to be in the function of a symbol: the search
    finds it, its copy is in the linked program, a completed round writes the
    immediates of the instruction in that copy and nothing else, into a
    double-word load what the callback returned, and no round is rejected for
    an entry outside of all functions. -/
structure AttributedTo (buffer : FileBuffer) (layout : Layout) (t : Tables)
    (relo appliesTo symtab : Section) (j : Nat) (rel : Rel) (sym : Sym) (f : RelocatedFunction) :
    Prop where
  found : findSource layout.functions appliesTo rel.offset = some f
  function : f.unplaced = relocatedFunction t.sections t.strtab sym
  copied : (layout.code.drop f.linkedData).take f.size
    = (buffer.bytes.drop f.nativeData).take f.size
  patched : ∀ {σ : Type} (reloc : DataRelocation σ) (vm : Vm) (s s' : LinkState σ),
    relocateEntry reloc vm buffer layout appliesTo symtab relo j s = (none, s') →
    ∃ patches, s'.code = patches.foldl applyPatch s.code ∧ s'.patches = s.patches ++ patches ∧
      patches.map Patch.offset
        = immediatesAt rel.type (f.linkedData + (rel.offset - f.nativeSectionStart)) ∧
      (rel.type = rBpf64x64 → ∃ request imm, reloc s.ctx request = some (imm, s'.ctx) ∧
        patches = lddwPatches (f.linkedData + (rel.offset - f.nativeSectionStart)) imm)
  accepted : ∀ {σ : Type} (reloc : DataRelocation σ) (vm : Vm) (s : LinkState σ),
    (relocateEntry reloc vm buffer layout appliesTo symtab relo j s).1
      ≠ some (.error .relocationOutsideFunctions)

section Placement

variable (elf : Bytes)

/-- A function is copied to its place in the linked program. -/
theorem placeFunctions_copies (fs : List RelocatedFunction) :
    ∀ (spot : Nat) (placed : List RelocatedFunction) (code : Bytes),
      placeFunctions elf fs spot = .ok (placed, code) → ∀ f ∈ placed, spot ≤ f.linkedData ∧
        f.nativeData + f.size ≤ elf.length ∧ f.linkedData - spot + f.size ≤ code.length ∧
        (code.drop (f.linkedData - spot)).take f.size = (elf.drop f.nativeData).take f.size := by
  induction fs with
  | nil =>
      intro spot placed code h f hf
      simp only [placeFunctions, Except.ok.injEq, Prod.mk.injEq] at h
      rw [← h.1] at hf
      exact absurd hf List.not_mem_nil
  | cons rf rfs ih =>
      intro spot placed code h f hf
      rcases placeFunctions_cons elf rf rfs spot placed code h with
        ⟨rest, hrest, hplaced, hfits, hcode⟩
      -- The bytes of the first function are there in full, so nothing is cut short.
      have hfirst : ((elf.drop rf.nativeData).take rf.size).length = rf.size := by
        rw [List.length_take, List.length_drop]
        omega
      have hlength : code.length = rf.size + rest.2.length := by
        rw [hcode, List.length_append, hfirst]
      rw [hplaced] at hf
      rcases List.mem_cons.mp hf with heq | hmem
      · rw [heq]
        refine ⟨le_rfl, hfits, by simp only; omega, ?_⟩
        simp only [Nat.sub_self, List.drop_zero]
        rw [hcode, List.take_append_of_le_length (by omega), List.take_of_length_le (by omega)]
      -- Behind the first function everything is further on by its size.
      · rcases ih (spot + rf.size) rest.1 rest.2 hrest f hmem with ⟨hspot, hin, hend, hcopy⟩
        refine ⟨by omega, hin, by omega, ?_⟩
        have hskip : f.linkedData - spot = ((elf.drop rf.nativeData).take rf.size).length
            + (f.linkedData - (spot + rf.size)) := by
          rw [hfirst]
          omega
        rw [hcode, hskip, List.drop_append, List.drop_of_length_le (by omega), List.nil_append,
          Nat.add_sub_cancel_left]
        exact hcopy

/-- A function keeps what was recorded of it when it is placed. -/
theorem placeFunctions_unplaced (fs : List RelocatedFunction) :
    ∀ (spot : Nat) (placed : List RelocatedFunction) (code : Bytes),
      placeFunctions elf fs spot = .ok (placed, code) →
      placed.map RelocatedFunction.unplaced = fs.map RelocatedFunction.unplaced := by
  induction fs with
  | nil =>
      intro spot placed code h
      simp only [placeFunctions, Except.ok.injEq, Prod.mk.injEq] at h
      rw [← h.1]
  | cons rf rfs ih =>
      intro spot placed code h
      rcases placeFunctions_cons elf rf rfs spot placed code h with ⟨rest, hrest, hplaced, -⟩
      rw [hplaced, List.map_cons, List.map_cons, ih _ rest.1 rest.2 hrest]
      rfl

theorem symbolsFrom_subset (n : Nat) : ∀ m off, n ≤ m →
    symbolsFrom elf n off ⊆ symbolsFrom elf m off := by
  induction n with
  | zero => exact fun m off _ => List.nil_subset _
  | succ n ih =>
      intro m off hle
      cases m with
      | zero => exact absurd hle (Nat.not_succ_le_zero n)
      | succ m =>
          exact List.cons_subset_cons _ (ih m (off + sizeofSym) (Nat.le_of_succ_le_succ hle))

/-- Kept in an `int`, a size is no larger than it was, or negative. -/
theorem intAsSize_le (n : Nat) : intAsSize n ≤ n ∨ 2 ^ 63 + sizeofSym ≤ intAsSize n := by
  unfold intAsSize sizeofSym
  split
  · exact .inl (Nat.mod_le n (2 ^ 32))
  · exact .inr (by omega)

variable (main : Option Bytes) (layout : Layout) (h : parseElf elf main = .ok layout)

include h

/-- The loop over the symbols goes no further than the table does. -/
theorem parseElf_loaded (hsize : elf.length < 2 ^ 63) (t : Tables) (ht : tables elf = some t) :
    t.loaded elf ⊆ t.functions elf := by
  rcases parseElf_stages elf main layout h with ⟨-, t', found, ht', -, hfound, -⟩
  rw [ht, Option.some.injEq] at ht'
  rw [← ht'] at hfound
  have hle : intAsSize t.symtab.size / sizeofSym ≤ t.symtab.size / sizeofSym := by
    rcases intAsSize_le t.symtab.size with hle | hlarge
    · exact Nat.div_le_div_right hle
    -- A negative size would take the loop out of the file.
    · have hinside := collectFunctions_inside elf t.sections t.strtab main _ _ _ _ found hfound
      unfold sizeofSym at hinside hlarge
      omega
  intro sym hsym
  have hmem := List.mem_filter.mp hsym
  exact List.mem_filter.mpr ⟨symbolsFrom_subset elf _ _ t.symtab.offset hle hmem.1, hmem.2⟩

/-- Each function that is laid out is in the file, and has a copy in the linked
    program. -/
theorem parseElf_copies (f : RelocatedFunction) (hf : f ∈ layout.functions) :
    f.nativeData + f.size ≤ elf.length ∧
      (layout.code.drop f.linkedData).take f.size = (elf.drop f.nativeData).take f.size := by
  rcases parseElf_laidOut elf main layout h with ⟨t, code, -, -, -, hplace, hprefix⟩
  rcases placeFunctions_copies elf _ 0 layout.functions code hplace f hf with ⟨-, hin, hend, hcopy⟩
  refine ⟨hin, ?_⟩
  -- What is behind the copies is not looked at.
  rw [Nat.sub_zero] at hend hcopy
  rcases hprefix with ⟨pad, hpad⟩
  rw [← hpad, List.drop_append_of_le_length (by omega), List.take_append_of_le_length, hcopy]
  rw [List.length_drop]
  omega

/-- The functions that have a copy are those of `laidOut`. -/
theorem parseElf_functions (t : Tables) (ht : tables elf = some t) :
    layout.functions.map RelocatedFunction.unplaced
      = (t.laidOut elf main).map (relocatedFunction t.sections t.strtab) := by
  rcases parseElf_laidOut elf main layout h with ⟨t', code, ht', -, -, hplace, -⟩
  rw [ht, Option.some.injEq] at ht'
  rw [← ht'] at hplace
  rw [placeFunctions_unplaced elf _ 0 layout.functions code hplace, List.map_map]
  rfl

end Placement

section Search

/-- The test of the search, for a function that does not wrap. -/
theorem findSource_pred_iff (sec : Section) (offset : Nat) (f : RelocatedFunction)
    (hfits : f.nativeSectionStart + f.size < 2 ^ 64) :
    (sec.shdr == f.shdr && decide (f.nativeSectionStart < offset) &&
        decide (offset < (f.nativeSectionStart + f.size) % 2 ^ 64)) = true ↔
      sec.shdr = f.shdr ∧ f.nativeSectionStart < offset ∧
      offset < f.nativeSectionStart + f.size := by
  rw [Nat.mod_eq_of_lt hfits, Bool.and_eq_true, Bool.and_eq_true, beq_iff_eq, decide_eq_true_iff,
    decide_eq_true_iff, and_assoc]

/-- What a placed function still says of its symbol. -/
theorem unplaced_fields (sections : List Section) (strtab : StrTab) (f : RelocatedFunction)
    (g : Sym) (h : f.unplaced = relocatedFunction sections strtab g) :
    f.nativeSectionStart = g.value ∧ f.size = g.size ∧ g.value ≤ f.nativeData ∧
      ∀ sec, sections[g.shndx]? = some sec → f.shdr = sec.shdr := by
  have hdata : f.nativeData = (sections[g.shndx]?).elim 0 Section.offset + g.value :=
    congrArg RelocatedFunction.nativeData h
  have hshdr : f.shdr = (sections[g.shndx]?).elim 0 Section.shdr :=
    congrArg RelocatedFunction.shdr h
  refine ⟨congrArg RelocatedFunction.nativeSectionStart h, congrArg RelocatedFunction.size h,
    by omega, ?_⟩
  intro sec hsec
  rw [hshdr, hsec, Option.elim_some]

instance symmApart (sections : List Section) : Std.Symm (Apart sections) where
  symm _ _ h shdr hg hf := (h shdr hf hg).symm

variable {buffer : FileBuffer} {main : Option Bytes} {layout : Layout} {t : Tables}
  {relo appliesTo symtab : Section} {j : Nat} {rel : Rel} {sym : Sym}

/-- A function with a copy is that of a symbol, and does not wrap. -/
theorem EntryIn.placed (h : EntryIn buffer main layout t relo appliesTo symtab j rel sym)
    (f : RelocatedFunction) (hf : f ∈ layout.functions) :
    f.nativeSectionStart + f.size < 2 ^ 64 ∧ ∃ g ∈ t.laidOut buffer.bytes main,
      f.unplaced = relocatedFunction t.sections t.strtab g := by
  have hmem : f.unplaced ∈ layout.functions.map RelocatedFunction.unplaced :=
    List.mem_map_of_mem hf
  rw [parseElf_functions buffer.bytes main layout h.parsed t h.tables] at hmem
  rcases List.mem_map.mp hmem with ⟨g, hg, hsame⟩
  refine ⟨?_, g, hg, hsame.symm⟩
  have hin := (parseElf_copies buffer.bytes main layout h.parsed f hf).1
  have hsize := h.size
  rcases unplaced_fields t.sections t.strtab f g hsame.symm with ⟨hstart, -, hdata, -⟩
  omega

/-- Whatever the search finds is the function that holds the offset, and the
    offset is not its first byte. -/
theorem findSource_symbol (h : EntryIn buffer main layout t relo appliesTo symtab j rel sym)
    (hapart : NonOverlapping buffer.bytes t) (f : RelocatedFunction)
    (hfound : findSource layout.functions appliesTo rel.offset = some f) :
    f.unplaced = relocatedFunction t.sections t.strtab sym ∧
      sym ∈ t.laidOut buffer.bytes main ∧ sym.value < rel.offset := by
  have hf := List.mem_of_find?_eq_some hfound
  have htest := List.find?_some (show layout.functions.find? _ = some f from hfound)
  rcases h.placed f hf with ⟨hfits, g, hg, hsame⟩
  rcases (findSource_pred_iff appliesTo rel.offset f hfits).mp htest with ⟨hshdr, habove, hbelow⟩
  rcases unplaced_fields t.sections t.strtab f g hsame with ⟨hstart, hsize, -, hheader⟩
  have hloaded := t.mem_loaded buffer.bytes main g hg
  by_cases heq : g = sym
  · rw [heq] at hsame hg hstart
    exact ⟨hsame, hg, by omega⟩
  -- Two functions that hold the offset would overlap.
  · have hsection : g.InSection t.sections appliesTo.shdr := by
      rcases parseElf_laidOut buffer.bytes main layout h.parsed with ⟨t', -, ht', -, hall, -⟩
      rw [h.tables, Option.some.injEq] at ht'
      rw [← ht'] at hall
      rcases hall g hloaded with ⟨sec, -, hsec, -⟩
      rw [Sym.InSection, hsec, Option.map_some, hshdr, hheader sec hsec]
    have hin := parseElf_loaded buffer.bytes main layout h.parsed h.size t h.tables hloaded
    have hdisjoint := hapart.forall hin h.function.1 heq appliesTo.shdr hsection h.function.2
    have hlower := h.lower
    have hupper := h.upper
    omega

/-- A function that is laid out is found, except at its first byte. -/
theorem findSource_laidOut (h : EntryIn buffer main layout t relo appliesTo symtab j rel sym)
    (hlaid : sym ∈ t.laidOut buffer.bytes main) (hne : rel.offset ≠ sym.value) :
    ∃ f, findSource layout.functions appliesTo rel.offset = some f := by
  have hmem := List.mem_map_of_mem (f := relocatedFunction t.sections t.strtab) hlaid
  rw [← parseElf_functions buffer.bytes main layout h.parsed t h.tables] at hmem
  rcases List.mem_map.mp hmem with ⟨f, hf, hsame⟩
  rcases unplaced_fields t.sections t.strtab f sym hsame with ⟨hstart, hsize, -, hheader⟩
  have hshdr : appliesTo.shdr = f.shdr := by
    rcases Option.map_eq_some_iff.mp h.function.2 with ⟨sec, hsec, hshdr⟩
    rw [hheader sec hsec, hshdr]
  have hlower := h.lower
  have hupper := h.upper
  have hpred := (findSource_pred_iff appliesTo rel.offset f (h.placed f hf).1).mpr
    ⟨hshdr, by omega, by omega⟩
  exact Option.isSome_iff_exists.mp (List.find?_isSome.mpr ⟨f, hf, hpred⟩)

end Search

section Rounds

variable {σ : Type} (buffer : FileBuffer) (layout : Layout)

/-- Once the function is found, an entry can only be rejected for its
    symbol. -/
theorem resolveEntry_found (appliesTo symtab : Section) (rel : Rel) (f : RelocatedFunction)
    (h : findSource layout.functions appliesTo rel.offset = some f) :
    (∃ sym, resolveEntry buffer.bytes layout appliesTo symtab rel = .ok ⟨rel, sym, appliesTo, f⟩) ∨
      ∃ stop, resolveEntry buffer.bytes layout appliesTo symtab rel = .error stop ∧
        stop ≠ .error .relocationOutsideFunctions := by
  unfold resolveEntry
  by_cases hsym : symtab.size / sizeofSym % 2 ^ 32 ≤ rel.sym
  · rw [if_pos hsym]
    exact .inr ⟨_, rfl, by decide⟩
  rw [if_neg hsym]
  unfold parseSym
  by_cases hshort : buffer.bytes.length < symtab.offset + rel.sym * sizeofSym + sizeofSym
  · rw [if_pos hshort]
    exact .inr ⟨_, rfl, by decide⟩
  rw [if_neg hshort]
  simp only [h]
  split
  · exact .inr ⟨_, rfl, by decide⟩
  · exact .inl ⟨_, rfl⟩

theorem checkData_stop (site : RelocSite) (code : Bytes) (stop : Stop)
    (h : checkData layout site code = .error stop) : stop ≠ .error .relocationOutsideFunctions := by
  unfold checkData at h
  split at h
  · rw [← Except.error.inj h]
    decide
  split at h
  · rw [← Except.error.inj h]
    decide
  split at h
  · rw [← Except.error.inj h]
    decide
  split at h
  · rw [← Except.error.inj h]
    decide
  split at h
  · rw [← Except.error.inj h]
    decide
  split at h
  · rw [← Except.error.inj h]
    decide
  split at h
  · rw [← Except.error.inj h]
    decide
  · exact absurd h (by simp only [reduceCtorEq, not_false_eq_true])

theorem relocateData_stop (reloc : DataRelocation σ) (site : RelocSite) (s : LinkState σ) :
    (relocateData reloc buffer layout site s).1 ≠ some (.error .relocationOutsideFunctions) := by
  unfold relocateData
  cases hcheck : checkData layout site s.code with
  | error stop =>
      intro heq
      exact checkData_stop layout site s.code stop hcheck (Option.some.inj heq)
  | ok map =>
      simp only []
      split
      · simp only [ne_eq, Option.some.injEq, reduceCtorEq, not_false_eq_true]
      split
      · simp only [ne_eq, Option.some.injEq, reduceCtorEq, not_false_eq_true]
      split
      · simp only [ne_eq, Option.some.injEq, reduceCtorEq, not_false_eq_true]
      · simp only [ne_eq, reduceCtorEq, not_false_eq_true]

theorem callImm_stop (vm : Vm) (site : RelocSite) (code : Bytes) (stop : Stop)
    (h : localCallImm layout site code = .error stop ∨
      helperCallImm vm buffer layout site = .error stop) :
    stop ≠ .error .relocationOutsideFunctions := by
  rcases h with h | h
  · unfold localCallImm at h
    split at h
    · rw [← Except.error.inj h]
      decide
    simp only at h
    split at h
    · rw [← Except.error.inj h]
      decide
    · exact absurd h (by simp only [reduceCtorEq, not_false_eq_true])
  · unfold helperCallImm at h
    split at h
    · rw [← Except.error.inj h]
      decide
    split at h
    · rw [← Except.error.inj h]
      decide
    · exact absurd h (by simp only [reduceCtorEq, not_false_eq_true])

theorem relocateCall_stop (vm : Vm) (site : RelocSite) (s : LinkState σ) :
    (relocateCall vm buffer layout site s).1 ≠ some (.error .relocationOutsideFunctions) := by
  unfold relocateCall
  split
  · simp only [ne_eq, Option.some.injEq, reduceCtorEq, not_false_eq_true]
  simp only []
  split
  · rename_i stop hstop
    intro heq
    refine callImm_stop buffer layout vm site s.code stop ?_ (Option.some.inj heq)
    split at hstop
    · exact .inl hstop
    · exact .inr hstop
  · simp only [ne_eq, reduceCtorEq, not_false_eq_true]

/-- A data relocation writes what the callback returned. -/
theorem relocateData_writes (reloc : DataRelocation σ) (site : RelocSite) (s s' : LinkState σ)
    (h : relocateData reloc buffer layout site s = (none, s')) :
    ∃ request imm, reloc s.ctx request = some (imm, s'.ctx) ∧
      s'.code = (lddwPatches site.pos imm).foldl applyPatch s.code ∧
      s'.patches = s.patches ++ lddwPatches site.pos imm := by
  unfold relocateData at h
  split at h
  · exact absurd h (by simp only [Prod.mk.injEq, reduceCtorEq, false_and, not_false_eq_true])
  split at h
  · exact absurd h (by simp only [Prod.mk.injEq, reduceCtorEq, false_and, not_false_eq_true])
  split at h
  · exact absurd h (by simp only [Prod.mk.injEq, reduceCtorEq, false_and, not_false_eq_true])
  simp only at h
  split at h
  · exact absurd h (by simp only [Prod.mk.injEq, reduceCtorEq, false_and, not_false_eq_true])
  · next imm ctx hcall =>
      rw [← (Prod.mk.inj h).2]
      exact ⟨_, imm, hcall, rfl, rfl⟩

theorem relocateCall_writes (vm : Vm) (site : RelocSite) (s s' : LinkState σ)
    (h : relocateCall vm buffer layout site s = (none, s')) :
    ∃ imm, s'.code = applyPatch s.code ⟨site.pos + 4, imm⟩ ∧
      s'.patches = s.patches ++ [⟨site.pos + 4, imm⟩] := by
  unfold relocateCall at h
  split at h
  · exact absurd h (by simp only [Prod.mk.injEq, reduceCtorEq, false_and, not_false_eq_true])
  simp only at h
  split at h
  · exact absurd h (by simp only [Prod.mk.injEq, reduceCtorEq, false_and, not_false_eq_true])
  · next imm _ =>
      rw [← (Prod.mk.inj h).2]
      exact ⟨imm, rfl, rfl⟩

variable (appliesTo symtab relo : Section) (j : Nat) (rel : Rel) (f : RelocatedFunction)
  (hrel : parseRel buffer.bytes (relo.offset + j * sizeofRel) = .ok rel)
  (hfound : findSource layout.functions appliesTo rel.offset = some f)

include hrel hfound

/-- A round for an entry whose function is found does not stop for want of
    one. -/
theorem relocateEntry_stop (reloc : DataRelocation σ) (vm : Vm) (s : LinkState σ) :
    (relocateEntry reloc vm buffer layout appliesTo symtab relo j s).1
      ≠ some (.error .relocationOutsideFunctions) := by
  unfold relocateEntry
  simp only [hrel]
  rcases resolveEntry_found buffer layout appliesTo symtab rel f hfound with
    ⟨sym, hsite⟩ | ⟨stop, hstop, hne⟩
  · simp only [hsite]
    by_cases hdata : rel.type = rBpf64x64
    · rw [if_pos hdata]
      exact relocateData_stop buffer layout reloc _ s
    rw [if_neg hdata]
    by_cases hcall : rel.type = rBpf64x32
    · rw [if_pos hcall]
      exact relocateCall_stop buffer layout vm _ s
    · rw [if_neg hcall]
      simp only [ne_eq, reduceCtorEq, not_false_eq_true]
  · simp only [hstop]
    intro heq
    exact hne (Option.some.inj heq)

/-- What such a round writes are the immediates of the instruction in the copy
    of the function. -/
theorem relocateEntry_writes (reloc : DataRelocation σ) (vm : Vm) (s s' : LinkState σ)
    (h : relocateEntry reloc vm buffer layout appliesTo symtab relo j s = (none, s')) :
    ∃ patches, s'.code = patches.foldl applyPatch s.code ∧ s'.patches = s.patches ++ patches ∧
      patches.map Patch.offset
        = immediatesAt rel.type (f.linkedData + (rel.offset - f.nativeSectionStart)) ∧
      (rel.type = rBpf64x64 → ∃ request imm, reloc s.ctx request = some (imm, s'.ctx) ∧
        patches = lddwPatches (f.linkedData + (rel.offset - f.nativeSectionStart)) imm) := by
  unfold relocateEntry at h
  simp only [hrel] at h
  rcases resolveEntry_found buffer layout appliesTo symtab rel f hfound with
    ⟨sym, hsite⟩ | ⟨stop, hstop, -⟩
  · simp only [hsite] at h
    by_cases hdata : rel.type = rBpf64x64
    · rw [if_pos hdata] at h
      rcases relocateData_writes buffer layout reloc _ s s' h with
        ⟨request, imm, hcall, hcode, hpatches⟩
      refine ⟨_, hcode, hpatches, ?_, fun _ => ⟨request, imm, hcall, rfl⟩⟩
      rw [immediatesAt, if_pos hdata]
      rfl
    rw [if_neg hdata] at h
    by_cases hcall : rel.type = rBpf64x32
    · rw [if_pos hcall] at h
      rcases relocateCall_writes buffer layout vm _ s s' h with ⟨imm, hcode, hpatches⟩
      refine ⟨[_], hcode, hpatches, ?_, fun htype => absurd htype hdata⟩
      rw [immediatesAt, if_neg hdata, if_pos hcall]
      rfl
    -- An entry of another type is skipped.
    · rw [if_neg hcall] at h
      rw [← (Prod.mk.inj h).2]
      refine ⟨[], rfl, (List.append_nil _).symm, ?_, fun htype => absurd htype hdata⟩
      rw [immediatesAt, if_neg hdata, if_neg hcall]
      rfl
  · simp only [hstop, Prod.mk.injEq, reduceCtorEq, false_and] at h

end Rounds

/-- An entry in the range of a function is attributed to it exactly if the
    function is laid out and the entry is not on its first byte. Any other
    entry is found in no function at all. -/
theorem attribution_iff (buffer : FileBuffer) (main : Option Bytes) (layout : Layout) (t : Tables)
    (relo appliesTo symtab : Section) (j : Nat) (rel : Rel) (sym : Sym)
    (h : EntryIn buffer main layout t relo appliesTo symtab j rel sym)
    (hapart : NonOverlapping buffer.bytes t) :
    ((∃ f, AttributedTo buffer layout t relo appliesTo symtab j rel sym f) ↔
      rel.offset ≠ sym.value ∧ sym ∈ t.laidOut buffer.bytes main) ∧
    (¬ (rel.offset ≠ sym.value ∧ sym ∈ t.laidOut buffer.bytes main) →
      findSource layout.functions appliesTo rel.offset = none) := by
  have hsearch : ∀ f, findSource layout.functions appliesTo rel.offset = some f →
      f.unplaced = relocatedFunction t.sections t.strtab sym ∧
        (rel.offset ≠ sym.value ∧ sym ∈ t.laidOut buffer.bytes main) := by
    intro f hfound
    rcases findSource_symbol h hapart f hfound with ⟨hsame, hlaid, hlt⟩
    exact ⟨hsame, Nat.ne_of_gt hlt, hlaid⟩
  refine ⟨⟨?_, ?_⟩, ?_⟩
  · rintro ⟨f, hattributed⟩
    exact (hsearch f hattributed.found).2
  · rintro ⟨hne, hlaid⟩
    rcases findSource_laidOut h hlaid hne with ⟨f, hfound⟩
    have hf := List.mem_of_find?_eq_some hfound
    exact ⟨f, hfound, (hsearch f hfound).1,
      (parseElf_copies buffer.bytes main layout h.parsed f hf).2,
      relocateEntry_writes buffer layout appliesTo symtab relo j rel f h.entry.2 hfound,
      relocateEntry_stop buffer layout appliesTo symtab relo j rel f h.entry.2 hfound⟩
  · intro hnot
    cases hfound : findSource layout.functions appliesTo rel.offset with
    | none => rfl
    | some f => exact absurd (hsearch f hfound).2 hnot

section Sample

/-- The code of a `main` that loads the address of a map, after some other
    instructions, and returns. -/
def leadText (lead : Bytes) : Bytes :=
  lead ++ [0x18, 1, 0, 0, 0, 0, 0, 0, 0, 0, 0, 0, 0, 0, 0, 0] ++ [0x95, 0, 0, 0, 0, 0, 0, 0]

/-- An object with that code and a hash map. -/
def leadObject (lead : Bytes) : Bytes :=
  let size := (leadText lead).length
  elfHeader 5 ++ sectionHeader shtStrtab 0 384 8 0 0 ++ sectionHeader shtSymtab 0 392 48 0 0 ++
    sectionHeader shtProgbits (shfAlloc + shfExecinstr) 440 size 0 0 ++
    sectionHeader shtProgbits (shfAlloc + shfWrite) (440 + size) 28 0 0 ++
    sectionHeader shtRel 0 (468 + size) 16 1 2 ++
    ([0] ++ mainName ++ [0, 0x6d, 0]) ++ symbol 1 2 2 0 size ++ symbol 6 1 3 0 28 ++
    leadText lead ++ sampleHash ++ (toLE 8 lead.length ++ toLE 8 (2 ^ 32 + 1))

def leadSymtab : Section := ⟨128, 0, shtSymtab, 0, 392, 48, 0, 0⟩

def leadSection (lead : Bytes) : Section :=
  ⟨192, 0, shtProgbits, shfAlloc + shfExecinstr, 440, (leadText lead).length, 0, 0⟩

def leadRelocations (lead : Bytes) : Section :=
  ⟨320, 0, shtRel, 0, 468 + (leadText lead).length, 16, 1, 2⟩

def leadFunction (lead : Bytes) : RelocatedFunction :=
  ⟨385, 192, 440, 0, (leadText lead).length, 0, 0⟩

/-- The symbol of `main`. -/
def leadMain (lead : Bytes) : Sym :=
  ⟨1, 2, 2, 0, (leadText lead).length⟩

/-- The object after the first half of the load. -/
def leadLayout (lead : Bytes) : Layout where
  sections := [⟨64, 0, shtStrtab, 0, 384, 8, 0, 0⟩, leadSymtab, leadSection lead,
    ⟨256, 0, shtProgbits, shfAlloc + shfWrite, 440 + (leadText lead).length, 28, 0, 0⟩,
    leadRelocations lead]
  strtab := ⟨384, 8⟩
  functions := [leadFunction lead]
  code := leadText lead

/-- The tables of the object. -/
def leadTables (lead : Bytes) : Tables where
  sections := (leadLayout lead).sections
  strtab := ⟨384, 8⟩
  symtab := leadSymtab

/-- The entry of the object is in the range of its function. -/
theorem leadObject_entryIn (lead : Bytes)
    (hparsed : parseElf (sampleBuffer (leadObject lead)).bytes (some mainName)
      = .ok (leadLayout lead))
    (htables : tables (sampleBuffer (leadObject lead)).bytes = some (leadTables lead))
    (hrel : parseRel (sampleBuffer (leadObject lead)).bytes (leadRelocations lead).offset
      = .ok ⟨lead.length, 1, 1⟩)
    (hsize : (sampleBuffer (leadObject lead)).bytes.length < 2 ^ 63)
    (hmain : (leadTables lead).functions (sampleBuffer (leadObject lead)).bytes
      = [leadMain lead]) :
    EntryIn (sampleBuffer (leadObject lead)) (some mainName) (leadLayout lead) (leadTables lead)
      (leadRelocations lead) (leadSection lead) leadSymtab 0 ⟨lead.length, 1, 1⟩
      (leadMain lead) := by
  have hone : 0 < (leadRelocations lead).size / sizeofRel := by
    rw [show (leadRelocations lead).size = sizeofRel from rfl]
    exact Nat.div_pos le_rfl (by decide)
  refine ⟨hsize, hparsed, htables, ⟨by simp only [leadLayout, List.mem_cons, true_or, or_true], rfl⟩,
    ⟨rfl, rfl⟩, rfl, ⟨hone, hrel⟩, ⟨?_, rfl⟩, Nat.zero_le _, ?_⟩
  · rw [hmain]
    exact List.mem_singleton_self _
  · simp only [leadMain, leadText, List.length_append, List.length_cons, List.length_nil]
    omega

/-- The load of the object. -/
def leadLoad (lead : Bytes) : Option (Loaded BpfMapCtx) :=
  ubpfLoadElfEx (doMapRelocation sampleAllocator) 0x200000 (initUbpfVm .bpfilter)
    BpfMapCtx.empty (sampleBuffer (leadObject lead)) (some mainName)

/-- The object is loaded if an instruction comes first, and both halves of the
    load behind it are written. -/
theorem second_instruction_attributed :
    EntryIn (sampleBuffer (leadObject [0xb7, 0, 0, 0, 0, 0, 0, 0])) (some mainName)
        (leadLayout [0xb7, 0, 0, 0, 0, 0, 0, 0]) (leadTables [0xb7, 0, 0, 0, 0, 0, 0, 0])
        (leadRelocations [0xb7, 0, 0, 0, 0, 0, 0, 0]) (leadSection [0xb7, 0, 0, 0, 0, 0, 0, 0])
        leadSymtab 0 ⟨8, 1, 1⟩ (leadMain [0xb7, 0, 0, 0, 0, 0, 0, 0]) ∧
      (∃ f, AttributedTo (sampleBuffer (leadObject [0xb7, 0, 0, 0, 0, 0, 0, 0]))
        (leadLayout [0xb7, 0, 0, 0, 0, 0, 0, 0]) (leadTables [0xb7, 0, 0, 0, 0, 0, 0, 0])
        (leadRelocations [0xb7, 0, 0, 0, 0, 0, 0, 0]) (leadSection [0xb7, 0, 0, 0, 0, 0, 0, 0])
        leadSymtab 0 ⟨8, 1, 1⟩ (leadMain [0xb7, 0, 0, 0, 0, 0, 0, 0]) f) ∧
      (leadLoad [0xb7, 0, 0, 0, 0, 0, 0, 0]).map
          (fun loaded => (loaded.error, loaded.patches.map Patch.offset))
        = some (none, [12, 20]) := by
  have hmain : (leadTables [0xb7, 0, 0, 0, 0, 0, 0, 0]).functions
      (sampleBuffer (leadObject [0xb7, 0, 0, 0, 0, 0, 0, 0])).bytes
        = [leadMain [0xb7, 0, 0, 0, 0, 0, 0, 0]] := by
    decide +kernel
  have hentry := leadObject_entryIn [0xb7, 0, 0, 0, 0, 0, 0, 0] (by decide +kernel)
    (by decide +kernel) (by decide +kernel) (by decide +kernel) hmain
  have hapart : NonOverlapping (sampleBuffer (leadObject [0xb7, 0, 0, 0, 0, 0, 0, 0])).bytes
      (leadTables [0xb7, 0, 0, 0, 0, 0, 0, 0]) := by
    rw [NonOverlapping, hmain]
    exact List.pairwise_singleton _ _
  refine ⟨hentry, ?_, by decide +kernel⟩
  exact (attribution_iff _ _ _ _ _ _ _ _ _ _ hentry hapart).1.mpr ⟨by decide, by decide +kernel⟩

/-- The object is rejected if its first instruction is the one that loads the
    address. -/
theorem first_instruction_rejected :
    EntryIn (sampleBuffer (leadObject [])) (some mainName) (leadLayout []) (leadTables [])
        (leadRelocations []) (leadSection []) leadSymtab 0 ⟨0, 1, 1⟩ (leadMain []) ∧
      NonOverlapping (sampleBuffer (leadObject [])).bytes (leadTables []) ∧
      (leadLoad []).map Loaded.error = some (some .relocationOutsideFunctions) := by
  have hmain : (leadTables []).functions (sampleBuffer (leadObject [])).bytes = [leadMain []] := by
    decide +kernel
  refine ⟨leadObject_entryIn [] (by decide +kernel) (by decide +kernel) (by decide +kernel)
    (by decide +kernel) hmain, ?_, by decide +kernel⟩
  rw [NonOverlapping, hmain]
  exact List.pairwise_singleton _ _

end Sample

end UniBPF
