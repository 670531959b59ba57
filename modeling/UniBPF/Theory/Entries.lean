import UniBPF.Theory.Link

/-!
# The Relocation Entries of an Object

What a relocation pass does to a program is spread over the pass: the requests
it makes and the places it writes to are known when it is over. This module
reads both off the object instead. `entries` lists the relocation entries in
the order the loader takes them, `references` the symbols that double-word
loads refer to, and `writes` the places of the immediates; none of them runs
the loader or its callback.

A pass that comes to its end has gone through exactly these entries
(`covers_relocateSections`). The request of a double-word load also holds the
immediate found in the program, which earlier entries may have written, so
requests are compared without it.

## Main definitions

* `entries`: The relocation entries of an object, in the loader's order.
* `Reference`, `references`: The double-word loads that refer to symbols.
* `RelocSite.writes`, `writes`: Where immediates are written.
* `Covers`: A part of the pass goes through these entries.

## Theorems

* `covers_untilStop`: Loops go through the entries of their rounds.
* `covers_relocateSections`: The pass goes through the entries of the object.
* `ubpfLoadElfEx_references`: The calls and immediates of a load that
  succeeds.
-/

namespace UniBPF

open LittleEndian

variable {σ : Type}

/-- The entry at an index of a relocation section. -/
def entryAt (elf : Bytes) (layout : Layout) (appliesTo symtab relo : Section) (j : Nat) :
    Option RelocSite :=
  match parseRel elf (relo.offset + j * sizeofRel) with
  | .error _ => none
  | .ok rel => (resolveEntry elf layout appliesTo symtab rel).toOption

/-- The entries of a section, unless it holds none or they are about data. -/
def sectionEntries (elf : Bytes) (layout : Layout) (relo : Section) : List RelocSite :=
  if relo.type ≠ shtRel then []
  else
    match layout.sections[relo.info]?, layout.sections[relo.link]? with
    | some appliesTo, some symtab =>
      if appliesTo.isExec then
        (List.range (relo.size / sizeofRel)).filterMap (entryAt elf layout appliesTo symtab relo)
      else []
    | _, _ => []

/-- The relocation entries of an object, in the loader's order. -/
def entries (elf : Bytes) (layout : Layout) : List RelocSite :=
  layout.sections.flatMap (sectionEntries elf layout)

/-- A double-word load that refers to a symbol: where it is in the linked
    program, and the request its entry makes, with a zero for the immediate. -/
structure Reference where
  pos : Nat
  request : RelocRequest

def RelocSite.reference (buffer : FileBuffer) (layout : Layout) (site : RelocSite) :
    Option Reference :=
  if site.rel.type = rBpf64x64 then
    match layout.sections[site.sym.shndx]?,
        cString buffer.bytes (layout.strtab.offset + site.sym.name) with
    | some map, some name =>
      some ⟨site.pos, { dataRequest buffer map name site layout.code with imm := 0 }⟩
    | _, _ => none
  else none

/-- The places of the immediates an entry is about. -/
def RelocSite.writes (site : RelocSite) : List Nat :=
  if site.rel.type = rBpf64x64 then [site.pos + 4, site.pos + 12]
  else if site.rel.type = rBpf64x32 then [site.pos + 4]
  else []

/-- The double-word loads of an object that refer to symbols. -/
def references (buffer : FileBuffer) (main : Option Bytes) : List Reference :=
  match parseElf buffer.bytes main with
  | .error _ => []
  | .ok layout => (entries buffer.bytes layout).filterMap (RelocSite.reference buffer layout)

/-- The places of all the immediates a load of an object writes. -/
def writes (buffer : FileBuffer) (main : Option Bytes) : List Nat :=
  match parseElf buffer.bytes main with
  | .error _ => []
  | .ok layout => (entries buffer.bytes layout).flatMap RelocSite.writes

/-- A call, as the reference it was made for. -/
def RelocCall.reference (c : RelocCall) : Reference :=
  ⟨c.pos, { c.request with imm := 0 }⟩

section Covers

variable (buffer : FileBuffer) (layout : Layout)

/-- When this part of the pass comes to its end, it has gone through these
    entries. -/
def Covers (f : LinkState σ → Option Stop × LinkState σ) (sites : List RelocSite) : Prop :=
  ∀ s s', f s = (none, s') → ∃ calls patches, s'.calls = s.calls ++ calls ∧
    s'.patches = s.patches ++ patches ∧
    calls.map RelocCall.reference = sites.filterMap (RelocSite.reference buffer layout) ∧
    patches.map Patch.offset = sites.flatMap RelocSite.writes

/-- A part that leaves everything as it is goes through no entry. -/
theorem covers_idle (f : LinkState σ → Option Stop × LinkState σ)
    (h : ∀ s s', f s = (none, s') → s' = s) : Covers buffer layout f [] := by
  intro s s' hs
  rw [h s s' hs]
  exact ⟨[], [], (List.append_nil _).symm, (List.append_nil _).symm, rfl, rfl⟩

/-- A part that never comes to its end goes through whatever one likes. -/
theorem covers_stopped (f : LinkState σ → Option Stop × LinkState σ) (sites : List RelocSite)
    (stop : Stop) (h : ∀ s, (f s).1 = some stop) : Covers buffer layout f sites := by
  intro s s' hs
  have hstop := h s
  rw [hs] at hstop
  exact absurd hstop (by simp only [reduceCtorEq, not_false_eq_true])

/-- Loops go through the entries of their rounds. -/
theorem covers_untilStop {α : Type} (f : α → LinkState σ → Option Stop × LinkState σ)
    (g : α → List RelocSite) (h : ∀ x, Covers buffer layout (f x) (g x)) (xs : List α) :
    Covers buffer layout (untilStop f xs) (xs.flatMap g) := by
  induction xs with
  | nil =>
      apply covers_idle
      intro s s' hs
      exact (congrArg Prod.snd hs).symm
  | cons x xs ih =>
      intro s s' hs
      simp only [untilStop] at hs
      cases hround : f x s with
      | mk stop mid =>
          rw [hround] at hs
          cases stop with
          | some stop => exact absurd hs (by simp only [Prod.mk.injEq, reduceCtorEq, false_and,
              not_false_eq_true])
          | none =>
              -- The records of the round come first, then those of the rest.
              rcases h x s mid hround with ⟨calls, patches, hcalls, hpatches, hrefs, hoffs⟩
              rcases ih mid s' hs with ⟨calls', patches', hcalls', hpatches', hrefs', hoffs'⟩
              refine ⟨calls ++ calls', patches ++ patches', ?_, ?_, ?_, ?_⟩
              · rw [hcalls', hcalls, List.append_assoc]
              · rw [hpatches', hpatches, List.append_assoc]
              · rw [List.map_append, hrefs, hrefs', List.flatMap_cons, List.filterMap_append]
              · rw [List.map_append, hoffs, hoffs', List.flatMap_cons, List.flatMap_append]

/-- The section of a symbol that passes the checks. -/
theorem checkData_section (site : RelocSite) (code : Bytes) (map : Section)
    (h : checkData layout site code = .ok map) : layout.sections[site.sym.shndx]? = some map := by
  unfold checkData at h
  split at h
  · exact absurd h (by simp only [reduceCtorEq, not_false_eq_true])
  split at h
  · exact absurd h (by simp only [reduceCtorEq, not_false_eq_true])
  cases hmap : layout.sections[site.sym.shndx]? with
  | none =>
      rw [hmap] at h
      exact absurd h (by simp only [reduceCtorEq, not_false_eq_true])
  | some found =>
      simp only [hmap] at h
      split at h
      · exact absurd h (by simp only [reduceCtorEq, not_false_eq_true])
      split at h
      · exact absurd h (by simp only [reduceCtorEq, not_false_eq_true])
      split at h
      · exact absurd h (by simp only [reduceCtorEq, not_false_eq_true])
      split at h
      · exact absurd h (by simp only [reduceCtorEq, not_false_eq_true])
      · rw [Except.ok.injEq] at h
        rw [h]

theorem covers_relocateData (reloc : DataRelocation σ) (site : RelocSite)
    (htype : site.rel.type = rBpf64x64) :
    Covers buffer layout (relocateData reloc buffer layout site) [site] := by
  intro s s' hs
  unfold relocateData at hs
  cases hcheck : checkData layout site s.code with
  | error stop =>
      simp only [hcheck, Prod.mk.injEq, reduceCtorEq, false_and] at hs
  | ok map =>
      have hsec := checkData_section layout site s.code map hcheck
      simp only [hcheck] at hs
      by_cases hshort : s.code.length < site.pos + 16
      · simp only [if_pos hshort, Prod.mk.injEq, reduceCtorEq, false_and] at hs
      rw [if_neg hshort] at hs
      cases hname : cString buffer.bytes (layout.strtab.offset + site.sym.name) with
      | none => simp only [hname, Prod.mk.injEq, reduceCtorEq, false_and] at hs
      | some name =>
          simp only [hname] at hs
          cases hcall : reloc s.ctx (dataRequest buffer map name site s.code) with
          | none => simp only [hcall, Prod.mk.injEq, reduceCtorEq, false_and] at hs
          | some answer =>
              rcases answer with ⟨imm, ctx'⟩
              simp only [hcall, Prod.mk.injEq, true_and] at hs
              rw [← hs]
              refine ⟨[⟨dataRequest buffer map name site s.code, site.pos, imm⟩],
                lddwPatches site.pos imm, rfl, rfl, ?_, ?_⟩
              -- Without the immediate the request says nothing of the program so far.
              · simp only [List.filterMap_cons, List.filterMap_nil, RelocSite.reference,
                  if_pos htype, hsec, hname]
                rfl
              · simp only [List.flatMap_cons, List.flatMap_nil, RelocSite.writes, if_pos htype]
                rfl

theorem covers_relocateCall (vm : Vm) (site : RelocSite) (hnot : site.rel.type ≠ rBpf64x64)
    (htype : site.rel.type = rBpf64x32) :
    @Covers σ buffer layout (relocateCall vm buffer layout site) [site] := by
  intro s s' hs
  unfold relocateCall at hs
  by_cases hshort : s.code.length < site.pos + 8
  · simp only [if_pos hshort, Prod.mk.injEq, reduceCtorEq, false_and] at hs
  rw [if_neg hshort] at hs
  simp only at hs
  generalize (if readLE s.code (site.pos + 1) 1 / 16 = 1 then localCallImm layout site s.code
    else helperCallImm vm buffer layout site) = answer at hs
  cases answer with
  | error stop => simp only [Prod.mk.injEq, reduceCtorEq, false_and] at hs
  | ok imm =>
      simp only [Prod.mk.injEq, true_and] at hs
      rw [← hs]
      refine ⟨[], [⟨site.pos + 4, imm⟩], (List.append_nil _).symm, rfl, ?_, ?_⟩
      · simp only [List.filterMap_cons, List.filterMap_nil, RelocSite.reference, if_neg hnot]
        rfl
      · simp only [List.flatMap_cons, List.flatMap_nil, RelocSite.writes, if_neg hnot,
          if_pos htype]
        rfl

/-- An entry that is resolved keeps its type and its offset. -/
theorem resolveEntry_rel (elf : Bytes) (appliesTo symtab : Section) (rel : Rel) (site : RelocSite)
    (h : resolveEntry elf layout appliesTo symtab rel = .ok site) : site.rel = rel := by
  unfold resolveEntry at h
  split at h
  · exact absurd h (by simp only [reduceCtorEq, not_false_eq_true])
  split at h
  · exact absurd h (by simp only [reduceCtorEq, not_false_eq_true])
  split at h
  · exact absurd h (by simp only [reduceCtorEq, not_false_eq_true])
  split at h
  · exact absurd h (by simp only [reduceCtorEq, not_false_eq_true])
  · rw [Except.ok.injEq] at h
    rw [← h]

theorem covers_relocateEntry (reloc : DataRelocation σ) (vm : Vm)
    (appliesTo symtab relo : Section) (j : Nat) :
    Covers buffer layout (relocateEntry reloc vm buffer layout appliesTo symtab relo j)
      (entryAt buffer.bytes layout appliesTo symtab relo j).toList := by
  unfold relocateEntry entryAt
  cases parseRel buffer.bytes (relo.offset + j * sizeofRel) with
  | error stop => exact covers_stopped buffer layout _ _ stop (fun _ => rfl)
  | ok rel =>
      simp only []
      cases hsite : resolveEntry buffer.bytes layout appliesTo symtab rel with
      | error stop => exact covers_stopped buffer layout _ _ stop (fun _ => rfl)
      | ok site =>
          have hrel := resolveEntry_rel layout buffer.bytes appliesTo symtab rel site hsite
          simp only [Except.toOption, Option.toList_some]
          by_cases hdata : rel.type = rBpf64x64
          · simp only [if_pos hdata]
            exact covers_relocateData buffer layout reloc site (by rw [hrel, hdata])
          by_cases hcall : rel.type = rBpf64x32
          · simp only [if_neg hdata, if_pos hcall]
            exact covers_relocateCall buffer layout vm site (by rw [hrel]; exact hdata)
              (by rw [hrel, hcall])
          -- An entry of another type is skipped, and asks for nothing.
          · simp only [if_neg hdata, if_neg hcall]
            intro s s' hs
            rw [← (Prod.mk.inj hs).2]
            rw [← hrel] at hdata hcall
            refine ⟨[], [], (List.append_nil _).symm, (List.append_nil _).symm, ?_, ?_⟩
            · simp only [List.filterMap_cons, List.filterMap_nil, RelocSite.reference, if_neg hdata]
              rfl
            · simp only [List.flatMap_cons, List.flatMap_nil, RelocSite.writes, if_neg hdata,
                if_neg hcall]
              rfl

theorem covers_relocateSection (reloc : DataRelocation σ) (vm : Vm) (relo : Section) :
    Covers buffer layout (relocateSection reloc vm buffer layout relo)
      (sectionEntries buffer.bytes layout relo) := by
  have hidle : @Covers σ buffer layout (fun s => (none, s)) [] :=
    covers_idle buffer layout _ (fun s s' hs => (Prod.mk.inj hs).2.symm)
  unfold relocateSection sectionEntries
  by_cases htype : relo.type ≠ shtRel
  · simp only [if_pos htype]
    exact hidle
  simp only [if_neg htype]
  cases layout.sections[relo.info]? with
  | none => exact covers_stopped buffer layout _ _ .undefined (fun _ => rfl)
  | some appliesTo =>
      simp only []
      cases hexec : appliesTo.isExec with
      | false =>
          -- Entries about data are neither applied nor listed.
          simp only [Bool.not_false, if_true]
          cases layout.sections[relo.link]? with
          | none => exact hidle
          | some symtab =>
              simp only [hexec, Bool.false_eq_true, if_false]
              exact hidle
      | true =>
          simp only [Bool.not_true, Bool.false_eq_true, if_false]
          by_cases hlink : relo.link < 2 ^ 31 ∧ layout.sections.length ≤ relo.link
          · simp only [if_pos hlink]
            exact covers_stopped buffer layout _ _ _ (fun _ => rfl)
          simp only [if_neg hlink]
          cases layout.sections[relo.link]? with
          | none => exact covers_stopped buffer layout _ _ .undefined (fun _ => rfl)
          | some symtab =>
              simp only [hexec, if_true, List.filterMap_eq_flatMap_toList]
              exact covers_untilStop buffer layout _ _
                (covers_relocateEntry buffer layout reloc vm appliesTo symtab relo) _

/-- The pass goes through the entries of the object. -/
theorem covers_relocateSections (reloc : DataRelocation σ) (vm : Vm) (ctx : σ) (s : LinkState σ)
    (h : relocateSections reloc vm buffer layout ctx = (none, s)) :
    s.calls.map RelocCall.reference
        = (entries buffer.bytes layout).filterMap (RelocSite.reference buffer layout) ∧
      s.patches.map Patch.offset = (entries buffer.bytes layout).flatMap RelocSite.writes := by
  have hloop := covers_untilStop buffer layout (relocateSection reloc vm buffer layout) _
    (covers_relocateSection buffer layout reloc vm) layout.sections
  rcases hloop _ s h with ⟨calls, patches, hcalls, hpatches, hrefs, hoffs⟩
  rw [hcalls, hpatches]
  exact ⟨hrefs, hoffs⟩

end Covers

/-- The calls of a load that succeeds were made for the references of its
    object, and its immediates are where the entries are. -/
theorem ubpfLoadElfEx_references (reloc : DataRelocation σ) (base : Addr) (vm : Vm) (ctx : σ)
    (buffer : FileBuffer) (main : Option Bytes) (loaded : Loaded σ)
    (h : ubpfLoadElfEx reloc base vm ctx buffer main = some loaded) (hok : loaded.error = none) :
    loaded.calls.map RelocCall.reference = references buffer main ∧
      loaded.patches.map Patch.offset = writes buffer main := by
  rcases ubpfLoadElfEx_success reloc base vm ctx buffer main loaded h hok with
    ⟨layout, s, hparse, hpass, -, hcalls, hpatches, -, -⟩
  rw [references, writes, hparse, hcalls, hpatches]
  exact covers_relocateSections buffer layout reloc vm ctx s hpass

end UniBPF
