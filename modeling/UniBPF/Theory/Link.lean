import UniBPF.Core.Loader
import UniBPF.Theory.Machine

/-!
# The Load and Its Callback

What a load does to the context of its relocation callback, to the linked
program and to the machine.

The two records of the relocation pass say everything about it. The context
is where the recorded calls lead, and the linked program is the layout with
the recorded immediates written into it in order. `Linked` is that invariant;
it holds of every state of the pass, so also where the pass stops early
(`linked_relocateSections`).

The machine comes in only at the end (`ubpfLoadElfEx_cases`), and the
relocation pass asks it for nothing but the indices of its helpers. So the
linked program is a function of the object, the helpers and the values the
callback returned. `replay` is a callback that knows nothing but such a list
of values, and `relocateSections_replay` runs the pass on it.

## Main definitions

* `CallsFrom`: A list of calls of the callback, one after another.
* `Linked`: The invariant of the relocation pass.
* `replay`: The callback that returns a given list of values.
* `ReplayedBy`: One function on the state of the pass follows another on the
  values the other one's calls returned.

## Theorems

* `untilStop_inv`: An invariant of the rounds of a loop.
* `linked_relocateSections`: The records describe the pass.
* `ubpfLoadElfEx_cases`: The ways a load ends.
* `ubpfLoadElfEx_calls`: The context after a load is where its calls lead.
* `relocateSections_replay`: The pass depends on the returned values only.
* `ubpfLoadElfEx_twin`: And so does the loaded program.
-/

namespace UniBPF

open LittleEndian

variable {σ : Type}

/-- Calls of the callback, one after another, from one context to another. -/
def CallsFrom (reloc : DataRelocation σ) : σ → List RelocCall → σ → Prop
  | ctx, [], ctx' => ctx' = ctx
  | ctx, c :: cs, ctx' => ∃ mid, reloc ctx c.request = some (c.result, mid) ∧
      CallsFrom reloc mid cs ctx'

theorem callsFrom_append (reloc : DataRelocation σ) (cs ds : List RelocCall) :
    ∀ ctx mid ctx', CallsFrom reloc ctx cs mid → CallsFrom reloc mid ds ctx' →
      CallsFrom reloc ctx (cs ++ ds) ctx' := by
  induction cs with
  | nil =>
      intro ctx mid ctx' hcs hds
      have hmid : mid = ctx := hcs
      rw [← hmid, List.nil_append]
      exact hds
  | cons c cs ih =>
      intro ctx mid ctx' hcs hds
      rcases hcs with ⟨next, hcall, hrest⟩
      exact ⟨next, hcall, ih next mid ctx' hrest hds⟩

/-- An invariant of the rounds of a loop holds where the loop ends. -/
theorem untilStop_inv {α S : Type} (f : α → S → Option Stop × S) (Inv : S → Prop)
    (hf : ∀ x s, Inv s → Inv (f x s).2) : ∀ (xs : List α) (s : S), Inv s →
      Inv (untilStop f xs s).2 := by
  intro xs
  induction xs with
  | nil => intro s hs; exact hs
  | cons x xs ih =>
      intro s hs
      have hx := hf x s hs
      simp only [untilStop]
      generalize f x s = round at hx ⊢
      rcases round with ⟨stop, s'⟩
      cases stop with
      | none => exact ih s' hx
      | some stop => exact hx

/-- The records of a relocation pass that started from `source` and `ctx`.
    What is patched was a double-word load when it was patched. -/
structure Linked (reloc : DataRelocation σ) (source : Bytes) (ctx : σ) (s : LinkState σ) :
    Prop where
  calls : CallsFrom reloc ctx s.calls s.ctx
  code : s.code = s.patches.foldl applyPatch source
  length : s.code.length = source.length
  within : ∀ p ∈ s.patches, p.offset + 4 ≤ source.length
  inside : ∀ c ∈ s.calls, c.pos + 16 ≤ source.length
  patched : ∀ c ∈ s.calls, ∀ p ∈ lddwPatches c.pos c.result, p ∈ s.patches
  opcode : ∀ c ∈ s.calls, ∃ pre, pre <+: s.patches ∧
    (pre.foldl applyPatch source)[c.pos]? = some 0x18

theorem length_applyPatch (code : Bytes) (p : Patch) (h : p.offset + 4 ≤ code.length) :
    (applyPatch code p).length = code.length :=
  length_writeLE code p.offset 4 p.value h

theorem linked_start (reloc : DataRelocation σ) (code : Bytes) (ctx : σ) :
    Linked reloc code ctx ⟨code, ctx, [], []⟩ :=
  ⟨rfl, rfl, rfl, fun _ h => absurd h List.not_mem_nil, fun _ h => absurd h List.not_mem_nil,
    fun _ h => absurd h List.not_mem_nil, fun _ h => absurd h List.not_mem_nil⟩

/-- The checks before the callback end with a look at the opcode. -/
theorem checkData_opcode (layout : Layout) (site : RelocSite) (code : Bytes) (map : Section)
    (h : checkData layout site code = .ok map) : code[site.pos]? = some 0x18 := by
  unfold checkData at h
  split at h
  · exact absurd h (by simp only [reduceCtorEq, not_false_eq_true])
  · split at h
    · exact absurd h (by simp only [reduceCtorEq, not_false_eq_true])
    · split at h
      · exact absurd h (by simp only [reduceCtorEq, not_false_eq_true])
      · split at h
        · exact absurd h (by simp only [reduceCtorEq, not_false_eq_true])
        · split at h
          · exact absurd h (by simp only [reduceCtorEq, not_false_eq_true])
          · split at h
            · exact absurd h (by simp only [reduceCtorEq, not_false_eq_true])
            · rename_i hop
              simpa only [ne_eq, not_not] using hop

/-- The two immediates of a double-word load fit where the load does. -/
theorem length_lddwPatches (code : Bytes) (pos imm : Nat) (h : pos + 16 ≤ code.length) :
    ((lddwPatches pos imm).foldl applyPatch code).length = code.length := by
  have hfirst := length_applyPatch code ⟨pos + 4, imm⟩ (by simp only; omega)
  have hsecond := length_applyPatch (applyPatch code ⟨pos + 4, imm⟩) ⟨pos + 12, imm / 2 ^ 32⟩
    (by rw [hfirst]; simp only; omega)
  simp only [lddwPatches, List.foldl_cons, List.foldl_nil]
  rw [hsecond, hfirst]

theorem offset_of_mem_lddwPatches (pos imm : Nat) (p : Patch) (h : p ∈ lddwPatches pos imm) :
    p.offset = pos + 4 ∨ p.offset = pos + 12 := by
  simp only [lddwPatches, List.mem_cons, List.not_mem_nil, or_false] at h
  rcases h with h | h
  · exact .inl (congrArg Patch.offset h)
  · exact .inr (congrArg Patch.offset h)

/-- One more call and its two immediates. -/
theorem linked_data (reloc : DataRelocation σ) (code : Bytes) (ctx ctx' : σ) (s : LinkState σ)
    (r : RelocRequest) (pos imm : Nat) (h : Linked reloc code ctx s)
    (hcall : reloc s.ctx r = some (imm, ctx')) (hin : pos + 16 ≤ s.code.length)
    (hop : s.code[pos]? = some 0x18) :
    Linked reloc code ctx
      { code := (lddwPatches pos imm).foldl applyPatch s.code
        ctx := ctx'
        calls := s.calls ++ [⟨r, pos, imm⟩]
        patches := s.patches ++ lddwPatches pos imm } := by
  have hlen := length_lddwPatches s.code pos imm hin
  -- In each record the old entries are as before and the last one is new.
  refine ⟨?_, ?_, ?_, ?_, ?_, ?_, ?_⟩
  · exact callsFrom_append reloc s.calls _ ctx s.ctx ctx' h.calls ⟨ctx', hcall, rfl⟩
  · rw [List.foldl_append, ← h.code]
  · exact hlen.trans h.length
  · intro p hp
    rcases List.mem_append.mp hp with hp | hp
    · exact h.within p hp
    · have hoff := offset_of_mem_lddwPatches pos imm p hp
      rw [← h.length]
      omega
  · intro c hc
    rcases List.mem_append.mp hc with hc | hc
    · exact h.inside c hc
    · rw [List.mem_singleton.mp hc, ← h.length]
      exact hin
  · intro c hc p hp
    rcases List.mem_append.mp hc with hc | hc
    · exact List.mem_append_left _ (h.patched c hc p hp)
    · rw [List.mem_singleton.mp hc] at hp
      exact List.mem_append_right _ hp
  · intro c hc
    rcases List.mem_append.mp hc with hc | hc
    · rcases h.opcode c hc with ⟨pre, hpre, hat⟩
      exact ⟨pre, hpre.trans (List.prefix_append _ _), hat⟩
    -- The opcode was seen before the new immediates were written.
    · rw [List.mem_singleton.mp hc]
      exact ⟨s.patches, List.prefix_append _ _, by rw [← h.code]; exact hop⟩

/-- One more immediate that belongs to no call of the callback. -/
theorem linked_call (reloc : DataRelocation σ) (code : Bytes) (ctx : σ) (s : LinkState σ)
    (p : Patch) (h : Linked reloc code ctx s) (hin : p.offset + 4 ≤ s.code.length) :
    Linked reloc code ctx
      { s with code := applyPatch s.code p, patches := s.patches ++ [p] } := by
  refine ⟨h.calls, ?_, ?_, ?_, h.inside, ?_, ?_⟩
  · rw [List.foldl_append, ← h.code]
    rfl
  · exact (length_applyPatch s.code p hin).trans h.length
  · intro q hq
    rcases List.mem_append.mp hq with hq | hq
    · exact h.within q hq
    · rw [List.mem_singleton.mp hq, ← h.length]
      exact hin
  · intro c hc q hq
    exact List.mem_append_left _ (h.patched c hc q hq)
  · intro c hc
    rcases h.opcode c hc with ⟨pre, hpre, hat⟩
    exact ⟨pre, hpre.trans (List.prefix_append _ _), hat⟩

theorem linked_relocateData (reloc : DataRelocation σ) (buffer : FileBuffer) (layout : Layout)
    (site : RelocSite) (code : Bytes) (ctx : σ) (s : LinkState σ) (h : Linked reloc code ctx s) :
    Linked reloc code ctx (relocateData reloc buffer layout site s).2 := by
  unfold relocateData
  cases hcheck : checkData layout site s.code with
  | error stop => exact h
  | ok map =>
      have hop := checkData_opcode layout site s.code map hcheck
      simp only []
      by_cases hshort : s.code.length < site.pos + 16
      · rw [if_pos hshort]
        exact h
      rw [if_neg hshort]
      cases hname : cString buffer.bytes (layout.strtab.offset + site.sym.name) with
      | none => exact h
      | some name =>
          simp only []
          cases hcall : reloc s.ctx (dataRequest buffer map name site s.code) with
          | none => exact h
          | some answer =>
              rcases answer with ⟨imm, ctx'⟩
              exact linked_data reloc code ctx ctx' s _ site.pos imm h hcall (by omega) hop

theorem linked_relocateCall (reloc : DataRelocation σ) (vm : Vm) (buffer : FileBuffer)
    (layout : Layout) (site : RelocSite) (code : Bytes) (ctx : σ) (s : LinkState σ)
    (h : Linked reloc code ctx s) :
    Linked reloc code ctx (relocateCall vm buffer layout site s).2 := by
  unfold relocateCall
  by_cases hshort : s.code.length < site.pos + 8
  · rw [if_pos hshort]
    exact h
  rw [if_neg hshort]
  simp only []
  -- Whichever call it is, one immediate is written or none.
  generalize (if readLE s.code (site.pos + 1) 1 / 16 = 1 then localCallImm layout site s.code
    else helperCallImm vm buffer layout site) = answer
  cases answer with
  | error stop => exact h
  | ok imm =>
      exact linked_call reloc code ctx s ⟨site.pos + 4, imm⟩ h (by simp only; omega)

theorem linked_relocateEntry (reloc : DataRelocation σ) (vm : Vm) (buffer : FileBuffer)
    (layout : Layout) (appliesTo symtab relo : Section) (code : Bytes) (ctx : σ) (j : Nat)
    (s : LinkState σ) (h : Linked reloc code ctx s) :
    Linked reloc code ctx
      (relocateEntry reloc vm buffer layout appliesTo symtab relo j s).2 := by
  unfold relocateEntry
  cases parseRel buffer.bytes (relo.offset + j * sizeofRel) with
  | error stop => exact h
  | ok rel =>
      simp only []
      cases resolveEntry buffer.bytes layout appliesTo symtab rel with
      | error stop => exact h
      | ok site =>
          simp only []
          by_cases hdata : rel.type = rBpf64x64
          · rw [if_pos hdata]
            exact linked_relocateData reloc buffer layout site code ctx s h
          rw [if_neg hdata]
          by_cases hcall : rel.type = rBpf64x32
          · rw [if_pos hcall]
            exact linked_relocateCall reloc vm buffer layout site code ctx s h
          · rw [if_neg hcall]
            exact h

theorem linked_relocateSection (reloc : DataRelocation σ) (vm : Vm) (buffer : FileBuffer)
    (layout : Layout) (code : Bytes) (ctx : σ) (relo : Section) (s : LinkState σ)
    (h : Linked reloc code ctx s) :
    Linked reloc code ctx (relocateSection reloc vm buffer layout relo s).2 := by
  unfold relocateSection
  by_cases htype : relo.type ≠ shtRel
  · rw [if_pos htype]
    exact h
  rw [if_neg htype]
  cases layout.sections[relo.info]? with
  | none => exact h
  | some appliesTo =>
      simp only []
      split
      · exact h
      · split
        · exact h
        · cases layout.sections[relo.link]? with
          | none => exact h
          | some symtab =>
              exact untilStop_inv _ (Linked reloc code ctx)
                (linked_relocateEntry reloc vm buffer layout appliesTo symtab relo code ctx) _ s h

/-- The records describe the pass, wherever it ends. -/
theorem linked_relocateSections (reloc : DataRelocation σ) (vm : Vm) (buffer : FileBuffer)
    (layout : Layout) (ctx : σ) :
    Linked reloc layout.code ctx (relocateSections reloc vm buffer layout ctx).2 :=
  untilStop_inv _ (Linked reloc layout.code ctx)
    (linked_relocateSection reloc vm buffer layout layout.code ctx) layout.sections _
    (linked_start reloc layout.code ctx)

/-- The ways a load ends: the object is rejected with the machine untouched,
    or the linked program is handed to `ubpf_load`. -/
theorem ubpfLoadElfEx_cases (reloc : DataRelocation σ) (base : Addr) (vm : Vm) (ctx : σ)
    (buffer : FileBuffer) (main : Option Bytes) (loaded : Loaded σ)
    (h : ubpfLoadElfEx reloc base vm ctx buffer main = some loaded) :
    (∃ e, loaded.error = some e ∧ loaded.vm = vm ∧ loaded.ctx = ctx ∧ loaded.calls = [] ∧
        loaded.patches = [] ∧ parseElf buffer.bytes main = .error (.error e)) ∨
    ∃ layout s stop, parseElf buffer.bytes main = .ok layout ∧
      relocateSections reloc vm buffer layout ctx = (stop, s) ∧ loaded.ctx = s.ctx ∧
      loaded.calls = s.calls ∧ loaded.patches = s.patches ∧
      ((∃ e, stop = some (.error e) ∧ loaded.error = some e ∧ loaded.vm = vm) ∨
        stop = none ∧ loaded.error = (ubpfLoad vm base s.code).1 ∧
          loaded.vm = (ubpfLoad vm base s.code).2) := by
  unfold ubpfLoadElfEx at h
  cases hparse : parseElf buffer.bytes main with
  | error stop =>
      rw [hparse] at h
      cases stop with
      | undefined => exact absurd h (by simp only [reduceCtorEq, not_false_eq_true])
      | error e =>
          simp only [Option.some.injEq] at h
          rw [← h]
          exact .inl ⟨e, rfl, rfl, rfl, rfl, rfl, rfl⟩
  | ok layout =>
      simp only [hparse] at h
      cases hpass : relocateSections reloc vm buffer layout ctx with
      | mk stop s =>
          rw [hpass] at h
          cases stop with
          | none =>
              simp only [Option.some.injEq] at h
              rw [← h]
              exact .inr ⟨layout, s, none, rfl, hpass, rfl, rfl, rfl, .inr ⟨rfl, rfl, rfl⟩⟩
          | some stop =>
              cases stop with
              | undefined => exact absurd h (by simp only [reduceCtorEq, not_false_eq_true])
              | error e =>
                  simp only [Option.some.injEq] at h
                  rw [← h]
                  exact .inr ⟨layout, s, _, rfl, hpass, rfl, rfl, rfl, .inl ⟨e, rfl, rfl, rfl⟩⟩

/-- The context after a load is where its calls lead, whether or not the load
    succeeded. -/
theorem ubpfLoadElfEx_calls (reloc : DataRelocation σ) (base : Addr) (vm : Vm) (ctx : σ)
    (buffer : FileBuffer) (main : Option Bytes) (loaded : Loaded σ)
    (h : ubpfLoadElfEx reloc base vm ctx buffer main = some loaded) :
    CallsFrom reloc ctx loaded.calls loaded.ctx := by
  rcases ubpfLoadElfEx_cases reloc base vm ctx buffer main loaded h with
    ⟨e, -, -, hctx, hcalls, -⟩ | ⟨layout, s, stop, -, hpass, hctx, hcalls, -, -⟩
  · rw [hctx, hcalls]
    rfl
  · have hlinked := linked_relocateSections reloc vm buffer layout ctx
    rw [hpass] at hlinked
    rw [hctx, hcalls]
    exact hlinked.calls

/-- A load that succeeds hands its linked program to `ubpf_load`, which takes
    it. -/
theorem ubpfLoadElfEx_success (reloc : DataRelocation σ) (base : Addr) (vm : Vm) (ctx : σ)
    (buffer : FileBuffer) (main : Option Bytes) (loaded : Loaded σ)
    (h : ubpfLoadElfEx reloc base vm ctx buffer main = some loaded) (hok : loaded.error = none) :
    ∃ layout s, parseElf buffer.bytes main = .ok layout ∧
      relocateSections reloc vm buffer layout ctx = (none, s) ∧ loaded.ctx = s.ctx ∧
      loaded.calls = s.calls ∧ loaded.patches = s.patches ∧
      (ubpfLoad vm base s.code).1 = none ∧ loaded.vm = (ubpfLoad vm base s.code).2 := by
  rcases ubpfLoadElfEx_cases reloc base vm ctx buffer main loaded h with
    ⟨e, herror, -⟩ | ⟨layout, s, stop, hparse, hpass, hctx, hcalls, hpatches, hend⟩
  · rw [hok] at herror
    exact absurd herror (by simp only [reduceCtorEq, not_false_eq_true])
  · rcases hend with ⟨e, -, herror, -⟩ | ⟨hstop, herror, hvm⟩
    · rw [hok] at herror
      exact absurd herror (by simp only [reduceCtorEq, not_false_eq_true])
    · rw [hstop] at hpass
      exact ⟨layout, s, hparse, hpass, hctx, hcalls, hpatches, herror.symm.trans hok, hvm⟩

/-- No load touches the setup of the machine or its compiled code. -/
theorem ubpfLoadElfEx_frame (reloc : DataRelocation σ) (base : Addr) (vm : Vm) (ctx : σ)
    (buffer : FileBuffer) (main : Option Bytes) (loaded : Loaded σ)
    (h : ubpfLoadElfEx reloc base vm ctx buffer main = some loaded) :
    SameSetup vm loaded.vm ∧ loaded.vm.jitted = vm.jitted ∧
      loaded.vm.jittedSize = vm.jittedSize := by
  rcases ubpfLoadElfEx_cases reloc base vm ctx buffer main loaded h with
    ⟨e, -, hvm, -⟩ | ⟨layout, s, stop, -, -, -, -, -, ⟨e, -, -, hvm⟩ | ⟨-, -, hvm⟩⟩
  · rw [hvm]
    exact ⟨.refl vm, rfl, rfl⟩
  · rw [hvm]
    exact ⟨.refl vm, rfl, rfl⟩
  · rw [hvm]
    exact ubpfLoad_frame vm base s.code

/-- A callback that returns the values of a list, one after another. -/
def replay : DataRelocation (List Nat)
  | [], _ => none
  | v :: vs, _ => some (v, vs)

/-- A state of the pass with a list of values for its context. -/
def LinkState.onList (s : LinkState σ) (vs : List Nat) : LinkState (List Nat) :=
  ⟨s.code, vs, s.calls, s.patches⟩

/-- `g` does on a list of values what `f` does on its context, when the list
    starts with the values of the calls `f` makes. -/
def ReplayedBy (f : LinkState σ → Option Stop × LinkState σ)
    (g : LinkState (List Nat) → Option Stop × LinkState (List Nat)) : Prop :=
  ∀ s, ∃ new, (f s).2.calls = s.calls ++ new ∧ ((f s).1 ≠ some .undefined → ∀ rest,
    g (s.onList (new.map RelocCall.result ++ rest)) = ((f s).1, (f s).2.onList rest))

/-- A function that does not look at the context and makes no call is replayed
    by its twin. -/
theorem replayedBy_of_noCall (f : LinkState σ → Option Stop × LinkState σ)
    (g : LinkState (List Nat) → Option Stop × LinkState (List Nat))
    (hcalls : ∀ s, (f s).2.calls = s.calls)
    (hg : ∀ s vs, g (s.onList vs) = ((f s).1, (f s).2.onList vs)) : ReplayedBy f g := by
  intro s
  refine ⟨[], by rw [hcalls, List.append_nil], ?_⟩
  intro _ rest
  rw [List.map_nil, List.nil_append]
  exact hg s rest

/-- Loops are replayed round by round. -/
theorem replayedBy_untilStop {α : Type} (f : α → LinkState σ → Option Stop × LinkState σ)
    (g : α → LinkState (List Nat) → Option Stop × LinkState (List Nat))
    (h : ∀ x, ReplayedBy (f x) (g x)) (xs : List α) :
    ReplayedBy (untilStop f xs) (untilStop g xs) := by
  induction xs with
  | nil => exact replayedBy_of_noCall _ _ (fun _ => rfl) (fun _ _ => rfl)
  | cons x xs ih =>
      intro s
      rcases h x s with ⟨new, hcalls, hround⟩
      cases hf : f x s with
      | mk stop s' =>
          rw [hf] at hcalls hround
          simp only [untilStop, hf]
          cases stop with
          | some stop =>
              refine ⟨new, hcalls, ?_⟩
              intro hstop rest
              rw [hround hstop rest]
          | none =>
              -- The values of the rounds still to come are passed through.
              rcases ih s' with ⟨later, hlater, hrest⟩
              refine ⟨new ++ later, by rw [hlater, hcalls, List.append_assoc], ?_⟩
              intro hstop rest
              rw [List.map_append, List.append_assoc, hround (by simp only [ne_eq, reduceCtorEq,
                not_false_eq_true])]
              exact hrest hstop rest

theorem replayedBy_relocateData (reloc : DataRelocation σ) (buffer : FileBuffer) (layout : Layout)
    (site : RelocSite) :
    ReplayedBy (relocateData reloc buffer layout site)
    (relocateData replay buffer layout site) := by
  intro s
  unfold relocateData
  have hcode : ∀ vs, (s.onList vs).code = s.code := fun _ => rfl
  simp only [hcode]
  cases checkData layout site s.code with
  | error stop => exact ⟨[], (List.append_nil _).symm, fun _ _ => rfl⟩
  | ok map =>
      simp only []
      by_cases hshort : s.code.length < site.pos + 16
      · simp only [if_pos hshort]
        exact ⟨[], (List.append_nil _).symm, fun _ _ => rfl⟩
      simp only [if_neg hshort]
      cases cString buffer.bytes (layout.strtab.offset + site.sym.name) with
      | none => exact ⟨[], (List.append_nil _).symm, fun _ _ => rfl⟩
      | some name =>
          simp only []
          cases reloc s.ctx (dataRequest buffer map name site s.code) with
          | none =>
              -- The callback did not return, and neither does the pass.
              exact ⟨[], (List.append_nil _).symm, fun hstop _ => absurd rfl hstop⟩
          | some answer =>
              rcases answer with ⟨imm, ctx'⟩
              exact ⟨[⟨dataRequest buffer map name site s.code, site.pos, imm⟩], rfl,
                fun _ _ => rfl⟩

theorem helperCallImm_congr (vm vm' : Vm) (buffer : FileBuffer) (layout : Layout)
    (site : RelocSite) (h : vm'.extFuncs = vm.extFuncs) :
    helperCallImm vm' buffer layout site = helperCallImm vm buffer layout site := by
  unfold helperCallImm ubpfLookupRegisteredFunction
  rw [h]

theorem replayedBy_relocateCall (vm vm' : Vm) (buffer : FileBuffer) (layout : Layout)
    (site : RelocSite) (h : vm'.extFuncs = vm.extFuncs) :
    @ReplayedBy σ (relocateCall vm buffer layout site)
      (relocateCall vm' buffer layout site) := by
  have hrest : ∀ (s : LinkState σ) (vs : List Nat), (s.onList vs).code = s.code := fun _ _ => rfl
  apply replayedBy_of_noCall
  · intro s
    unfold relocateCall
    split
    · rfl
    · simp only []
      split <;> rfl
  · intro s vs
    unfold relocateCall
    simp only [hrest, helperCallImm_congr vm vm' buffer layout site h]
    by_cases hshort : s.code.length < site.pos + 8
    · simp only [if_pos hshort]
    · simp only [if_neg hshort]
      generalize (if readLE s.code (site.pos + 1) 1 / 16 = 1 then localCallImm layout site s.code
        else helperCallImm vm buffer layout site) = answer
      cases answer <;> rfl

theorem replayedBy_relocateEntry (reloc : DataRelocation σ) (vm vm' : Vm) (buffer : FileBuffer)
    (layout : Layout) (appliesTo symtab relo : Section) (j : Nat)
    (h : vm'.extFuncs = vm.extFuncs) :
    ReplayedBy (relocateEntry reloc vm buffer layout appliesTo symtab relo j)
      (relocateEntry replay vm' buffer layout appliesTo symtab relo j) := by
  unfold relocateEntry
  cases parseRel buffer.bytes (relo.offset + j * sizeofRel) with
  | error stop => exact replayedBy_of_noCall _ _ (fun _ => rfl) (fun _ _ => rfl)
  | ok rel =>
      simp only []
      cases resolveEntry buffer.bytes layout appliesTo symtab rel with
      | error stop => exact replayedBy_of_noCall _ _ (fun _ => rfl) (fun _ _ => rfl)
      | ok site =>
          simp only []
          by_cases hdata : rel.type = rBpf64x64
          · simp only [if_pos hdata]
            exact replayedBy_relocateData reloc buffer layout site
          by_cases hcall : rel.type = rBpf64x32
          · simp only [if_neg hdata, if_pos hcall]
            exact replayedBy_relocateCall vm vm' buffer layout site h
          · simp only [if_neg hdata, if_neg hcall]
            exact replayedBy_of_noCall _ _ (fun _ => rfl) (fun _ _ => rfl)

theorem replayedBy_relocateSection (reloc : DataRelocation σ) (vm vm' : Vm) (buffer : FileBuffer)
    (layout : Layout) (relo : Section) (h : vm'.extFuncs = vm.extFuncs) :
    ReplayedBy (relocateSection reloc vm buffer layout relo)
      (relocateSection replay vm' buffer layout relo) := by
  unfold relocateSection
  by_cases htype : relo.type ≠ shtRel
  · simp only [if_pos htype]
    exact replayedBy_of_noCall _ _ (fun _ => rfl) (fun _ _ => rfl)
  simp only [if_neg htype]
  cases layout.sections[relo.info]? with
  | none => exact replayedBy_of_noCall _ _ (fun _ => rfl) (fun _ _ => rfl)
  | some appliesTo =>
      simp only []
      by_cases hexec : (!appliesTo.isExec) = true
      · simp only [if_pos hexec]
        exact replayedBy_of_noCall _ _ (fun _ => rfl) (fun _ _ => rfl)
      simp only [if_neg hexec]
      by_cases hlink : relo.link < 2 ^ 31 ∧ layout.sections.length ≤ relo.link
      · simp only [if_pos hlink]
        exact replayedBy_of_noCall _ _ (fun _ => rfl) (fun _ _ => rfl)
      simp only [if_neg hlink]
      cases layout.sections[relo.link]? with
      | none => exact replayedBy_of_noCall _ _ (fun _ => rfl) (fun _ _ => rfl)
      | some symtab =>
          exact replayedBy_untilStop _ _ (fun j =>
            replayedBy_relocateEntry reloc vm vm' buffer layout appliesTo symtab relo j h) _

/-- The pass depends on the values the callback returned, and on nothing else
    of its context: the same object and the same helpers give the same linked
    program on the list of these values. -/
theorem relocateSections_replay (reloc : DataRelocation σ) (vm vm' : Vm) (buffer : FileBuffer)
    (layout : Layout) (ctx : σ) (stop : Option Stop) (s : LinkState σ)
    (h : vm'.extFuncs = vm.extFuncs)
    (hpass : relocateSections reloc vm buffer layout ctx = (stop, s))
    (hstop : stop ≠ some .undefined) :
    relocateSections replay vm' buffer layout (s.calls.map RelocCall.result)
      = (stop, s.onList []) := by
  have hloop := replayedBy_untilStop (relocateSection reloc vm buffer layout)
    (relocateSection replay vm' buffer layout)
    (fun relo => replayedBy_relocateSection reloc vm vm' buffer layout relo h) layout.sections
  rcases hloop ⟨layout.code, ctx, [], []⟩ with ⟨new, hcalls, hreplay⟩
  unfold relocateSections at hpass ⊢
  rw [hpass] at hcalls hreplay
  have hnew : s.calls = new := by simpa only [List.nil_append] using hcalls
  have hrun := hreplay hstop []
  rw [List.append_nil, ← hnew] at hrun
  exact hrun

/-- Two loads of one object whose relocations got the same values, into two
    machines of one setup: if the first succeeds, so does the second, and the
    two programs are the same. -/
theorem ubpfLoadElfEx_twin (reloc reloc' : DataRelocation σ) (base base' : Addr) (vm vm' : Vm)
    (ctx ctx' : σ) (buffer : FileBuffer) (main : Option Bytes) (loaded loaded' : Loaded σ)
    (hload : ubpfLoadElfEx reloc base vm ctx buffer main = some loaded)
    (hload' : ubpfLoadElfEx reloc' base' vm' ctx' buffer main = some loaded')
    (hclean : Clean vm) (hclean' : Clean vm') (hsetup : SameSetup vm vm')
    (hempty : vm'.insts = none)
    (hsame : loaded'.calls.map RelocCall.result = loaded.calls.map RelocCall.result)
    (hok : loaded.error = none) :
    loaded'.error = none ∧
      ∃ program, loaded.vm.view = some program ∧ loaded'.vm.view = some program := by
  rcases ubpfLoadElfEx_success reloc base vm ctx buffer main loaded hload hok with
    ⟨layout, s, hparse, hpass, -, hcalls, -, hstore, hvm⟩
  rcases ubpfLoadElfEx_cases reloc' base' vm' ctx' buffer main loaded' hload' with
    ⟨e, -, -, -, -, -, hbad⟩ | ⟨layout', s', stop, hparse', hpass', -, hcalls', -, hend⟩
  · rw [hparse] at hbad
    exact absurd hbad (by simp only [reduceCtorEq, not_false_eq_true])
  have hlayout : layout' = layout := by
    rw [hparse, Except.ok.injEq] at hparse'
    exact hparse'.symm
  rw [hlayout] at hpass'
  have hdefined : stop ≠ some .undefined := by
    rcases hend with ⟨e, hstop, -, -⟩ | ⟨hstop, -, -⟩
    · rw [hstop]
      exact fun h => absurd h (by simp only [Option.some.injEq, reduceCtorEq, not_false_eq_true])
    · rw [hstop]
      exact fun h => absurd h (by simp only [reduceCtorEq, not_false_eq_true])
  -- Both passes are the one on the common list of values.
  have hreplay := relocateSections_replay reloc vm vm buffer layout ctx none s rfl hpass
    (fun h => absurd h (by simp only [reduceCtorEq, not_false_eq_true]))
  have hreplay' := relocateSections_replay reloc' vm' vm buffer layout ctx' stop s'
    hsetup.extFuncs.symm hpass' hdefined
  rw [← hcalls', hsame, hcalls, hreplay, Prod.mk.injEq] at hreplay'
  rcases hreplay' with ⟨hstop, hlink⟩
  have hcode : s'.code = s.code := (congrArg LinkState.code hlink).symm
  rcases hend with ⟨e, hstop', -, -⟩ | ⟨-, herror, hvm'⟩
  · rw [← hstop] at hstop'
    exact absurd hstop' (by simp only [reduceCtorEq, not_false_eq_true])
  rw [hcode] at herror hvm'
  have hstore' := ubpfLoad_twin vm vm' base base' s.code hclean hclean' hsetup hempty hstore
  refine ⟨herror.trans hstore', programOf vm s.code, ?_, ?_⟩
  · rw [hvm, ubpfLoad_program vm base s.code hclean hstore]
  · have hprogram : programOf vm' s.code = programOf vm s.code := by
      simp only [programOf, hsetup.extFuncs, hsetup.unwind]
    rw [hvm', ubpfLoad_program vm' base' s.code hclean' hstore', hprogram]

end UniBPF
