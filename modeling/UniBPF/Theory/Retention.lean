import UniBPF.Theory.Loads

/-!
# Maps Outlive Programs

A program that is replaced leaves its maps to the next one. What it takes for
that to work is split between the loader and the map operations. The loader
must find the map again under its name and must not touch what is in it, and
nothing but the operations may change the contents.

`Retained` says so of two moments of an element's life with any number of
loads and operations between them. A map is at the end what the operations on
it, and only those, made of it. A name keeps its map, and every relocation of
the name in between was answered with the map's address or, for another
definition, with zero. No two names share a map.

The one relocation of a bound name that is not answered so is one whose symbol
is too small to hold a definition. It is refused with zero before the name is
looked up, even if the bytes at the symbol are the very definition of the map.
The refusal changes nothing.

## Main definitions

* `opsOn`: The operations of a run on one map.
* `AnsweredBy`: A call about a bound name is answered with its map.
* `Retained`: What stays between two moments.

## Theorems

* `applyMapOp_defn`: No operation changes a definition.
* `mapAt_run`: A map is what the operations on it made of it.
* `keeps_run`: A bound name keeps its map and its answers.
* `maps_retained`: Maps are retained over every run.
* `small_symbol_refused`: A symbol that is too small is refused.
-/

namespace UniBPF

variable (A : Allocator Obj)

/-- The operations of a run on the map at an address. -/
def opsOn (a : Addr) : List LoadEvent → List MapOp
  | [] => []
  | .load .. :: es => opsOn a es
  | .op b op :: es => if b = a then op :: opsOn a es else opsOn a es

/-- No operation changes the definition of a map. -/
theorem applyMapOp_defn (map map' : BpfMap) (op : MapOp) (h : applyMapOp map op = some map') :
    map'.defn = map.defn := by
  -- Every branch that returns a map rebuilds it around the old definition.
  cases op with
  | update key value =>
      simp only [applyMapOp, bpfMapUpdateElem] at h
      split at h
      · split at h
        · rw [← Option.some.inj h]
        · exact absurd h (by simp only [reduceCtorEq, not_false_eq_true])
      · split at h
        · split at h
          · split at h
            · rw [← Option.some.inj h]
            · exact absurd h (by simp only [reduceCtorEq, not_false_eq_true])
          · exact absurd h (by simp only [reduceCtorEq, not_false_eq_true])
        · rw [Option.some.inj h]
  | delete key =>
      simp only [applyMapOp, bpfMapDeleteElem] at h
      split at h
      · split at h
        · rw [← Option.some.inj h]
        · exact absurd h (by simp only [reduceCtorEq, not_false_eq_true])
      · rw [Option.some.inj h]
  | write key off bytes =>
      simp only [applyMapOp, writeThrough] at h
      split at h
      · split at h
        · split at h
          · rw [← Option.some.inj h]
          · exact absurd h (by simp only [reduceCtorEq, not_false_eq_true])
        · exact absurd h (by simp only [reduceCtorEq, not_false_eq_true])
      · split at h
        · rw [← Option.some.inj h]
        · exact absurd h (by simp only [reduceCtorEq, not_false_eq_true])

/-- A load only adds to the context. -/
theorem load_grows (h h' : History) (vm : Vm) (base : Addr) (buffer : FileBuffer)
    (main : Option Bytes) (hstep : loadStep A h (.load vm base buffer main) = some h') :
    Grows h.ctx h'.ctx := by
  simp only [loadStep, Option.map_eq_some_iff] at hstep
  rcases hstep with ⟨loaded, hload, hh⟩
  rw [← hh]
  exact callsFrom_invariant A (fun H => Grows h.ctx H.ctx)
    (fun ctx ctx' _ c hgrows hc => hgrows.trans (relocates_grows A ctx ctx' c.request c.result hc))
    loaded.calls h.ctx loaded.ctx h.calls (.refl h.ctx)
    (ubpfLoadElfEx_calls _ _ _ _ _ _ loaded hload)

/-- A map is at the end of a run what the operations on it made of it. -/
theorem mapAt_run (a : Addr) (es : List LoadEvent) : ∀ (h h' : History) (map : BpfMap),
    h.ctx.mapAt a = some map → Steps.run (loadStep A) h es = some h' →
      h'.ctx.mapAt a = Steps.run applyMapOp map (opsOn a es) := by
  induction es with
  | nil =>
      intro h h' map hmap hrun
      simp only [Steps.run, Option.some.injEq] at hrun
      rw [← hrun, hmap]
      rfl
  | cons e es ih =>
      intro h h' map hmap hrun
      rcases Steps.run_cons_some (loadStep A) h h' e es hrun with ⟨mid, hstep, hrest⟩
      cases e with
      | load vm base buffer main =>
          -- A load adds maps and leaves this one as it is.
          have hgrows := load_grows A h mid vm base buffer main hstep
          exact ih mid h' map (hgrows.maps a map hmap) hrest
      | op b op =>
          simp only [loadStep, Option.map_eq_some_iff] at hstep
          rcases hstep with ⟨ctx', hop, hmid⟩
          rcases mapOp_cases h.ctx ctx' b op hop with ⟨old, new, hold, happly, hctx⟩
          have hnow : mid.ctx.mapAt a = if a = b then some new else h.ctx.mapAt a := by
            rw [← hmid, hctx]
            exact mapAt_update h.ctx b a new
          simp only [opsOn]
          by_cases hab : b = a
          -- The operation is on this map, so it is the next one of its own run.
          · rw [if_pos hab]
            rw [hab, hmap] at hold
            rw [if_pos hab.symm] at hnow
            rw [Option.some.inj hold, Steps.run_cons applyMapOp old new op _ happly]
            exact ih mid h' new hnow hrest
          · rw [if_neg hab]
            rw [if_neg (fun heq => hab heq.symm)] at hnow
            exact ih mid h' map (hnow.trans hmap) hrest

/-- A call about a name is answered with the address of its map or, where the
    definitions differ, with zero. -/
def AnsweredBy (name : Bytes) (a : Addr) (defn : MapDef) (c : RelocCall) : Prop :=
  c.request.symbolName = name → sizeofMapDef ≤ c.request.symbolSize →
    ∃ d, c.request.mapDefinition = some d ∧ c.result = if defn.same d then a else 0

/-- A bound name, from the moment the calls were `start` on. -/
structure Keeps (name : Bytes) (a : Addr) (defn : MapDef) (start : List RelocCall)
    (h : History) : Prop where
  bound : h.ctx.mapByName name = some a
  defined : ∃ map, h.ctx.mapAt a = some map ∧ map.defn = defn
  answered : ∃ new, h.calls = start ++ new ∧ ∀ c ∈ new, AnsweredBy name a defn c

/-- A relocation of a bound name, in a context that knows its definition. -/
theorem answeredBy_relocates (ctx ctx' : BpfMapCtx) (name : Bytes) (a : Addr) (map : BpfMap)
    (c : RelocCall) (hbound : ctx.mapByName name = some a) (hmap : ctx.mapAt a = some map)
    (h : Relocates A ctx c.request c.result ctx') : AnsweredBy name a map.defn c := by
  intro hname hbig
  rw [← hname] at hbound
  have hpos : c.request.symbolSize ≠ 0 := by
    unfold sizeofMapDef at hbig
    omega
  have hnew : ¬ ctx.mapByName c.request.symbolName = none := by
    rw [hbound]
    exact Option.some_ne_none a
  -- The map found is the one the name is bound to.
  have hunique : ∀ b map', ctx.mapByName c.request.symbolName = some b → ctx.mapAt b = some map' →
      b = a ∧ map' = map := by
    intro b map' hb hb'
    have hba : b = a := Option.some.inj (hb.symm.trans hbound)
    rw [hba, hmap] at hb'
    exact ⟨hba, (Option.some.inj hb').symm⟩
  generalize hv : c.result = v at h
  cases h with
  | sectionKnown mem hsize hknown => exact absurd hsize hpos
  | sectionCopied mem hsize hfree halloc => exact absurd hsize hpos
  | tooSmall d hsize hdef hsmall => exact absurd hsmall (Nat.not_lt.mpr hbig)
  | found d _ map' hsize hdef hb hb' hsame =>
      rcases hunique v map' hb hb' with ⟨hva, hmap'⟩
      refine ⟨d, hdef, ?_⟩
      rw [hmap'] at hsame
      rw [hsame, if_pos rfl, hva]
  | redefined d b map' hsize hdef hb hb' hsame =>
      rcases hunique b map' hb hb' with ⟨-, hmap'⟩
      refine ⟨d, hdef, ?_⟩
      rw [hmap'] at hsame
      rw [hsame, if_neg Bool.false_ne_true]
  | unsupported d hsize hdef hfree hdata => exact absurd hfree hnew
  | created d data _ hsize hdef hfree hdata halloc => exact absurd hfree hnew

/-- A bound name keeps its map and its answers through a call. -/
theorem keeps_call (name : Bytes) (a : Addr) (defn : MapDef) (start : List RelocCall)
    (ctx ctx' : BpfMapCtx) (calls : List RelocCall) (c : RelocCall)
    (hkeeps : Keeps name a defn start ⟨ctx, calls⟩) (h : Relocates A ctx c.request c.result ctx') :
    Keeps name a defn start ⟨ctx', calls ++ [c]⟩ := by
  rcases hkeeps with ⟨hbound, ⟨map, hmap, hdefn⟩, new, hcalls, hnew⟩
  have hgrows := relocates_grows A ctx ctx' c.request c.result h
  have hanswer := answeredBy_relocates A ctx ctx' name a map c hbound hmap h
  rw [hdefn] at hanswer
  refine ⟨hgrows.names name a hbound, ⟨map, hgrows.maps a map hmap, hdefn⟩, new ++ [c], ?_, ?_⟩
  · simp only at hcalls
    rw [hcalls, List.append_assoc]
  · intro c' hc'
    rcases List.mem_append.mp hc' with hold | hlast
    · exact hnew c' hold
    · rw [List.mem_singleton.mp hlast]
      exact hanswer

/-- And through an operation, which changes contents only. -/
theorem keeps_op (name : Bytes) (a : Addr) (defn : MapDef) (start : List RelocCall)
    (ctx ctx' : BpfMapCtx) (calls : List RelocCall) (b : Addr) (op : MapOp)
    (hkeeps : Keeps name a defn start ⟨ctx, calls⟩) (h : ctx.mapOp b op = some ctx') :
    Keeps name a defn start ⟨ctx', calls⟩ := by
  rcases hkeeps with ⟨hbound, ⟨map, hmap, hdefn⟩, hanswered⟩
  rcases mapOp_cases ctx ctx' b op h with ⟨old, new, hold, happly, hctx⟩
  rw [hctx]
  refine ⟨hbound, ?_, hanswered⟩
  simp only [mapAt_update]
  by_cases hab : a = b
  -- The map the operation is on keeps its definition.
  · have hsame : map = old := by
      simp only at hmap
      rw [hab, hold] at hmap
      exact (Option.some.inj hmap).symm
    rw [if_pos hab]
    exact ⟨new, rfl, by rw [applyMapOp_defn old new op happly, ← hsame, hdefn]⟩
  · rw [if_neg hab]
    exact ⟨map, hmap, hdefn⟩

/-- A bound name keeps its map and its answers through every run. -/
theorem keeps_run (name : Bytes) (a : Addr) (map : BpfMap) (es : List LoadEvent) (h h' : History)
    (hbound : h.ctx.mapByName name = some a) (hmap : h.ctx.mapAt a = some map)
    (hrun : Steps.run (loadStep A) h es = some h') : Keeps name a map.defn h.calls h' := by
  have hstart : Keeps name a map.defn h.calls h := by
    refine ⟨hbound, ⟨map, hmap, rfl⟩, [], (List.append_nil h.calls).symm, ?_⟩
    intro c hc
    exact absurd hc List.not_mem_nil
  exact Steps.run_invariant (loadStep A) (Keeps name a map.defn h.calls)
    (fun s e s' hs hstep => history_step A _
      (fun ctx ctx' calls c hkeeps hc => keeps_call A name a _ _ ctx ctx' calls c hkeeps hc)
      (fun ctx ctx' calls b op hkeeps hop => keeps_op name a _ _ ctx ctx' calls b op hkeeps hop)
      s s' e hs hstep)
    es h h' hstart hrun

/-- What stays between two moments of an element's life: maps are what the
    operations on them made of them, names keep their maps, relocations of a
    bound name were answered with its map, and no two names share one. -/
structure Retained (h h' : History) (es : List LoadEvent) : Prop where
  contents : ∀ a map, h.ctx.mapAt a = some map →
    h'.ctx.mapAt a = Steps.run applyMapOp map (opsOn a es)
  names : ∀ name a, h.ctx.mapByName name = some a → h'.ctx.mapByName name = some a
  answers : ∀ name a map, h.ctx.mapByName name = some a → h.ctx.mapAt a = some map →
    ∀ c ∈ h'.calls.drop h.calls.length, AnsweredBy name a map.defn c
  maps : ∀ name a, h'.ctx.mapByName name = some a → ∃ map, h'.ctx.mapAt a = some map
  distinct : ∀ n m a, h'.ctx.mapByName n = some a → h'.ctx.mapByName m = some a → n = m

/-- Maps are retained over every run of loads, failed ones included, and map
    operations. -/
theorem maps_retained (es fs : List LoadEvent) (h h' : History)
    (hes : Steps.run (loadStep A) History.new es = some h)
    (hfs : Steps.run (loadStep A) h fs = some h') : Retained h h' fs := by
  have hinv := ctxInv_history A es h hes
  -- The two stretches are one run, so the context is in order at its end too.
  have hall : Steps.run (loadStep A) History.new (es ++ fs) = some h' :=
    (Steps.run_append (loadStep A) History.new h es fs hes).trans hfs
  have hinv' := ctxInv_history A (es ++ fs) h' hall
  refine ⟨?_, ?_, ?_, hinv'.bound, hinv'.injective⟩
  · intro a map hmap
    exact mapAt_run A a fs h h' map hmap hfs
  · intro name a hbound
    rcases hinv.bound name a hbound with ⟨map, hmap⟩
    exact (keeps_run A name a map fs h h' hbound hmap hfs).bound
  · intro name a map hbound hmap c hc
    rcases (keeps_run A name a map fs h h' hbound hmap hfs).answered with ⟨new, hcalls, hnew⟩
    rw [hcalls, List.drop_left] at hc
    exact hnew c hc

/-- A hash map with an entry, found again by the next program. -/
theorem hash_map_retained :
    ∃ h h', Steps.run (loadStep sampleAllocator) History.new
        [sampleLoad (mapObject 28 sampleHash), .op 0x10000 (.update [1, 0, 0, 0] [7, 0, 0, 0])]
          = some h ∧
      Steps.run (loadStep sampleAllocator) h [sampleLoad (mapObject 28 sampleHash)]
        = some h' ∧
      h.ctx.mapByName [0x6d] = some 0x10000 ∧
      Retained h h' [sampleLoad (mapObject 28 sampleHash)] := by
  have hall : ((Steps.run (loadStep sampleAllocator) History.new
      [sampleLoad (mapObject 28 sampleHash), .op 0x10000 (.update [1, 0, 0, 0] [7, 0, 0, 0])]).any
      fun h => decide (h.ctx.mapByName [0x6d] = some 0x10000) &&
        (Steps.run (loadStep sampleAllocator) h
          [sampleLoad (mapObject 28 sampleHash)]).isSome) = true := by
    decide +kernel
  rcases (Option.any_eq_true _ _).mp hall with ⟨h, hes, htest⟩
  rcases (Bool.and_eq_true _ _).mp htest with ⟨hbound, hsome⟩
  rcases Option.isSome_iff_exists.mp hsome with ⟨h', hfs⟩
  exact ⟨h, h', hes, hfs, of_decide_eq_true hbound, maps_retained _ _ _ h h' hes hfs⟩

/-- A relocation of a bound name by a symbol of 20 bytes is refused, though the
    definition there is that of the map. -/
theorem small_symbol_refused :
    ¬ ∀ (A : Allocator Obj) (es fs : List LoadEvent) (h h' : History),
      Steps.run (loadStep A) History.new es = some h →
      Steps.run (loadStep A) h fs = some h' →
      ∀ name a map d, h.ctx.mapByName name = some a → h.ctx.mapAt a = some map →
        ∀ c ∈ h'.calls.drop h.calls.length, c.request.symbolName = name →
          c.request.symbolSize ≠ 0 → c.request.mapDefinition = some d →
          map.defn.same d = true → c.result = a := by
  intro hclaim
  have hall : ((Steps.run (loadStep sampleAllocator) History.new
      [sampleLoad (mapObject 28 sampleHash)]).any fun h =>
        (h.ctx.mapAt 0x10000).any fun map =>
        (Steps.run (loadStep sampleAllocator) h
          [sampleLoad (mapObject 20 sampleHash)]).any fun h' =>
        (h'.calls.drop h.calls.length).any fun c =>
        c.request.mapDefinition.any fun d =>
          decide (h.ctx.mapByName [0x6d] = some 0x10000) &&
          decide (c.request.symbolName = [0x6d] ∧ c.request.symbolSize ≠ 0 ∧
            map.defn.same d = true ∧ c.result = 0)) = true := by
    decide +kernel
  rcases (Option.any_eq_true _ _).mp hall with ⟨h, hes, htest⟩
  rcases (Option.any_eq_true _ _).mp htest with ⟨map, hmap, htest⟩
  rcases (Option.any_eq_true _ _).mp htest with ⟨h', hfs, htest⟩
  rcases List.any_eq_true.mp htest with ⟨c, hc, htest⟩
  rcases (Option.any_eq_true _ _).mp htest with ⟨d, hd, htest⟩
  rcases (Bool.and_eq_true _ _).mp htest with ⟨hbound, hcall⟩
  rcases of_decide_eq_true hcall with ⟨hname, hsize, hsame, hzero⟩
  have hfound := hclaim sampleAllocator _ _ h h' hes hfs [0x6d] 0x10000 map d
    (of_decide_eq_true hbound) hmap c hc hname hsize hd hsame
  rw [hzero] at hfound
  exact absurd hfound (by decide)

end UniBPF
