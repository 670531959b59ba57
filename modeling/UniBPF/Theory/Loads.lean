import UniBPF.Theory.Configure

/-!
# Loads Over Time

A map context is filled by one load after another, with the programs' own
map operations in between, and it is never emptied. This module says once
what a relocation can do to it and what a run of loads and operations can.

`Relocates` lists the answers of `do_map_relocation`. In every one of them
the context grows: names stay bound where they were, and objects stay where
and what they were (`relocates_grows`). New objects go to addresses the
allocator calls free, which is what keeps two names from sharing one
(`CtxInv`).

A run is a list of loads and map operations. It carries the calls the loads
made beside the context. A property of both that a single call and a single
operation keep holds after every run (`history_invariant`): a load is nothing
but its calls, however it ends. The events of an element are such a run
(`step_history`).

## Main definitions

* `Relocates`: The answers of `do_map_relocation`.
* `Grows`: Names and objects stay where they are.
* `CtxInv`: The invariant of a map context.
* `LoadEvent`, `History`, `loadStep`: Loads and map operations over time.

## Theorems

* `relocates_of_doMapRelocation`: The list of answers is complete.
* `relocates_grows`: A relocation only adds.
* `ctxInv_relocates`, `ctxInv_mapOp`: The invariant is kept.
* `history_step`, `history_invariant`: The induction over runs.
* `step_history`, `reachable_history`: An element's events are a run of loads
  and operations.
-/

namespace UniBPF

variable (A : Allocator Obj)

/-- The context with a copy of a section. -/
def BpfMapCtx.addSection (ctx : BpfMapCtx) (r : RelocRequest) (mem : Addr) : BpfMapCtx :=
  { ctx with
    heap := Function.update ctx.heap mem (some (.section r.contents))
    globalData := Function.update ctx.globalData r.mapData (some mem) }

/-- The context with a new map under a name. -/
def BpfMapCtx.addMap (ctx : BpfMapCtx) (name : Bytes) (map : BpfMap) (a : Addr) : BpfMapCtx :=
  { ctx with
    heap := Function.update ctx.heap a (some (.bpfMap map))
    mapByName := Function.update ctx.mapByName name (some a) }

/-- The answers of `do_map_relocation`: the value returned and the context
    afterwards. -/
inductive Relocates (ctx : BpfMapCtx) (r : RelocRequest) : Nat → BpfMapCtx → Prop where
  | sectionKnown (mem : Addr) (hsize : r.symbolSize = 0)
      (hknown : ctx.globalData r.mapData = some mem) :
      Relocates ctx r ((mem + r.imm) % 2 ^ 64) ctx
  | sectionCopied (mem : Addr) (hsize : r.symbolSize = 0)
      (hnew : ctx.globalData r.mapData = none) (halloc : A.alloc ctx.heap = some mem) :
      Relocates ctx r ((mem + r.imm) % 2 ^ 64) (ctx.addSection r mem)
  | tooSmall (d : MapDef) (hsize : r.symbolSize ≠ 0) (hdef : r.mapDefinition = some d)
      (hsmall : r.symbolSize < sizeofMapDef) : Relocates ctx r 0 ctx
  | found (d : MapDef) (a : Addr) (map : BpfMap) (hsize : sizeofMapDef ≤ r.symbolSize)
      (hdef : r.mapDefinition = some d) (hbound : ctx.mapByName r.symbolName = some a)
      (hmap : ctx.mapAt a = some map) (hsame : map.defn.same d = true) : Relocates ctx r a ctx
  | redefined (d : MapDef) (a : Addr) (map : BpfMap) (hsize : sizeofMapDef ≤ r.symbolSize)
      (hdef : r.mapDefinition = some d) (hbound : ctx.mapByName r.symbolName = some a)
      (hmap : ctx.mapAt a = some map) (hsame : map.defn.same d = false) : Relocates ctx r 0 ctx
  | unsupported (d : MapDef) (hsize : sizeofMapDef ≤ r.symbolSize)
      (hdef : r.mapDefinition = some d) (hnew : ctx.mapByName r.symbolName = none)
      (hdata : newMapData d = none) : Relocates ctx r 0 ctx
  | created (d : MapDef) (data : MapData) (a : Addr) (hsize : sizeofMapDef ≤ r.symbolSize)
      (hdef : r.mapDefinition = some d) (hnew : ctx.mapByName r.symbolName = none)
      (hdata : newMapData d = some data) (halloc : A.alloc ctx.heap = some a) :
      Relocates ctx r a (ctx.addMap r.symbolName ⟨d, data⟩ a)

/-- The answers for a section symbol: a copy that is known already, or a new
    one. -/
theorem relocates_of_doDataRelocation (ctx ctx' : BpfMapCtx) (r : RelocRequest) (v : Nat)
    (hsize : r.symbolSize = 0) (h : doDataRelocation A ctx r = some (v, ctx')) :
    Relocates A ctx r v ctx' := by
  unfold doDataRelocation at h
  cases hknown : ctx.globalData r.mapData with
  | some mem =>
      simp only [hknown, Option.some.injEq, Prod.mk.injEq] at h
      rw [← h.1, ← h.2]
      exact .sectionKnown mem hsize hknown
  | none =>
      simp only [hknown] at h
      cases halloc : A.alloc ctx.heap with
      | none =>
          rw [halloc] at h
          exact absurd h (by simp only [reduceCtorEq, not_false_eq_true])
      | some mem =>
          simp only [halloc, Option.some.injEq, Prod.mk.injEq] at h
          rw [← h.1, ← h.2]
          exact .sectionCopied mem hsize hknown halloc

/-- The answers for a name that is not bound yet. -/
theorem relocates_of_bindNewMap (ctx ctx' : BpfMapCtx) (r : RelocRequest) (d : MapDef) (v : Nat)
    (hsize : sizeofMapDef ≤ r.symbolSize) (hdef : r.mapDefinition = some d)
    (hnew : ctx.mapByName r.symbolName = none)
    (h : bindNewMap A ctx r.symbolName d = some (v, ctx')) : Relocates A ctx r v ctx' := by
  unfold bindNewMap at h
  cases hdata : newMapData d with
  | none =>
      simp only [hdata, Option.some.injEq, Prod.mk.injEq] at h
      rw [← h.1, ← h.2]
      exact .unsupported d hsize hdef hnew hdata
  | some data =>
      simp only [hdata] at h
      cases halloc : A.alloc ctx.heap with
      | none =>
          rw [halloc] at h
          exact absurd h (by simp only [reduceCtorEq, not_false_eq_true])
      | some a =>
          simp only [halloc, Option.some.injEq, Prod.mk.injEq] at h
          rw [← h.1, ← h.2]
          exact .created d data a hsize hdef hnew hdata halloc

/-- The list of answers is complete. -/
theorem relocates_of_doMapRelocation (ctx ctx' : BpfMapCtx) (r : RelocRequest) (v : Nat)
    (h : doMapRelocation A ctx r = some (v, ctx')) : Relocates A ctx r v ctx' := by
  unfold doMapRelocation at h
  by_cases hsize : r.symbolSize = 0
  · rw [if_pos hsize] at h
    exact relocates_of_doDataRelocation A ctx ctx' r v hsize h
  rw [if_neg hsize] at h
  cases hdef : r.mapDefinition with
  | none =>
      -- The definition would be read past the end of the section.
      rw [hdef] at h
      exact absurd h (by simp only [reduceCtorEq, not_false_eq_true])
  | some d =>
      simp only [hdef] at h
      by_cases hsmall : r.symbolSize < sizeofMapDef
      · simp only [if_pos hsmall, Option.some.injEq, Prod.mk.injEq] at h
        rw [← h.1, ← h.2]
        exact .tooSmall d hsize hdef hsmall
      rw [if_neg hsmall] at h
      have hbig : sizeofMapDef ≤ r.symbolSize := Nat.le_of_not_lt hsmall
      cases hbound : ctx.mapByName r.symbolName with
      | some a =>
          simp only [hbound] at h
          cases hmap : ctx.mapAt a with
          | none =>
              rw [hmap] at h
              exact absurd h (by simp only [reduceCtorEq, not_false_eq_true])
          | some map =>
              simp only [hmap] at h
              cases hsame : map.defn.same d with
              | true =>
                  simp only [hsame, if_true, Option.some.injEq, Prod.mk.injEq] at h
                  rw [← h.1, ← h.2]
                  exact .found d a map hbig hdef hbound hmap hsame
              | false =>
                  simp only [hsame, Bool.false_eq_true, if_false, Option.some.injEq,
                    Prod.mk.injEq] at h
                  rw [← h.1, ← h.2]
                  exact .redefined d a map hbig hdef hbound hmap hsame
      | none =>
          simp only [hbound] at h
          exact relocates_of_bindNewMap A ctx ctx' r d v hbig hdef hbound h

/-- Names and objects stay where they are. -/
structure Grows (ctx ctx' : BpfMapCtx) : Prop where
  names : ∀ name a, ctx.mapByName name = some a → ctx'.mapByName name = some a
  sections : ∀ addr mem, ctx.globalData addr = some mem → ctx'.globalData addr = some mem
  objects : ∀ a o, ctx.heap a = some o → ctx'.heap a = some o

theorem Grows.refl (ctx : BpfMapCtx) : Grows ctx ctx :=
  ⟨fun _ _ h => h, fun _ _ h => h, fun _ _ h => h⟩

theorem Grows.trans {a b c : BpfMapCtx} (hab : Grows a b) (hbc : Grows b c) : Grows a c :=
  ⟨fun name x h => hbc.names name x (hab.names name x h),
    fun addr x h => hbc.sections addr x (hab.sections addr x h),
    fun x o h => hbc.objects x o (hab.objects x o h)⟩

theorem mapAt_eq_some (ctx : BpfMapCtx) (a : Addr) (map : BpfMap) :
    ctx.mapAt a = some map ↔ ctx.heap a = some (.bpfMap map) := by
  unfold BpfMapCtx.mapAt
  constructor
  · intro h
    split at h
    · rename_i map' hheap
      rw [hheap, Option.some.inj h]
    · exact absurd h (by simp only [reduceCtorEq, not_false_eq_true])
  · intro h
    rw [h]

theorem Grows.maps {ctx ctx' : BpfMapCtx} (h : Grows ctx ctx') (a : Addr) (map : BpfMap)
    (hmap : ctx.mapAt a = some map) : ctx'.mapAt a = some map :=
  (mapAt_eq_some ctx' a map).mpr (h.objects a _ ((mapAt_eq_some ctx a map).mp hmap))

/-- A relocation only adds: whatever it answers, it changes no name, no copy
    and no object there was. -/
theorem relocates_grows (ctx ctx' : BpfMapCtx) (r : RelocRequest) (v : Nat)
    (h : Relocates A ctx r v ctx') : Grows ctx ctx' := by
  cases h with
  | sectionKnown mem hsize hknown => exact .refl ctx
  | sectionCopied mem hsize hnew halloc =>
      have hfree := A.alloc_free ctx.heap mem halloc
      exact ⟨fun _ _ hname => hname,
        fun addr m hm => update_of_free ctx.globalData r.mapData addr mem m hnew hm,
        fun a o ho => update_of_free ctx.heap mem a _ o hfree ho⟩
  | tooSmall d hsize hdef hsmall => exact .refl ctx
  | found d _ map hsize hdef hbound hmap hsame => exact .refl ctx
  | redefined d a map hsize hdef hbound hmap hsame => exact .refl ctx
  | unsupported d hsize hdef hnew hdata => exact .refl ctx
  | created d data _ hsize hdef hnew hdata halloc =>
      have hfree := A.alloc_free ctx.heap v halloc
      exact ⟨fun name b hb => update_of_free ctx.mapByName r.symbolName name v b hnew hb,
        fun _ _ hm => hm, fun b o ho => update_of_free ctx.heap v b _ o hfree ho⟩

/-- The invariant of a map context: a name leads to a map, two names never to
    the same one, and objects are at addresses a program can hold. -/
structure CtxInv (ctx : BpfMapCtx) : Prop where
  bound : ∀ name a, ctx.mapByName name = some a → ∃ map, ctx.mapAt a = some map
  injective : ∀ n m a, ctx.mapByName n = some a → ctx.mapByName m = some a → n = m
  range : ∀ a o, ctx.heap a = some o → 0 < a ∧ a < 2 ^ 64

theorem ctxInv_empty : CtxInv .empty :=
  ⟨fun _ _ h => absurd h (by simp only [BpfMapCtx.empty, reduceCtorEq, not_false_eq_true]),
    fun _ _ _ h => absurd h (by simp only [BpfMapCtx.empty, reduceCtorEq, not_false_eq_true]),
    fun _ _ h => absurd h (by simp only [BpfMapCtx.empty, reduceCtorEq, not_false_eq_true])⟩

/-- Objects at allocated addresses keep the range. -/
theorem range_update (heap : Heap Obj) (a : Addr) (o : Obj) (halloc : A.alloc heap = some a)
    (h : ∀ b p, heap b = some p → 0 < b ∧ b < 2 ^ 64) :
    ∀ b p, Function.update heap a (some o) b = some p → 0 < b ∧ b < 2 ^ 64 := by
  intro b p hb
  by_cases hab : b = a
  · rw [hab]
    exact ⟨A.alloc_pos heap a halloc, A.alloc_lt heap a halloc⟩
  · rw [Function.update_of_ne hab] at hb
    exact h b p hb

theorem ctxInv_relocates (ctx ctx' : BpfMapCtx) (r : RelocRequest) (v : Nat) (hinv : CtxInv ctx)
    (h : Relocates A ctx r v ctx') : CtxInv ctx' := by
  have hgrows := relocates_grows A ctx ctx' r v h
  cases h with
  | sectionKnown mem hsize hknown => exact hinv
  | sectionCopied mem hsize hnew halloc =>
      refine ⟨?_, hinv.injective, range_update A ctx.heap mem _ halloc hinv.range⟩
      intro name a hname
      rcases hinv.bound name a hname with ⟨map, hmap⟩
      exact ⟨map, hgrows.maps a map hmap⟩
  | tooSmall d hsize hdef hsmall => exact hinv
  | found d _ map hsize hdef hbound hmap hsame => exact hinv
  | redefined d a map hsize hdef hbound hmap hsame => exact hinv
  | unsupported d hsize hdef hnew hdata => exact hinv
  | created d data _ hsize hdef hnew hdata halloc =>
      -- The new address was free, so no name led there.
      have hfresh : ∀ name, ctx.mapByName name ≠ some v := by
        intro name hname
        rcases hinv.bound name v hname with ⟨map, hmap⟩
        have hheap := (mapAt_eq_some ctx v map).mp hmap
        rw [A.alloc_free ctx.heap v halloc] at hheap
        exact absurd hheap (by simp only [reduceCtorEq, not_false_eq_true])
      refine ⟨?_, ?_, range_update A ctx.heap v _ halloc hinv.range⟩
      · intro name b hname
        by_cases hsame : name = r.symbolName
        · simp only [BpfMapCtx.addMap, hsame, Function.update_self, Option.some.injEq] at hname
          refine ⟨⟨d, data⟩, (mapAt_eq_some _ b _).mpr ?_⟩
          simp only [BpfMapCtx.addMap, ← hname, Function.update_self]
        · simp only [BpfMapCtx.addMap, Function.update_of_ne hsame] at hname
          rcases hinv.bound name b hname with ⟨map, hmap⟩
          exact ⟨map, hgrows.maps b map hmap⟩
      -- Of two names for one address neither or both are the new one.
      · intro n m b hn hm
        simp only [BpfMapCtx.addMap] at hn hm
        by_cases hns : n = r.symbolName
        · by_cases hms : m = r.symbolName
          · rw [hns, hms]
          · rw [hns, Function.update_self, Option.some.injEq] at hn
            rw [Function.update_of_ne hms, ← hn] at hm
            exact absurd hm (hfresh m)
        · rw [Function.update_of_ne hns] at hn
          by_cases hms : m = r.symbolName
          · rw [hms, Function.update_self, Option.some.injEq] at hm
            rw [← hm] at hn
            exact absurd hn (hfresh n)
          · rw [Function.update_of_ne hms] at hm
            exact hinv.injective n m b hn hm

/-- What an operation on a map does to the context. -/
theorem mapOp_cases (ctx ctx' : BpfMapCtx) (a : Addr) (op : MapOp)
    (h : ctx.mapOp a op = some ctx') :
    ∃ map map', ctx.mapAt a = some map ∧ applyMapOp map op = some map' ∧
      ctx' = { ctx with heap := Function.update ctx.heap a (some (.bpfMap map')) } := by
  unfold BpfMapCtx.mapOp at h
  cases hmap : ctx.mapAt a with
  | none =>
      rw [hmap] at h
      exact absurd h (by simp only [reduceCtorEq, not_false_eq_true])
  | some map =>
      simp only [hmap] at h
      cases happly : applyMapOp map op with
      | none =>
          rw [happly] at h
          exact absurd h (by simp only [reduceCtorEq, not_false_eq_true])
      | some map' =>
          simp only [happly, Option.some.injEq] at h
          exact ⟨map, map', rfl, happly, h.symm⟩

/-- The map at an address after an operation on some map. -/
theorem mapAt_update (ctx : BpfMapCtx) (a b : Addr) (map : BpfMap) :
    ({ ctx with heap := Function.update ctx.heap a (some (.bpfMap map)) } : BpfMapCtx).mapAt b
      = if b = a then some map else ctx.mapAt b := by
  unfold BpfMapCtx.mapAt
  by_cases hab : b = a
  · rw [if_pos hab, hab]
    simp only [Function.update_self]
  · rw [if_neg hab]
    simp only [Function.update_of_ne hab]

theorem ctxInv_mapOp (ctx ctx' : BpfMapCtx) (a : Addr) (op : MapOp) (hinv : CtxInv ctx)
    (h : ctx.mapOp a op = some ctx') : CtxInv ctx' := by
  rcases mapOp_cases ctx ctx' a op h with ⟨map, map', hmap, -, hctx⟩
  rw [hctx]
  -- The object changed in place: no name and no address is new.
  refine ⟨?_, hinv.injective, ?_⟩
  · intro name b hname
    rw [mapAt_update]
    by_cases hab : b = a
    · rw [if_pos hab]
      exact ⟨map', rfl⟩
    · rw [if_neg hab]
      exact hinv.bound name b hname
  · intro b o hb
    by_cases hab : b = a
    · rw [hab]
      exact hinv.range a _ ((mapAt_eq_some ctx a map).mp hmap)
    · simp only [Function.update_of_ne hab] at hb
      exact hinv.range b o hb

/-- A load, or an operation a running program does to a map. -/
inductive LoadEvent where
  | load (vm : Vm) (base : Addr) (buffer : FileBuffer) (main : Option Bytes)
  | op (a : Addr) (op : MapOp)

/-- The context and all the calls the loads have made. -/
structure History where
  ctx : BpfMapCtx
  calls : List RelocCall

def History.new : History := ⟨.empty, []⟩

/-- The context after a load, which need not have succeeded, or after an
    operation. -/
def loadStep (h : History) : LoadEvent → Option History
  | .load vm base buffer main =>
    (ubpfLoadElfEx (doMapRelocation A) base vm h.ctx buffer main).map fun loaded =>
      ⟨loaded.ctx, h.calls ++ loaded.calls⟩
  | .op a op => (h.ctx.mapOp a op).map fun ctx => ⟨ctx, h.calls⟩

/-- A property that every call keeps is kept by the calls of a load. -/
theorem callsFrom_invariant (Inv : History → Prop)
    (hcall : ∀ ctx ctx' calls c, Inv ⟨ctx, calls⟩ →
      Relocates A ctx c.request c.result ctx' → Inv ⟨ctx', calls ++ [c]⟩)
    (cs : List RelocCall) : ∀ ctx ctx' calls, Inv ⟨ctx, calls⟩ →
      CallsFrom (doMapRelocation A) ctx cs ctx' → Inv ⟨ctx', calls ++ cs⟩ := by
  induction cs with
  | nil =>
      -- Without a call the context is the one there was.
      intro ctx ctx' calls hinv hcs
      have hctx : ctx' = ctx := hcs
      rw [hctx, List.append_nil]
      exact hinv
  | cons c cs ih =>
      intro ctx ctx' calls hinv hcs
      rcases hcs with ⟨mid, hc, hrest⟩
      have hmid := hcall ctx mid calls c hinv
        (relocates_of_doMapRelocation A ctx mid c.request c.result hc)
      have hend := ih mid ctx' (calls ++ [c]) hmid hrest
      rwa [List.append_assoc, List.singleton_append] at hend

/-- A property that every call and every operation keep is kept by a load or
    an operation. -/
theorem history_step (Inv : History → Prop)
    (hcall : ∀ ctx ctx' calls c, Inv ⟨ctx, calls⟩ →
      Relocates A ctx c.request c.result ctx' → Inv ⟨ctx', calls ++ [c]⟩)
    (hop : ∀ ctx ctx' calls a op, Inv ⟨ctx, calls⟩ → ctx.mapOp a op = some ctx' →
      Inv ⟨ctx', calls⟩)
    (h h' : History) (e : LoadEvent) (hinv : Inv h) (hstep : loadStep A h e = some h') :
    Inv h' := by
  cases e with
  | load vm base buffer main =>
      simp only [loadStep, Option.map_eq_some_iff] at hstep
      rcases hstep with ⟨loaded, hload, hh⟩
      rw [← hh]
      exact callsFrom_invariant A Inv hcall loaded.calls h.ctx loaded.ctx h.calls hinv
        (ubpfLoadElfEx_calls _ _ _ _ _ _ loaded hload)
  | op a op =>
      simp only [loadStep, Option.map_eq_some_iff] at hstep
      rcases hstep with ⟨ctx', hmapOp, hh⟩
      rw [← hh]
      exact hop h.ctx ctx' h.calls a op hinv hmapOp

/-- A property that every call and every operation keep, and that a new
    context has, holds after every run. -/
theorem history_invariant (Inv : History → Prop) (hnew : Inv History.new)
    (hcall : ∀ ctx ctx' calls c, Inv ⟨ctx, calls⟩ →
      Relocates A ctx c.request c.result ctx' → Inv ⟨ctx', calls ++ [c]⟩)
    (hop : ∀ ctx ctx' calls a op, Inv ⟨ctx, calls⟩ → ctx.mapOp a op = some ctx' →
      Inv ⟨ctx', calls⟩)
    (es : List LoadEvent) (h : History)
    (hrun : Steps.run (loadStep A) History.new es = some h) : Inv h :=
  Steps.run_invariant (loadStep A) Inv
    (fun h e h' hinv hstep => history_step A Inv hcall hop h h' e hinv hstep)
    es History.new h hnew hrun

/-- Every context an element ever has is in order. -/
theorem ctxInv_history (es : List LoadEvent) (h : History)
    (hrun : Steps.run (loadStep A) History.new es = some h) : CtxInv h.ctx :=
  history_invariant A (fun h => CtxInv h.ctx) ctxInv_empty
    (fun ctx ctx' _ c hinv hc => ctxInv_relocates A ctx ctx' c.request c.result hinv hc)
    (fun ctx ctx' _ a op hinv hop => ctxInv_mapOp ctx ctx' a op hinv hop) es h hrun

/-- A program's operations, as events. -/
theorem run_ops (ops : List (Addr × MapOp)) : ∀ (ctx ctx' : BpfMapCtx) (calls : List RelocCall),
    runOps ctx ops = some ctx' →
      Steps.run (loadStep A) ⟨ctx, calls⟩ (ops.map fun o => .op o.1 o.2) = some ⟨ctx', calls⟩ := by
  induction ops with
  | nil =>
      intro ctx ctx' calls h
      simp only [runOps, Option.some.injEq] at h
      rw [h]
      rfl
  | cons o ops ih =>
      intro ctx ctx' calls h
      rcases o with ⟨a, op⟩
      simp only [runOps] at h
      cases hop : ctx.mapOp a op with
      | none =>
          rw [hop] at h
          exact absurd h (by simp only [reduceCtorEq, not_false_eq_true])
      | some mid =>
          rw [hop] at h
          have hstep : loadStep A ⟨ctx, calls⟩ (.op a op) = some ⟨mid, calls⟩ := by
            simp only [loadStep, hop, Option.map_some]
          rw [List.map_cons, Steps.run_cons _ _ _ _ _ hstep]
          exact ih mid ctx' calls h

variable (P : Platform) (cls : ElementClass)

/-- The load of a call, as an event. -/
theorem run_loadedBy (w : World) (call : ConfigureCall) (args : ConfArgs)
    (loaded : Loaded BpfMapCtx) (calls : List RelocCall)
    (h : loadedBy P cls w call args = some loaded) :
    Steps.run (loadStep P.allocator) ⟨contextOf w.element, calls⟩
        [.load (unloaded cls w).1 call.instsAddr (fileOf call args w) (some mainName)]
      = some ⟨loaded.ctx, calls ++ loaded.calls⟩ := by
  rw [loadedBy, load] at h
  simp only [Steps.run, loadStep, h, Option.map_some]

/-- What an element does is a run of loads and operations on its map
    context. -/
theorem step_history (w w' : World) (e : Event) (calls : List RelocCall)
    (h : step P cls w e = some w') :
    ∃ es calls', Steps.run (loadStep P.allocator) ⟨contextOf w.element, calls⟩ es
      = some ⟨contextOf w'.element, calls'⟩ := by
  cases e with
  | push p =>
      rcases step_push P cls w p w' h with ⟨ctx, ops, hops, hw⟩
      cases hvm : w.element.vm with
      | none =>
          refine ⟨[], calls, ?_⟩
          simp only [hw, contextOf, hvm, Option.isSome_none, Bool.false_eq_true, if_false,
            Steps.run]
      | some vm =>
          refine ⟨ops.map fun o => .op o.1 o.2, calls, ?_⟩
          simp only [hw, contextOf, hvm, Option.isSome_some, if_true]
          exact run_ops P.allocator ops w.element.mapCtx ctx calls hops
  | configure call =>
      rcases (step_configure P cls w call w').mp h with ⟨r, hr⟩
      cases hr with
      | noArguments hconf => exact ⟨[], calls, rfl⟩
      | badArguments hconf hparse => exact ⟨[], calls, rfl⟩
      | unreadable args hconf hparse hfile => exact ⟨[], calls, rfl⟩
      | noVm args hconf hparse hfile hvm hcreated => exact ⟨[], calls, rfl⟩
      | loadFailed args loaded e hin hload herror =>
          exact ⟨_, _, run_loadedBy P cls w call args loaded calls hload⟩
      | rejected args loaded hin hload herror hsig =>
          exact ⟨_, _, run_loadedBy P cls w call args loaded calls hload⟩
      | compileFailed args loaded e hin hload herror hsig hjit hcompile =>
          exact ⟨_, _, run_loadedBy P cls w call args loaded calls hload⟩
      | interpreted args loaded hin hload herror hsig hjit =>
          exact ⟨_, _, run_loadedBy P cls w call args loaded calls hload⟩
      | compiled args loaded hin hload herror hsig hjit hcompile =>
          exact ⟨_, _, run_loadedBy P cls w call args loaded calls hload⟩

/-- Every context an element comes to have is the end of such a run. -/
theorem reachable_history (junk : Uninit) (as : AddressSpace) (w : World)
    (h : Steps.Reachable (step P cls) ⟨.new junk, as⟩ w) :
    ∃ es calls, Steps.run (loadStep P.allocator) History.new es
      = some ⟨contextOf w.element, calls⟩ := by
  refine h.invariant (fun w => ∃ es calls, Steps.run (loadStep P.allocator) History.new es
    = some ⟨contextOf w.element, calls⟩) ⟨[], [], rfl⟩ ?_
  rintro w e w' ⟨es, calls, hes⟩ hstep
  rcases step_history P cls w w' e calls hstep with ⟨fs, calls', hfs⟩
  exact ⟨es ++ fs, calls', (Steps.run_append _ _ _ es fs hes).trans hfs⟩

/-! ## A sample program -/

section Sample

open LittleEndian

/-- A `struct bpf_map_def` in a file. -/
def sampleMapDef (type keySize valueSize maxEntries : Nat) : Bytes :=
  toLE 4 type ++ toLE 4 keySize ++ toLE 4 valueSize ++ toLE 4 maxEntries ++ List.replicate 12 0

/-- A hash map of 16 entries of four bytes. -/
def sampleHash : Bytes := sampleMapDef mapTypeHash 4 4 16

/-- An object whose `main` loads the address of `m`, a symbol of the given size
    at the start of a data section. -/
def mapObject (symbolSize : Nat) (data : Bytes) : Bytes :=
  elfHeader 5 ++ sectionHeader shtStrtab 0 384 8 0 0 ++ sectionHeader shtSymtab 0 392 48 0 0 ++
    sectionHeader shtProgbits (shfAlloc + shfExecinstr) 440 32 0 0 ++
    sectionHeader shtProgbits (shfAlloc + shfWrite) 472 data.length 0 0 ++
    sectionHeader shtRel 0 (472 + data.length) 16 1 2 ++
    ([0] ++ mainName ++ [0, 0x6d, 0]) ++ symbol 1 2 2 0 32 ++ symbol 6 1 3 0 symbolSize ++
    [0xb7, 0, 0, 0, 0, 0, 0, 0, 0x18, 1, 0, 0, 0, 0, 0, 0, 0, 0, 0, 0, 0, 0, 0, 0,
      0x95, 0, 0, 0, 0, 0, 0, 0] ++
    data ++ (toLE 8 8 ++ toLE 8 (2 ^ 32 + 1))

/-- The load of a file, always into the same buffer. -/
def sampleLoad (elf : Bytes) : LoadEvent :=
  .load (initUbpfVm .bpfilter) 0x200000 (sampleBuffer elf) (some mainName)

def sampleAllocator : Allocator Obj :=
  Heap.firstFit 0x10000 0x1000 Heap.page_pos Heap.page_le

end Sample

end UniBPF
