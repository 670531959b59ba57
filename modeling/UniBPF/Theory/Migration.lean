import Mathlib.Data.List.Nodup
import UniBPF.Core.Migration
import UniBPF.Theory.Retention

/-!
# Counting Across Versions

The count survives the change of the program because the maps do: a load of
the second version finds the map of the first under its name, makes the two
new ones, and every later load finds all three. So there are two states an
element with the second version can be in. Either no packet has come since
the change, and the old count is where the first version left it, or one has,
and the count is in the new map for good (`CountingV2`).

A packet leads from the first to the second of these states, and from the
second to itself. A load leads from each to itself.

The new count has 64 bits, and it wraps like the old one: the `2 ^ 64`-th
packet is counted as none, and let through.

## Main definitions

* `Bound`: What the loads of a version do to the maps.
* `CellAt`: The element of a map.
* `CountingV1`, `CountingV2`: The states of an element that counts.
* `answerAt`: The answer to a packet by its place in the run.

## Theorems

* `bound_load`: A load of a version.
* `getElem0_cell`, `setElem0_cell`: Reading and writing the element of a map.
* `countingV1_packet`, `countingV2_packet`, `countingV2_load`: The steps.
* `counting_run`: Whole runs.
* `migration_counts`: Every packet is counted once.
-/

namespace UniBPF

open LittleEndian

section Loads

variable (A : Allocator Obj) (v : Version)

/-- Names of this version lead to maps with the definition it has for them. -/
def Named (v : Version) (ctx : BpfMapCtx) : Prop :=
  ∀ e ∈ v.maps, ∀ a, ctx.mapByName e.1 = some a → ∃ map, ctx.mapAt a = some map ∧ map.defn = e.2

/-- A map as it is made for a definition. -/
def freshMap (d : MapDef) : BpfMap :=
  ⟨d, .array (List.replicate (d.maxEntries * d.valueSize) 0)⟩

/-- What the relocations of a version do: they keep what there is, and a name
    that is new leads to a new map. -/
structure Bound (v : Version) (ctx ctx' : BpfMapCtx) : Prop where
  grows : Grows ctx ctx'
  inv : CtxInv ctx'
  named : Named v ctx'
  fresh : ∀ name a, ctx'.mapByName name = some a → ctx.mapByName name = none →
    ∃ d, (name, d) ∈ v.maps ∧ ctx'.mapAt a = some (freshMap d)

theorem Bound.refl (ctx : BpfMapCtx) (hinv : CtxInv ctx) (hnamed : Named v ctx) :
    Bound v ctx ctx := by
  refine ⟨.refl ctx, hinv, hnamed, ?_⟩
  intro name a hbound hfree
  rw [hfree] at hbound
  exact absurd hbound (by simp only [reduceCtorEq, not_false_eq_true])

theorem Bound.trans (ctx mid ctx' : BpfMapCtx) (h : Bound v ctx mid) (h' : Bound v mid ctx') :
    Bound v ctx ctx' := by
  refine ⟨h.grows.trans h'.grows, h'.inv, h'.named, ?_⟩
  intro name a hbound hfree
  cases hmid : mid.mapByName name with
  | none => exact h'.fresh name a hbound hmid
  | some b =>
      -- It was new in the first half, and has not changed in the second.
      have hsame : b = a := by
        have hlater := h'.grows.names name b hmid
        rw [hbound] at hlater
        exact (Option.some.inj hlater).symm
      rcases h.fresh name b hmid hfree with ⟨d, hd, hmap⟩
      rw [← hsame]
      exact ⟨d, hd, h'.grows.maps b _ hmap⟩

/-- Every map of the two versions is an array. -/
theorem newMapData_maps (name : Bytes) (d : MapDef) (h : (name, d) ∈ v.maps) :
    newMapData d = some (.array (List.replicate (d.maxEntries * d.valueSize) 0)) := by
  have hcases : d = counterDef32 ∨ d = counterDef64 := by
    cases v with
    | v1 =>
        simp only [Version.maps, List.mem_cons, Prod.mk.injEq, List.not_mem_nil, or_false] at h
        exact .inl h.2
    | v2 =>
        simp only [Version.maps, List.mem_cons, Prod.mk.injEq, List.not_mem_nil, or_false] at h
        rcases h with ⟨-, hd⟩ | ⟨-, hd⟩ | ⟨-, hd⟩
        · exact .inr hd
        · exact .inl hd
        · exact .inr hd
  rcases hcases with hd | hd
  · rw [hd]
    rfl
  · rw [hd]
    rfl

/-- A version has one definition for each name. -/
theorem maps_functional (name : Bytes) (d e : MapDef) (hd : (name, d) ∈ v.maps)
    (he : (name, e) ∈ v.maps) : d = e := by
  have hnodup : (v.maps.map Prod.fst).Nodup := by
    cases v with
    | v1 => decide
    | v2 => decide
  exact congrArg Prod.snd (List.inj_on_of_nodup_map hnodup hd he rfl)

/-- A relocation of a version, taken apart. -/
theorem requests_cases (r : RelocRequest) (h : v.requests r = true) :
    r.symbolSize = 0 ∨ (sizeofMapDef ≤ r.symbolSize ∧
      ∃ d, r.mapDefinition = some d ∧ (r.symbolName, d) ∈ v.maps) := by
  unfold Version.requests at h
  rcases (Bool.or_eq_true _ _).mp h with hzero | hmap
  · exact .inl (beq_iff_eq.mp hzero)
  · rcases (Bool.and_eq_true _ _).mp hmap with ⟨hsize, hdef⟩
    refine .inr ⟨of_decide_eq_true hsize, ?_⟩
    split at hdef
    · rename_i d hd
      exact ⟨d, hd, List.contains_iff_mem.mp hdef⟩
    · exact absurd hdef Bool.false_ne_true

/-- One relocation of a version. A map is answered with its address. -/
theorem bound_call (ctx ctx' : BpfMapCtx) (r : RelocRequest) (x : Nat) (hinv : CtxInv ctx)
    (hnamed : Named v ctx) (hr : v.requests r = true) (h : Relocates A ctx r x ctx') :
    Bound v ctx ctx' ∧ (r.symbolSize ≠ 0 → ctx'.mapByName r.symbolName = some x) := by
  have hinv' := ctxInv_relocates A ctx ctx' r x hinv h
  have hgrows := relocates_grows A ctx ctx' r x h
  have hrequest := requests_cases v r hr
  cases h with
  | sectionKnown mem hsize hknown =>
      exact ⟨.refl v ctx hinv hnamed, fun hne => absurd hsize hne⟩
  | sectionCopied mem hsize hnew halloc =>
      refine ⟨⟨hgrows, hinv', ?_, ?_⟩, fun hne => absurd hsize hne⟩
      · intro e he a hbound
        rcases hnamed e he a hbound with ⟨map, hmap, hdefn⟩
        exact ⟨map, hgrows.maps a map hmap, hdefn⟩
      · intro name a hbound hfree
        have hsame : (ctx.addSection r mem).mapByName name = ctx.mapByName name := rfl
        rw [hsame, hfree] at hbound
        exact absurd hbound (by simp only [reduceCtorEq, not_false_eq_true])
  | tooSmall d hsize hdef hsmall =>
      rcases hrequest with hzero | ⟨hbig, -⟩
      · exact absurd hzero hsize
      · exact absurd hsmall (Nat.not_lt.mpr hbig)
  | found d _ map hsize hdef hbound hmap hsame =>
      exact ⟨.refl v ctx hinv hnamed, fun _ => hbound⟩
  | redefined d a map hsize hdef hbound hmap hsame =>
      -- The map under the name has the definition the version has for it.
      rcases hrequest with hzero | ⟨-, d', hdef', hmem⟩
      · rw [hzero] at hsize
        exact absurd hsize (by decide)
      · rcases hnamed _ hmem a hbound with ⟨map', hmap', hdefn⟩
        rw [hmap, Option.some.injEq] at hmap'
        rw [hdef, Option.some.injEq] at hdef'
        rw [hmap', hdefn, hdef'] at hsame
        simp only [MapDef.same, beq_self_eq_true, Bool.and_self, Bool.true_eq_false] at hsame
  | unsupported d hsize hdef hnew hdata =>
      rcases hrequest with hzero | ⟨-, d', hdef', hmem⟩
      · rw [hzero] at hsize
        exact absurd hsize (by decide)
      · rw [hdef, Option.some.injEq] at hdef'
        rw [hdef', newMapData_maps v _ d' hmem] at hdata
        exact absurd hdata (by simp only [reduceCtorEq, not_false_eq_true])
  | created d data _ hsize hdef hnew hdata halloc =>
      rcases hrequest with hzero | ⟨-, d', hdef', hmem⟩
      · rw [hzero] at hsize
        exact absurd hsize (by decide)
      · rw [hdef, Option.some.injEq] at hdef'
        rw [← hdef'] at hmem
        rw [newMapData_maps v _ d hmem, Option.some.injEq] at hdata
        have hnow : (ctx.addMap r.symbolName ⟨d, data⟩ x).mapAt x = some (freshMap d) := by
          rw [mapAt_eq_some, freshMap, hdata]
          exact Function.update_self ..
        have hself : (ctx.addMap r.symbolName ⟨d, data⟩ x).mapByName r.symbolName = some x :=
          Function.update_self ..
        have hother : ∀ name, name ≠ r.symbolName →
            (ctx.addMap r.symbolName ⟨d, data⟩ x).mapByName name = ctx.mapByName name :=
          fun name hne => Function.update_of_ne hne ..
        refine ⟨⟨hgrows, hinv', ?_, ?_⟩, fun _ => hself⟩
        · intro e he a hbound
          by_cases hname : e.1 = r.symbolName
          · rw [hname, hself, Option.some.injEq] at hbound
            have hdefn : d = e.2 := maps_functional v r.symbolName d e.2 hmem
              (by rw [← hname]; exact he)
            rw [← hbound]
            exact ⟨freshMap d, hnow, hdefn⟩
          · rw [hother e.1 hname] at hbound
            rcases hnamed e he a hbound with ⟨map, hmap, hdefn⟩
            exact ⟨map, hgrows.maps a map hmap, hdefn⟩
        · intro name a hbound hfree
          by_cases hname : name = r.symbolName
          · rw [hname, hself, Option.some.injEq] at hbound
            rw [hname, ← hbound]
            exact ⟨d, hmem, hnow⟩
          · rw [hother name hname, hfree] at hbound
            exact absurd hbound (by simp only [reduceCtorEq, not_false_eq_true])

/-- The relocations of a load of a version. -/
theorem bound_calls (calls : List RelocCall) : ∀ ctx ctx' : BpfMapCtx, CtxInv ctx → Named v ctx →
    (∀ c ∈ calls, v.requests c.request = true) → CallsFrom (doMapRelocation A) ctx calls ctx' →
    Bound v ctx ctx' ∧ ∀ c ∈ calls, c.request.symbolSize ≠ 0 →
      ctx'.mapByName c.request.symbolName = some c.result := by
  induction calls with
  | nil =>
      intro ctx ctx' hinv hnamed _ hcalls
      have hctx : ctx' = ctx := hcalls
      rw [hctx]
      exact ⟨.refl v ctx hinv hnamed, fun c hc => absurd hc List.not_mem_nil⟩
  | cons c calls ih =>
      intro ctx ctx' hinv hnamed hrequests hcalls
      rcases hcalls with ⟨mid, hcall, hrest⟩
      rcases bound_call A v ctx mid c.request c.result hinv hnamed
        (hrequests c List.mem_cons_self)
        (relocates_of_doMapRelocation A ctx mid c.request c.result hcall) with ⟨hfirst, hanswer⟩
      rcases ih mid ctx' hfirst.inv hfirst.named
        (fun d hd => hrequests d (List.mem_cons_of_mem c hd)) hrest with ⟨hlater, hanswers⟩
      refine ⟨hfirst.trans v ctx mid ctx' hlater, ?_⟩
      intro d hd hsize
      rcases List.mem_cons.mp hd with heq | hmem
      · rw [heq] at hsize ⊢
        exact hlater.grows.names _ _ (hanswer hsize)
      · exact hanswers d hmem hsize

/-- A load of a version: the code has the address of each of its maps. -/
theorem bound_load (s s' : Filtering) (file : LoadFile) (hinv : CtxInv s.ctx)
    (hnamed : Named v s.ctx) (h : loadVersion A s v file = some s') :
    Bound v s.ctx s'.ctx ∧ s'.answers = s.answers ∧ s'.copies = s.copies ∧
      ∃ calls, s'.program = some ⟨v, calls⟩ ∧
        ∀ e ∈ v.maps, s'.ctx.mapByName e.1 = some (addressIn calls e.1) := by
  unfold loadVersion at h
  split at h
  · exact absurd h (by simp only [reduceCtorEq, not_false_eq_true])
  · rename_i loaded hload
    split at h
    · rename_i hok
      rcases (Bool.and_eq_true _ _).mp hok with ⟨-, hbound⟩
      rcases (Bool.and_eq_true _ _).mp hbound with ⟨hrequests, hevery⟩
      have hcalls := ubpfLoadElfEx_calls _ _ _ _ _ _ loaded hload
      rcases bound_calls A v loaded.calls s.ctx loaded.ctx hinv hnamed
        (List.all_eq_true.mp hrequests) hcalls with ⟨hmaps, hanswers⟩
      rw [← Option.some.inj h]
      refine ⟨hmaps, rfl, rfl, loaded.calls, rfl, ?_⟩
      intro e he
      have hfound : (loaded.calls.find? (fun c => c.isFor e.1)).isSome = true := by
        rw [List.find?_isSome]
        exact List.any_eq_true.mp (List.all_eq_true.mp hevery e he)
      rcases Option.isSome_iff_exists.mp hfound with ⟨c, hc⟩
      have hfor := List.find?_some hc
      rcases (Bool.and_eq_true _ _).mp hfor with ⟨hsize, hname⟩
      have hanswer := hanswers c (List.mem_of_find?_eq_some hc) (bne_iff_ne.mp hsize)
      rw [beq_iff_eq.mp hname] at hanswer
      rw [addressIn, hc]
      exact hanswer
    · exact absurd h (by simp only [reduceCtorEq, not_false_eq_true])

end Loads

/-- The map at an address is an array with one element, and this is the
    element. -/
structure Cell (ctx : BpfMapCtx) (a : Addr) (d : MapDef) (bytes : Bytes) : Prop where
  map : ctx.mapAt a = some ⟨d, .array bytes⟩
  type : d.type = mapTypeArray
  size : bytes.length = d.valueSize

/-- The same by the name of the map. -/
def CellAt (ctx : BpfMapCtx) (name : Bytes) (d : MapDef) (bytes : Bytes) : Prop :=
  ∃ a, ctx.mapByName name = some a ∧ Cell ctx a d bytes

section Cells

variable (ctx ctx' : BpfMapCtx) (a : Addr) (d : MapDef) (bytes : Bytes)

/-- The element is at the start of the block. -/
theorem arrayOffset_zero (map : BpfMap) : arrayOffset map (toLE 4 0) = 0 := by
  have hkey : readLE (toLE 4 0) 0 4 = 0 := rfl
  rw [arrayOffset, hkey, Nat.zero_mul, Nat.zero_mod]

theorem getElem0_cell (h : Cell ctx a d bytes) : getElem0 ctx a = some (some bytes) := by
  have htype : ¬ d.type = mapTypeHash := by
    rw [h.type]
    decide
  simp only [getElem0, h.map, bpfMapLookupElem, if_neg htype, if_pos h.type, arrayOffset_zero,
    Nat.zero_add, h.size, le_refl, if_true, List.drop_zero]
  rw [List.take_of_length_le (by rw [h.size])]

/-- Writing the element changes that map and no other. -/
theorem setElem0_cell (new : Bytes) (h : Cell ctx a d bytes) (hnew : new.length = d.valueSize) :
    ∃ ctx', setElem0 ctx a new = some ctx' ∧ ctx'.mapByName = ctx.mapByName ∧ Cell ctx' a d new ∧
      ∀ b, b ≠ a → ctx'.mapAt b = ctx.mapAt b := by
  have hwrite : applyMapOp ⟨d, .array bytes⟩ (.write (toLE 4 0) 0 new) = some ⟨d, .array new⟩ := by
    have hwhole : overwrite bytes 0 new = new := by
      rw [overwrite, List.take_zero, List.nil_append, Nat.zero_add,
        List.drop_of_length_le (by rw [h.size, hnew]), List.append_nil]
    simp only [applyMapOp, writeThrough, arrayOffset_zero, Nat.zero_add, hnew, h.size, le_refl,
      if_true, hwhole]
  refine ⟨{ ctx with heap := Function.update ctx.heap a (some (.bpfMap ⟨d, .array new⟩)) }, ?_, rfl,
    ⟨?_, h.type, hnew⟩, ?_⟩
  · simp only [setElem0, BpfMapCtx.mapOp, h.map, hwrite]
  · rw [mapAt_update, if_pos rfl]
  · intro b hb
    rw [mapAt_update, if_neg hb]

theorem Cell.grows (h : Cell ctx a d bytes) (hgrows : Grows ctx ctx') : Cell ctx' a d bytes :=
  ⟨hgrows.maps a _ h.map, h.type, h.size⟩

theorem CellAt.grows (name : Bytes) (h : CellAt ctx name d bytes) (hgrows : Grows ctx ctx') :
    CellAt ctx' name d bytes := by
  rcases h with ⟨a, hbound, hcell⟩
  exact ⟨a, hgrows.names name a hbound, hcell.grows ctx ctx' a d bytes hgrows⟩

theorem getElem0_cellAt (name : Bytes) (h : CellAt ctx name d bytes)
    (hbound : ctx.mapByName name = some a) : getElem0 ctx a = some (some bytes) := by
  rcases h with ⟨b, hb, hcell⟩
  rw [hbound, Option.some.injEq] at hb
  rw [← hb] at hcell
  exact getElem0_cell ctx a d bytes hcell

/-- Writing the element of a map by its name. The other names lead to other
    maps, so their elements stay. -/
theorem setElem0_cellAt (name : Bytes) (new : Bytes) (hinv : CtxInv ctx)
    (h : CellAt ctx name d bytes)
    (hbound : ctx.mapByName name = some a) (hnew : new.length = d.valueSize) :
    ∃ ctx', setElem0 ctx a new = some ctx' ∧ ctx'.mapByName = ctx.mapByName ∧ CtxInv ctx' ∧
      CellAt ctx' name d new ∧
      ∀ other d' bytes', other ≠ name → CellAt ctx other d' bytes' →
      CellAt ctx' other d' bytes' := by
  rcases h with ⟨b, hb, hcell⟩
  rw [hbound, Option.some.injEq] at hb
  rw [← hb] at hcell
  rcases setElem0_cell ctx a d bytes new hcell hnew with ⟨ctx', hset, hnames, hcell', hkept⟩
  refine ⟨ctx', hset, hnames, ctxInv_mapOp ctx ctx' a _ hinv hset, ⟨a, ?_, hcell'⟩, ?_⟩
  · rw [hnames]
    exact hbound
  · intro other d' bytes' hother hcells
    rcases hcells with ⟨c, hc, hmap, htype, hsize⟩
    refine ⟨c, by rw [hnames]; exact hc, ?_, htype, hsize⟩
    rw [hkept c]
    · exact hmap
    · intro heq
      rw [heq] at hc
      exact hother (hinv.injective other name a hc hbound)

/-- A name that a load of a version has made leads to an element that is
    zero. -/
theorem cellAt_fresh (v : Version) (name : Bytes) (h : Bound v ctx ctx') (hd : (name, d) ∈ v.maps)
    (hone : d.maxEntries = 1) (htype : d.type = mapTypeArray) (hfree : ctx.mapByName name = none)
    (hbound : ctx'.mapByName name = some a) :
    CellAt ctx' name d (List.replicate d.valueSize 0) := by
  rcases h.fresh name a hbound hfree with ⟨d', hd', hmap⟩
  rw [maps_functional v name d' d hd' hd, freshMap, hone, Nat.one_mul] at hmap
  exact ⟨a, hbound, hmap, htype, List.length_replicate⟩

end Cells

/-- The answer to a packet that has this many before it. -/
def answerAt (k : Nat) : FilterResult :=
  if 10 < (k + 1) % 2 ^ 64 then .drop else .pass

/-- The first version, after `n` packets. -/
structure CountingV1 (s : Filtering) (n : Nat) : Prop where
  inv : CtxInv s.ctx
  program : ∃ calls, s.program = some ⟨.v1, calls⟩ ∧
    s.ctx.mapByName packetCtrV1 = some (addressIn calls packetCtrV1)
  names : ∀ name a, s.ctx.mapByName name = some a → name = packetCtrV1
  counter : CellAt s.ctx packetCtrV1 counterDef32 (toLE 4 n)
  answers : s.answers = (List.range n).map answerAt
  copies : s.copies = 0

/-- The second version, after `total` packets of which the first version saw
    `n`: the count has been carried over, or no packet has come since. -/
structure CountingV2 (s : Filtering) (n total : Nat) : Prop where
  inv : CtxInv s.ctx
  program : ∃ calls, s.program = some ⟨.v2, calls⟩ ∧
    ∀ e ∈ Version.v2.maps, s.ctx.mapByName e.1 = some (addressIn calls e.1)
  old : CellAt s.ctx packetCtrV1 counterDef32 (toLE 4 n)
  count : (CellAt s.ctx packetCtrV2 counterDef64 (toLE 8 0) ∧
      CellAt s.ctx versionName counterDef64 (toLE 8 0) ∧ total = n ∧ s.copies = 0) ∨
    (CellAt s.ctx packetCtrV2 counterDef64 (toLE 8 (total % 2 ^ 64)) ∧
      CellAt s.ctx versionName counterDef64 (toLE 8 2) ∧ n < total ∧ s.copies = 1)
  answers : s.answers = (List.range total).map answerAt

/-- One more answer. -/
theorem answers_succ (answers : List FilterResult) (k : Nat)
    (h : answers = (List.range k).map answerAt) :
    answers ++ [answerAt k] = (List.range (k + 1)).map answerAt := by
  rw [h, List.range_succ, List.map_append, List.map_singleton]

section Steps

variable (A : Allocator Obj) (s s' : Filtering) (file : LoadFile) (n total : Nat)

theorem countingV1_load (h : filterStep A .new (.load .v1 file) = some s') : CountingV1 s' 0 := by
  have hnamed : Named .v1 BpfMapCtx.empty := by
    intro e _ a hbound
    exact absurd hbound (by simp only [BpfMapCtx.empty, reduceCtorEq, not_false_eq_true])
  rcases bound_load A .v1 .new s' file ctxInv_empty hnamed h with
    ⟨hbound, hanswers, hcopies, calls, hprogram, haddress⟩
  have hname := haddress (packetCtrV1, counterDef32) List.mem_cons_self
  refine ⟨hbound.inv, ⟨calls, hprogram, hname⟩, ?_, ?_, hanswers, hcopies⟩
  · intro name a ha
    rcases hbound.fresh name a ha rfl with ⟨d, hd, -⟩
    simp only [Version.maps, List.mem_cons, Prod.mk.injEq, List.not_mem_nil, or_false] at hd
    exact hd.1
  · exact cellAt_fresh _ s'.ctx _ counterDef32 .v1 packetCtrV1 hbound List.mem_cons_self rfl rfl rfl
      hname

theorem countingV1_packet (h : CountingV1 s n) (hn : n + 1 < 2 ^ 32) :
    ∃ s', filterStep A s .packet = some s' ∧ CountingV1 s' (n + 1) := by
  rcases h.program with ⟨calls, hprogram, haddress⟩
  have hread : Bytes.u32 (toLE 4 n) 0 = UInt32.ofNat n := by
    have hback := readLE_toLE 4 n []
    rw [List.append_nil] at hback
    rw [Bytes.u32, hback, Nat.mod_eq_of_lt (by omega)]
  have hcount : (UInt32.ofNat n + 1).toNat = n + 1 := by
    rw [UInt32.toNat_add, UInt32.toNat_ofNat']
    have hone : (1 : UInt32).toNat = 1 := rfl
    omega
  rcases setElem0_cellAt s.ctx _ counterDef32 (toLE 4 n) packetCtrV1 (toLE 4 (n + 1)) h.inv
    h.counter haddress (length_toLE 4 _) with ⟨ctx', hset, hnames, hinv, hcell, -⟩
  -- Below `2 ^ 32` the count is the number of packets.
  have hanswer : (if 10 < UInt32.ofNat n + 1 then FilterResult.drop else .pass) = answerAt n := by
    have hten : (10 : UInt32).toNat = 10 := rfl
    have hmod : (n + 1) % 2 ^ 64 = n + 1 := Nat.mod_eq_of_lt (by omega)
    rw [answerAt, hmod]
    simp only [UInt32.lt_iff_toNat_lt, hcount, hten]
  refine ⟨{ s with ctx := ctx', answers := s.answers ++ [answerAt n] }, ?_, hinv,
    ⟨calls, hprogram, ?_⟩, ?_, hcell, answers_succ s.answers n h.answers, h.copies⟩
  · simp only [filterStep, filterPacket, hprogram, mainV1,
      getElem0_cellAt s.ctx _ counterDef32 _ packetCtrV1 h.counter haddress, hread, hcount, hset,
      Option.map_some, hanswer]
  · simp only [hnames]
    exact haddress
  · simp only [hnames]
    exact h.names

/-- A load of the second version, in a context that has the old count. -/
theorem bound_load_v2 (hinv : CtxInv s.ctx) (hnamed : Named .v2 s.ctx)
    (hold : CellAt s.ctx packetCtrV1 counterDef32 (toLE 4 n))
    (h : filterStep A s (.load .v2 file) = some s') :
    Bound .v2 s.ctx s'.ctx ∧ s'.answers = s.answers ∧ s'.copies = s.copies ∧
      (∃ calls, s'.program = some ⟨.v2, calls⟩ ∧
        ∀ e ∈ Version.v2.maps, s'.ctx.mapByName e.1 = some (addressIn calls e.1)) ∧
      CellAt s'.ctx packetCtrV1 counterDef32 (toLE 4 n) := by
  rcases bound_load A .v2 s s' file hinv hnamed h with ⟨hbound, hanswers, hcopies, hprogram⟩
  exact ⟨hbound, hanswers, hcopies, hprogram, hold.grows _ _ _ _ _ hbound.grows⟩

/-- The change of the program: the old count is kept, and the new maps are
    made. -/
theorem countingV2_change (h : CountingV1 s n) (hload : filterStep A s (.load .v2 file) = some s') :
    CountingV2 s' n n := by
  have h12 : packetCtrV2 ≠ packetCtrV1 := by decide
  have h1v : versionName ≠ packetCtrV1 := by decide
  -- Only the old count is bound before.
  have hfree : ∀ name, name ≠ packetCtrV1 → s.ctx.mapByName name = none := by
    intro name hne
    cases hname : s.ctx.mapByName name with
    | none => rfl
    | some a => exact absurd (h.names name a hname) hne
  have hnamed : Named .v2 s.ctx := by
    intro e he a ha
    have hname := h.names e.1 a ha
    rcases h.counter with ⟨b, hb, hcell⟩
    rw [hname, hb, Option.some.injEq] at ha
    have hdefn : counterDef32 = e.2 := by
      refine maps_functional .v2 packetCtrV1 counterDef32 e.2 (by decide) ?_
      rw [← hname]
      exact he
    rw [← ha]
    exact ⟨_, hcell.map, hdefn⟩
  rcases bound_load_v2 A s s' file n h.inv hnamed h.counter hload with
    ⟨hbound, hanswers, hcopies, ⟨calls, hprogram, haddress⟩, hold⟩
  have hmem2 : (packetCtrV2, counterDef64) ∈ Version.v2.maps := by decide
  have hmemv : (versionName, counterDef64) ∈ Version.v2.maps := by decide
  refine ⟨hbound.inv, ⟨calls, hprogram, haddress⟩, hold, .inl ⟨?_, ?_, rfl, ?_⟩, ?_⟩
  · exact cellAt_fresh s.ctx s'.ctx _ counterDef64 .v2 packetCtrV2 hbound hmem2 rfl rfl
      (hfree packetCtrV2 h12) (haddress _ hmem2)
  · exact cellAt_fresh s.ctx s'.ctx _ counterDef64 .v2 versionName hbound hmemv rfl rfl
      (hfree versionName h1v) (haddress _ hmemv)
  · rw [hcopies, h.copies]
  · rw [hanswers, h.answers]

/-- In an element that counts with the second version the names lead where
    they should. -/
theorem CountingV2.named (h : CountingV2 s n total) : Named .v2 s.ctx := by
  have hcell : ∀ name d bytes, CellAt s.ctx name d bytes → ∀ a, s.ctx.mapByName name = some a →
      ∃ map, s.ctx.mapAt a = some map ∧ map.defn = d := by
    intro name d bytes hcell a ha
    rcases hcell with ⟨b, hb, hcell⟩
    rw [hb, Option.some.injEq] at ha
    rw [← ha]
    exact ⟨_, hcell.map, rfl⟩
  have hnew : ∃ x y, CellAt s.ctx packetCtrV2 counterDef64 x ∧
      CellAt s.ctx versionName counterDef64 y := by
    rcases h.count with ⟨hc, hv, -⟩ | ⟨hc, hv, -⟩
    · exact ⟨_, _, hc, hv⟩
    · exact ⟨_, _, hc, hv⟩
  rcases hnew with ⟨x, y, hc, hv⟩
  intro e he
  simp only [Version.maps, List.mem_cons, List.not_mem_nil, or_false] at he
  rcases he with heq | heq | heq
  · rw [heq]
    exact hcell _ _ x hc
  · rw [heq]
    exact hcell _ _ _ h.old
  · rw [heq]
    exact hcell _ _ y hv

/-- A later load finds the maps as they are. -/
theorem countingV2_load (h : CountingV2 s n total)
    (hload : filterStep A s (.load .v2 file) = some s') : CountingV2 s' n total := by
  rcases bound_load_v2 A s s' file n h.inv (h.named s n total) h.old hload with
    ⟨hbound, hanswers, hcopies, hprogram, hold⟩
  refine ⟨hbound.inv, hprogram, hold, ?_, by rw [hanswers, h.answers]⟩
  rw [hcopies]
  rcases h.count with ⟨hc, hv, htotal, hzero⟩ | ⟨hc, hv, htotal, hone⟩
  · exact .inl ⟨hc.grows _ _ _ _ _ hbound.grows, hv.grows _ _ _ _ _ hbound.grows, htotal, hzero⟩
  · exact .inr ⟨hc.grows _ _ _ _ _ hbound.grows, hv.grows _ _ _ _ _ hbound.grows, htotal, hone⟩

end Steps

section Migrating

variable (ctx : BpfMapCtx) (ctrV2 ctrV1 version : Addr) (n : Nat)

theorem u64_toLE (c : Nat) (hc : c < 2 ^ 64) : Bytes.u64 (toLE 8 c) 0 = UInt64.ofNat c := by
  have hback := readLE_toLE 8 c []
  rw [List.append_nil] at hback
  rw [Bytes.u64, hback, Nat.mod_eq_of_lt (by exact hc)]

/-- Once the flag is set nothing is carried over. -/
theorem handleMigration_done (hv : CellAt ctx versionName counterDef64 (toLE 8 2))
    (hversion : ctx.mapByName versionName = some version) :
    handleMigration ctx ctrV2 ctrV1 version = some ⟨ctx, some false⟩ := by
  have htwo : Bytes.u64 (toLE 8 2) 0 = 2 := rfl
  simp only [handleMigration, getElem0_cellAt ctx version counterDef64 _ versionName hv hversion,
    htwo, ne_eq, not_true_eq_false, if_false]

/-- Before that the old count becomes the new one, and the flag is set. -/
theorem handleMigration_carries (hn : n < 2 ^ 32) (hinv : CtxInv ctx)
    (hold : CellAt ctx packetCtrV1 counterDef32 (toLE 4 n))
    (hc : CellAt ctx packetCtrV2 counterDef64 (toLE 8 0))
    (hv : CellAt ctx versionName counterDef64 (toLE 8 0))
    (h2 : ctx.mapByName packetCtrV2 = some ctrV2) (h1 : ctx.mapByName packetCtrV1 = some ctrV1)
    (hversion : ctx.mapByName versionName = some version) :
    ∃ ctx', handleMigration ctx ctrV2 ctrV1 version = some ⟨ctx', some true⟩ ∧
      ctx'.mapByName = ctx.mapByName ∧ CtxInv ctx' ∧
      CellAt ctx' packetCtrV1 counterDef32 (toLE 4 n) ∧
      CellAt ctx' packetCtrV2 counterDef64 (toLE 8 n) ∧
      CellAt ctx' versionName counterDef64 (toLE 8 2) := by
  have hzero : Bytes.u64 (toLE 8 0) 0 ≠ 2 := by decide
  have hread : (Bytes.u32 (toLE 4 n) 0).toNat = n := by
    have hback := readLE_toLE 4 n []
    rw [List.append_nil] at hback
    rw [Bytes.u32, hback, UInt32.toNat_ofNat']
    omega
  rcases setElem0_cellAt ctx ctrV2 counterDef64 _ packetCtrV2 (toLE 8 n) hinv hc h2
    (length_toLE 8 n) with ⟨mid, hset, hnames, hinv₁, hc₁, hkept₁⟩
  have hv₁ := hkept₁ versionName counterDef64 _ (by decide) hv
  have hold₁ := hkept₁ packetCtrV1 counterDef32 _ (by decide) hold
  rcases setElem0_cellAt mid version counterDef64 _ versionName (toLE 8 2) hinv₁ hv₁
    (by rw [hnames]; exact hversion)
    (length_toLE 8 2) with ⟨ctx', hset', hnames', hinv₂, hv₂, hkept₂⟩
  refine ⟨ctx', ?_, hnames'.trans hnames, hinv₂, hkept₂ packetCtrV1 counterDef32 _ (by decide)
    hold₁, hkept₂ packetCtrV2 counterDef64 _ (by decide) hc₁, hv₂⟩
  simp only [handleMigration, getElem0_cellAt ctx version counterDef64 _ versionName hv hversion,
    getElem0_cellAt ctx ctrV1 counterDef32 _ packetCtrV1 hold h1,
    getElem0_cellAt ctx ctrV2 counterDef64 _ packetCtrV2 hc h2, if_pos hzero, hread, hset, hset',
    Option.map_some]

/-- What is left of the program after that: the packet is counted. -/
theorem mainV2_counts (ctx' : BpfMapCtx) (copied : Bool) (total : Nat)
    (hmigrated : handleMigration ctx ctrV2 ctrV1 version = some ⟨ctx', some copied⟩)
    (hinv : CtxInv ctx') (hc : CellAt ctx' packetCtrV2 counterDef64 (toLE 8 (total % 2 ^ 64)))
    (h2 : ctx'.mapByName packetCtrV2 = some ctrV2) :
    ∃ ctx'', mainV2 ctx ctrV2 ctrV1 version = some (ctx'', answerAt total, copied) ∧
      ctx''.mapByName = ctx'.mapByName ∧ CtxInv ctx'' ∧
      CellAt ctx'' packetCtrV2 counterDef64 (toLE 8 ((total + 1) % 2 ^ 64)) ∧
      ∀ other d bytes, other ≠ packetCtrV2 → CellAt ctx' other d bytes →
      CellAt ctx'' other d bytes := by
  have hcount : (UInt64.ofNat (total % 2 ^ 64) + 1).toNat = (total + 1) % 2 ^ 64 := by
    have hone : (1 : UInt64).toNat = 1 := rfl
    rw [UInt64.toNat_add, UInt64.toNat_ofNat', hone]
    omega
  have hanswer : (if 10 < UInt64.ofNat (total % 2 ^ 64) + 1 then FilterResult.drop else .pass)
      = answerAt total := by
    have hten : (10 : UInt64).toNat = 10 := rfl
    simp only [answerAt, UInt64.lt_iff_toNat_lt, hcount, hten]
  rcases setElem0_cellAt ctx' ctrV2 counterDef64 _ packetCtrV2 (toLE 8 ((total + 1) % 2 ^ 64)) hinv
    hc h2 (length_toLE 8 _) with ⟨ctx'', hset, hnames, hinv', hc', hkept⟩
  refine ⟨ctx'', ?_, hnames, hinv', hc', hkept⟩
  simp only [mainV2, hmigrated, getElem0_cellAt ctx' ctrV2 counterDef64 _ packetCtrV2 hc h2,
    u64_toLE _ (Nat.mod_lt total (by decide)), hcount, hset, Option.map_some, hanswer]

end Migrating

/-- A packet is counted, and the first of them carries the count over. -/
theorem countingV2_packet (A : Allocator Obj) (s : Filtering) (n total : Nat) (hn : n < 2 ^ 32)
    (h : CountingV2 s n total) :
    ∃ s', filterStep A s .packet = some s' ∧ CountingV2 s' n (total + 1) := by
  rcases h.program with ⟨calls, hprogram, haddress⟩
  have h2 := haddress (packetCtrV2, counterDef64) (by decide)
  have h1 := haddress (packetCtrV1, counterDef32) (by decide)
  have hv := haddress (versionName, counterDef64) (by decide)
  have hanswers := answers_succ s.answers total h.answers
  rcases h.count with ⟨hc, hversion, htotal, hcopies⟩ | ⟨hc, hversion, htotal, hcopies⟩
  -- The first packet of the new version carries the count over.
  · rcases handleMigration_carries s.ctx _ _ _ n hn h.inv h.old hc hversion h2 h1 hv with
      ⟨ctx', hmigrated, hnames, hinv, hold', hc', hversion'⟩
    have hmod : n = total % 2 ^ 64 := by omega
    rw [hmod] at hc'
    rcases mainV2_counts s.ctx _ _ _ ctx' true total hmigrated hinv hc'
      (by rw [hnames]; exact h2) with ⟨ctx'', hmain, hnames', hinv', hc'', hkept⟩
    refine ⟨{ s with ctx := ctx'', answers := s.answers ++ [answerAt total],
                        copies := s.copies + 1 },
      ?_, hinv', ⟨calls, hprogram, ?_⟩, hkept packetCtrV1 counterDef32 _ (by decide) hold',
      .inr ⟨hc'',
        hkept versionName counterDef64 _ (by decide) hversion', by omega, congrArg (· + 1) hcopies⟩,
      hanswers⟩
    · simp only [filterStep, filterPacket, hprogram, hmain, Option.map_some, if_true]
    · simp only [hnames', hnames]
      exact haddress
  -- The count was carried over before.
  · have hmigrated := handleMigration_done s.ctx (addressIn calls packetCtrV2)
      (addressIn calls packetCtrV1) _ hversion hv
    rcases mainV2_counts s.ctx _ _ _ s.ctx false total hmigrated h.inv hc h2 with
      ⟨ctx'', hmain, hnames', hinv', hc'', hkept⟩
    refine ⟨{ s with ctx := ctx'', answers := s.answers ++ [answerAt total],
                        copies := s.copies + 0 },
      ?_, hinv', ⟨calls, hprogram, ?_⟩, hkept packetCtrV1 counterDef32 _ (by decide) h.old,
      .inr ⟨hc'',
        hkept versionName counterDef64 _ (by decide) hversion, by omega, hcopies⟩, hanswers⟩
    · simp only [filterStep, filterPacket, hprogram, hmain, Option.map_some, Bool.false_eq_true,
        if_false]
    · simp only [hnames']
      exact haddress

section Runs

variable (A : Allocator Obj) (n : Nat)

def FilterEvent.isPacket : FilterEvent → Bool
  | .load _ _ => false
  | .packet => true

/-- How many packets there are among some events. -/
def packetsIn (es : List FilterEvent) : Nat :=
  es.countP FilterEvent.isPacket

/-- Packets and loads of the second version. -/
def OnlyV2 (es : List FilterEvent) : Prop :=
  ∀ e ∈ es, e = .packet ∨ ∃ file, e = .load .v2 file

/-- Packets the first version sees. -/
theorem countingV1_run (k : Nat) : ∀ (s s' : Filtering) (m : Nat), CountingV1 s m → m + k < 2 ^ 32 →
    Steps.run (filterStep A) s (List.replicate k .packet) = some s' → CountingV1 s' (m + k) := by
  induction k with
  | zero =>
      intro s s' m h _ hrun
      simp only [List.replicate_zero, Steps.run, Option.some.injEq] at hrun
      rw [← hrun]
      exact h
  | succ k ih =>
      intro s s' m h hlt hrun
      rcases countingV1_packet A s m h (by omega) with ⟨mid, hstep, hmid⟩
      rw [List.replicate_succ, Steps.run_cons _ _ _ _ _ hstep] at hrun
      have hend := ih mid s' (m + 1) hmid (by omega) hrun
      rwa [Nat.add_right_comm, Nat.add_assoc] at hend

/-- Packets and loads, from the change of the program on. -/
theorem countingV2_run (hn : n < 2 ^ 32) (es : List FilterEvent) :
    ∀ (s s' : Filtering) (total : Nat),
    CountingV2 s n total → OnlyV2 es → Steps.run (filterStep A) s es = some s' →
    CountingV2 s' n (total + packetsIn es) := by
  induction es with
  | nil =>
      intro s s' total h _ hrun
      simp only [Steps.run, Option.some.injEq] at hrun
      rw [← hrun]
      exact h
  | cons e es ih =>
      intro s s' total h honly hrun
      have hrest : OnlyV2 es := fun d hd => honly d (List.mem_cons_of_mem e hd)
      rcases Steps.run_cons_some (filterStep A) s s' e es hrun with ⟨mid, hstep, htail⟩
      rcases honly e List.mem_cons_self with hpacket | ⟨file, hload⟩
      · rw [hpacket] at hstep ⊢
        rcases countingV2_packet A s n total hn h with ⟨next, hnext, hcounting⟩
        rw [hnext, Option.some.injEq] at hstep
        rw [← hstep] at htail
        have hcount : packetsIn (.packet :: es) = packetsIn es + 1 :=
          List.countP_cons_of_pos rfl
        have hend := ih next s' (total + 1) hcounting hrest htail
        rw [hcount]
        rwa [Nat.add_right_comm, Nat.add_assoc] at hend
      · rw [hload] at hstep ⊢
        have hcount : packetsIn (.load .v2 file :: es) = packetsIn es :=
          List.countP_cons_of_neg Bool.false_ne_true
        rw [hcount]
        exact ih mid s' total (countingV2_load A s mid file n total h hstep) hrest htail

/-- Any number of packets can come. -/
theorem countingV2_packets (hn : n < 2 ^ 32) (k : Nat) : ∀ (s : Filtering) (total : Nat),
    CountingV2 s n total →
    ∃ s', Steps.run (filterStep A) s (List.replicate k .packet) = some s' := by
  induction k with
  | zero =>
      intro s total _
      exact ⟨s, rfl⟩
  | succ k ih =>
      intro s total h
      rcases countingV2_packet A s n total hn h with ⟨mid, hstep, hmid⟩
      rcases ih mid (total + 1) hmid with ⟨s', hrest⟩
      exact ⟨s', by rw [List.replicate_succ, Steps.run_cons _ _ _ _ _ hstep, hrest]⟩

/-- The whole run. -/
theorem counting_run (hn : n < 2 ^ 32) (file₁ file₂ : LoadFile) (es : List FilterEvent)
    (s : Filtering) (honly : OnlyV2 es) (hrun : Steps.run (filterStep A) .new
      (.load .v1 file₁ :: (List.replicate n .packet ++ .load .v2 file₂ :: es)) = some s) :
    CountingV2 s n (n + packetsIn es) := by
  rcases Steps.run_cons_some (filterStep A) _ _ _ _ hrun with ⟨s₁, hload₁, hrest₁⟩
  rcases Steps.run_append_some (filterStep A) _ _ _ _ hrest₁ with ⟨s₂, hpackets, hrest₂⟩
  rcases Steps.run_cons_some (filterStep A) _ _ _ _ hrest₂ with ⟨s₃, hload₂, hrest₃⟩
  have h₁ := countingV1_load A s₁ file₁ hload₁
  have h₂ := countingV1_run A n s₁ s₂ 0 h₁ (by omega) hpackets
  rw [Nat.zero_add] at h₂
  have h₃ := countingV2_change A s₂ s₃ file₂ n h₂ hload₂
  exact countingV2_run A n hn es s₃ s n h₃ honly hrest₃

end Runs

/-- What is in `PACKET_CTR_V2`. -/
def counterV2 (ctx : BpfMapCtx) : Option Nat :=
  match ctx.mapByName packetCtrV2 with
  | none => none
  | some a =>
    match getElem0 ctx a with
    | some (some value) => some (Bytes.u64 value 0).toNat
    | _ => none

theorem counterV2_cellAt (ctx : BpfMapCtx) (c : Nat) (hc : c < 2 ^ 64)
    (h : CellAt ctx packetCtrV2 counterDef64 (toLE 8 c)) : counterV2 ctx = some c := by
  rcases h with ⟨a, hbound, hcell⟩
  have hvalue : (UInt64.ofNat c).toNat = c := by
    rw [UInt64.toNat_ofNat']
    exact Nat.mod_eq_of_lt hc
  simp only [counterV2, hbound, getElem0_cell ctx a _ _ hcell, u64_toLE c hc, hvalue]

/-- Every packet is counted once: in a run that changes from the first version
    to the second after `n` packets, with any number of further loads of the
    second among the packets that follow, the answers are those of one count
    of all packets. Once the second version has seen a packet the count is in
    its map and has been carried over exactly once, and before that it has not
    been. The next packet is always answered. -/
theorem migration_counts (A : Allocator Obj) (n : Nat) (hn : n < 2 ^ 32) (file₁ file₂ : LoadFile)
    (es : List FilterEvent) (s : Filtering) (honly : OnlyV2 es)
    (hrun : Steps.run (filterStep A) .new
      (.load .v1 file₁ :: (List.replicate n .packet ++ .load .v2 file₂ :: es)) = some s) :
    s.answers = (List.range (n + packetsIn es)).map answerAt ∧
      (0 < packetsIn es → counterV2 s.ctx = some ((n + packetsIn es) % 2 ^ 64) ∧ s.copies = 1) ∧
      (packetsIn es = 0 → s.copies = 0) ∧ ∃ s', filterStep A s .packet = some s' := by
  have h := counting_run A n hn file₁ file₂ es s honly hrun
  refine ⟨h.answers, ?_, ?_, ?_⟩
  · intro hpos
    rcases h.count with ⟨-, -, htotal, -⟩ | ⟨hc, -, -, hcopies⟩
    · omega
    · exact ⟨counterV2_cellAt s.ctx _ (Nat.mod_lt _ (by decide)) hc, hcopies⟩
  · intro hzero
    rcases h.count with ⟨-, -, -, hcopies⟩ | ⟨-, -, htotal, -⟩
    · exact hcopies
    · omega
  · rcases countingV2_packet A s n _ hn h with ⟨s', hstep, -⟩
    exact ⟨s', hstep⟩

/-! ## Sample programs -/

section Sample

/-- Where names that follow one another start in a string table. -/
def nameOffsets : Nat → List Bytes → List Nat
  | _, [] => []
  | off, name :: names => off :: nameOffsets (off + name.length + 1) names

/-- An object with the maps of a version: its `main` loads the address of each
    and returns. -/
def versionObject (v : Version) : Bytes :=
  let count := v.maps.length
  let strings := [0] ++ mainName ++ [0] ++ (v.maps.map fun e => e.1 ++ [0]).flatten
  let symbols := symbol 1 2 2 0 (16 * count + 16) ++
    ((nameOffsets 6 (v.maps.map Prod.fst)).zipIdx.map fun e => symbol e.1 1 3 (28 * e.2) 28).flatten
  let text := [0xb7, 0, 0, 0, 0, 0, 0, 0] ++
    (List.replicate count [0x18, 1, 0, 0, 0, 0, 0, 0, 0, 0, 0, 0, 0, 0, 0, 0]).flatten ++
    [0x95, 0, 0, 0, 0, 0, 0, 0]
  let data := (v.maps.map fun e =>
    sampleMapDef e.2.type e.2.keySize e.2.valueSize e.2.maxEntries).flatten
  let rels := ((List.range count).map fun i =>
    toLE 8 (16 * i + 8) ++ toLE 8 (2 ^ 32 * (i + 1) + 1)).flatten
  let symtab := 384 + strings.length
  let code := symtab + symbols.length
  elfHeader 5 ++ sectionHeader shtStrtab 0 384 strings.length 0 0 ++
    sectionHeader shtSymtab 0 symtab symbols.length 0 0 ++
    sectionHeader shtProgbits (shfAlloc + shfExecinstr) code text.length 0 0 ++
    sectionHeader shtProgbits (shfAlloc + shfWrite) (code + text.length) data.length 0 0 ++
    sectionHeader shtRel 0 (code + text.length + data.length) rels.length 1 2 ++
    strings ++ symbols ++ text ++ data ++ rels

def versionFile (v : Version) : LoadFile :=
  ⟨initUbpfVm .bpfilter, 0x200000, sampleBuffer (versionObject v), some mainName⟩

/-- Three packets with the first version and two with the second, which is
    loaded again in between. -/
theorem migration_counts_five : ∃ s, Steps.run (filterStep sampleAllocator) .new
      (.load .v1 (versionFile .v1) :: (List.replicate 3 .packet ++ .load .v2 (versionFile .v2) ::
        [.packet, .load .v2 (versionFile .v2), .packet])) = some s ∧
    s.answers = List.replicate 5 .pass ∧ counterV2 s.ctx = some 5 ∧ s.copies = 1 := by
  have hsome : (Steps.run (filterStep sampleAllocator) .new
      (.load .v1 (versionFile .v1) :: (List.replicate 3 .packet ++ .load .v2 (versionFile .v2) ::
        [.packet, .load .v2 (versionFile .v2), .packet]))).isSome = true := by
    decide +kernel
  rcases Option.isSome_iff_exists.mp hsome with ⟨s, hrun⟩
  have honly : OnlyV2 [.packet, .load .v2 (versionFile .v2), .packet] := by
    intro e he
    simp only [List.mem_cons, List.not_mem_nil, or_false] at he
    rcases he with heq | heq | heq
    · exact .inl heq
    · exact .inr ⟨_, heq⟩
    · exact .inl heq
  rcases migration_counts sampleAllocator 3 (by decide) _ _ _ s honly hrun with
    ⟨hanswers, hcount, -, -⟩
  rcases hcount (by decide) with ⟨hcounter, hcopies⟩
  exact ⟨s, hrun, hanswers, hcounter, hcopies⟩

/-- The `2 ^ 64`-th packet is let through and leaves a count of zero. And
    without a packet after the change nothing is carried over. -/
theorem count_wraps :
    (∃ s, Steps.run (filterStep sampleAllocator) .new (.load .v1 (versionFile .v1) ::
        (List.replicate 0 .packet ++ .load .v2 (versionFile .v2) ::
          List.replicate (2 ^ 64) .packet)) = some s ∧
      s.answers[2 ^ 64 - 1]? = some .pass ∧ counterV2 s.ctx = some 0) ∧
    ∃ s, Steps.run (filterStep sampleAllocator) .new (.load .v1 (versionFile .v1) ::
        (List.replicate 0 .packet ++ .load .v2 (versionFile .v2) :: [])) = some s ∧
      s.copies = 0 := by
  have hsome : (Steps.run (filterStep sampleAllocator) .new (.load .v1 (versionFile .v1) ::
      (List.replicate 0 .packet ++ .load .v2 (versionFile .v2) :: []))).isSome = true := by
    decide +kernel
  rcases Option.isSome_iff_exists.mp hsome with ⟨s, hrun⟩
  have hnone : OnlyV2 [] := fun e he => absurd he List.not_mem_nil
  have hstart := counting_run sampleAllocator 0 (by decide) _ _ [] s hnone hrun
  refine ⟨?_, s, hrun, ?_⟩
  · rcases countingV2_packets sampleAllocator 0 (by decide) (2 ^ 64) s 0 hstart with ⟨t, ht⟩
    have hall := (Steps.run_append (filterStep sampleAllocator) .new s _
      (List.replicate (2 ^ 64) .packet) hrun).trans ht
    have honly : OnlyV2 (List.replicate (2 ^ 64) .packet) :=
      fun e he => .inl (List.eq_of_mem_replicate he)
    have hcount : packetsIn (List.replicate (2 ^ 64) .packet) = 2 ^ 64 := by
      rw [packetsIn, List.countP_replicate]
      exact if_pos rfl
    have h := countingV2_run sampleAllocator 0 (by decide) _ s t 0 hstart honly ht
    rw [hcount, Nat.zero_add] at h
    refine ⟨t, hall, ?_, ?_⟩
    · rw [h.answers, List.getElem?_map, List.getElem?_range (by decide), Option.map_some]
      rfl
    · rcases h.count with ⟨-, -, htotal, -⟩ | ⟨hc, -, -, -⟩
      · exact absurd htotal (by decide)
      · rw [Nat.mod_self] at hc
        exact counterV2_cellAt t.ctx 0 (by decide) hc
  · rcases hstart.count with ⟨-, -, -, hcopies⟩ | ⟨-, -, htotal, -⟩
    · exact hcopies
    · exact absurd htotal (Nat.lt_irrefl _)

end Sample

end UniBPF
