import UniBPF.Theory.Entries
import UniBPF.Theory.Loads

/-!
# Map References in Loaded Programs

A program refers to a map by a double-word load whose two immediates the
loader fills with the halves of the map's address. This module follows the
address from the callback to the register.

The way back is arithmetic. The halves are written into the linked program at
their places (`readLE_patches_same`), later writes leave them alone
(`readLE_patches_disjoint`), and the interpreter puts together what the loader
took apart (`lddw_halves`). So the register gets what the callback returned,
as long as no other relocation writes into the pair (`WrittenOnce`) and the
pair is where an instruction is (`Aligned`). The loader checks neither.

What the callback returned need not be an address. It answers zero for a
symbol that is too small, a map that exists with another definition and a kind
of map it does not support, and the loader takes the zero for an address. Which
requests it accepts can be told from the definitions the context has maps for:
`Accepted` goes through the references of the object with nothing but this
table at hand, and adds to it what each request defines (`known_relocates`).

So the condition for live references is one on the object and the table. It is
enough for every object, and the only way for those whose pairs are written
once.

## Main definitions

* `StandsFor`: The symbol of a request stands for a map.
* `LiveReference`: Executing the pair gives the map the symbol stands for.
* `BpfMapCtx.known`, `declare`: The table of definitions.
* `Accepts`, `Accepted`: The requests that are answered with a map.
* `WrittenOnce`, `Aligned`, `WellReferenced`: The condition on an object.

## Theorems

* `readLE_patches_disjoint`, `readLE_patches_same`: Reading a linked program.
* `lddw_of_call`: The register gets what the callback returned.
* `accepts_or_zero`: A request that is not accepted is answered with zero.
* `known_relocates`: The table follows the context.
* `standsFor_iff_accepted`: The answers of a load are maps exactly when all its
  requests are accepted.
* `map_references_live`: The condition is enough for live references, and
  necessary where pairs are written once.
* `dead_reference_loaded`: A map of an unsupported kind.
-/

namespace UniBPF

open LittleEndian

/-- Other immediates leave a range as it was. -/
theorem readLE_patches_disjoint (ps : List Patch) (off w : Nat) : ∀ code : Bytes,
    (∀ p ∈ ps, p.offset + 4 ≤ code.length) →
    (∀ p ∈ ps, off + w ≤ p.offset ∨ p.offset + 4 ≤ off) →
      readLE (ps.foldl applyPatch code) off w = readLE code off w := by
  induction ps with
  | nil => intro code _ _; rfl
  | cons p ps ih =>
      intro code hin hdis
      have hp := hin p List.mem_cons_self
      have hlen := length_applyPatch code p hp
      have hrest : ∀ q ∈ ps, q.offset + 4 ≤ (applyPatch code p).length := by
        intro q hq
        rw [hlen]
        exact hin q (List.mem_cons_of_mem p hq)
      rw [List.foldl_cons, ih (applyPatch code p) hrest
        (fun q hq => hdis q (List.mem_cons_of_mem p hq))]
      exact readLE_writeLE_disjoint code p.offset 4 p.value off w hp (hdis p List.mem_cons_self)

/-- An immediate is read back, if everything else that was written in its
    place was the same. -/
theorem readLE_patches_same (ps : List Patch) (p : Patch) : ∀ code : Bytes,
    (∀ q ∈ ps, q.offset + 4 ≤ code.length) → p ∈ ps →
    (∀ q ∈ ps, q = p ∨ p.offset + 4 ≤ q.offset ∨ q.offset + 4 ≤ p.offset) →
      readLE (ps.foldl applyPatch code) p.offset 4 = p.value % 2 ^ 32 := by
  induction ps with
  | nil => intro code _ hp _; exact absurd hp List.not_mem_nil
  | cons q ps ih =>
      intro code hin hp hother
      have hq := hin q List.mem_cons_self
      have hlen := length_applyPatch code q hq
      have hrest : ∀ q' ∈ ps, q'.offset + 4 ≤ (applyPatch code q).length := by
        intro q' hq'
        rw [hlen]
        exact hin q' (List.mem_cons_of_mem q hq')
      have hother' := fun q' hq' => hother q' (List.mem_cons_of_mem q hq')
      rw [List.foldl_cons]
      by_cases hlater : p ∈ ps
      · exact ih (applyPatch code q) hrest hlater hother'
      -- This is the last write of `p`, and what follows is elsewhere.
      · have hpq : p = q := by
          rcases List.mem_cons.mp hp with heq | hmem
          · exact heq
          · exact absurd hmem hlater
        have hdis : ∀ q' ∈ ps, p.offset + 4 ≤ q'.offset ∨ q'.offset + 4 ≤ p.offset := by
          intro q' hq'
          rcases hother' q' hq' with heq | hd
          · rw [heq] at hq'
            exact absurd hq' hlater
          · exact hd
        rw [readLE_patches_disjoint ps p.offset 4 _ hrest hdis, ← hpq]
        rw [← hpq] at hq
        exact readLE_writeLE_same code p.offset 4 p.value (by omega)

/-- The instruction at an index, by its bytes. -/
theorem getElem_instWords (code : Bytes) (i : Nat) (h : 8 * i + 8 ≤ code.length) :
    (instWords code)[i]? = some (readLE code (8 * i) 8) := by
  have hi : i < code.length / 8 := by omega
  rw [instWords, List.getElem?_map, List.getElem?_range hi, Option.map_some]

theorem ofWord_opcode (code : Bytes) (off : Nat) (h : off + 8 ≤ code.length) :
    (EbpfInst.ofWord (readLE code off 8)).opcode = readLE code off 1 := by
  have hsplit := readLE_add code off 1 7 (by omega)
  have hlow := readLE_lt code off 1
  simp only [EbpfInst.ofWord]
  rw [hsplit]
  omega

theorem ofWord_imm (code : Bytes) (off : Nat) (h : off + 8 ≤ code.length) :
    u32 (EbpfInst.ofWord (readLE code off 8)).imm = readLE code (off + 4) 4 := by
  have hsplit := readLE_add code off 4 4 (by omega)
  have hlow := readLE_lt code off 4
  have hhigh := readLE_lt code (off + 4) 4
  have hdiv : readLE code off 8 / 2 ^ 32 % 2 ^ 32 = readLE code (off + 4) 4 := by
    rw [hsplit]
    omega
  simp only [EbpfInst.ofWord, u32, toSigned, hdiv]
  split <;> omega

/-- The interpreter puts together what the loader took apart. -/
theorem lddw_halves (v : Nat) : v % 2 ^ 32 ||| (v / 2 ^ 32 % 2 ^ 32) <<< 32 = v % 2 ^ 64 := by
  have hlow : v % 2 ^ 32 < 2 ^ 32 := Nat.mod_lt v (by decide)
  rw [Nat.or_comm, ← Nat.shiftLeft_add_eq_or_of_lt hlow, Nat.shiftLeft_eq]
  omega

/-- A double-word load in a program, by its bytes. -/
theorem lddw_of_bytes (program : ProgramView) (code : Bytes) (pc v : Nat)
    (hinsts : program.insts = (instWords code).map EbpfInst.ofWord)
    (hlen : 8 * pc + 16 ≤ code.length) (hop : readLE code (8 * pc) 1 = 0x18)
    (hlow : readLE code (8 * pc + 4) 4 = v % 2 ^ 32)
    (hhigh : readLE code (8 * pc + 12) 4 = v / 2 ^ 32 % 2 ^ 32) :
    program.lddw pc = some (v % 2 ^ 64) := by
  have hfirst := getElem_instWords code pc (by omega)
  have hsecond := getElem_instWords code (pc + 1) (by omega)
  have hnext : 8 * (pc + 1) = 8 * pc + 8 := by omega
  rw [hnext] at hsecond
  have himm := ofWord_imm code (8 * pc) (by omega)
  have himm' := ofWord_imm code (8 * pc + 8) (by omega)
  simp only [ProgramView.lddw, hinsts, List.getElem?_map, hfirst, hsecond, Option.map_some]
  rw [ofWord_opcode code (8 * pc) (by omega), if_pos hop, himm, himm', hlow, hhigh, lddw_halves]

/-- An immediate at an offset lies in the pair at a place. -/
def touches (off pos : Nat) : Bool :=
  decide (pos < off + 4) && decide (off < pos + 16)

/-- Nothing but their own two immediates is written into the pairs of the map
    references. -/
def WrittenOnce (buffer : FileBuffer) (main : Option Bytes) : Prop :=
  ∀ ref ∈ references buffer main, ref.request.symbolSize ≠ 0 →
    ((writes buffer main).filter fun off => touches off ref.pos).length = 2

/-- The pairs of the map references are where instructions are. -/
def Aligned (buffer : FileBuffer) (main : Option Bytes) : Prop :=
  ∀ ref ∈ references buffer main, ref.request.symbolSize ≠ 0 → ref.pos % 8 = 0

/-- Two elements of a list with a property are all of them, if there are but
    two. -/
theorem eq_of_filter_length_two {α : Type} (l : List α) (f : α → Bool) (x y z : α)
    (hlen : (l.filter f).length = 2) (hxy : x ≠ y) (hx : x ∈ l.filter f) (hy : y ∈ l.filter f)
    (hz : z ∈ l.filter f) : z = x ∨ z = y := by
  rcases List.length_eq_two.mp hlen with ⟨a, b, hab⟩
  rw [hab] at hx hy hz
  simp only [List.mem_cons, List.not_mem_nil, or_false] at hx hy hz
  rcases hx with hx | hx
  · rcases hy with hy | hy
    · exact absurd (hx.trans hy.symm) hxy
    · rw [hx, hy]
      exact hz
  · rcases hy with hy | hy
    · rw [hx, hy]
      exact hz.symm
    · exact absurd (hx.trans hy.symm) hxy

/-- What is written during a pass is one of the two immediates of a pair that
    is written once, or apart from the pair. -/
theorem patches_apart (reloc : DataRelocation BpfMapCtx) (source : Bytes) (ctx : BpfMapCtx)
    (s : LinkState BpfMapCtx) (hlinked : Linked reloc source ctx s) (c : RelocCall)
    (hc : c ∈ s.calls) (honce : (s.patches.filter fun p => touches p.offset c.pos).length = 2) :
    ∀ q ∈ s.patches, q = ⟨c.pos + 4, c.result⟩ ∨ q = ⟨c.pos + 12, c.result / 2 ^ 32⟩ ∨
      c.pos + 16 ≤ q.offset ∨ q.offset + 4 ≤ c.pos := by
  have hmem := hlinked.patched c hc
  have hfirst : (⟨c.pos + 4, c.result⟩ : Patch) ∈ s.patches :=
    hmem _ (by simp only [lddwPatches, List.mem_cons, true_or])
  have hsecond : (⟨c.pos + 12, c.result / 2 ^ 32⟩ : Patch) ∈ s.patches :=
    hmem _ (by simp only [lddwPatches, List.mem_cons, List.not_mem_nil, or_false, or_true])
  have hne : (⟨c.pos + 4, c.result⟩ : Patch) ≠ ⟨c.pos + 12, c.result / 2 ^ 32⟩ := by
    intro heq
    have hoff := congrArg Patch.offset heq
    simp only at hoff
    omega
  intro q hq
  by_cases htouch : touches q.offset c.pos = true
  · have hown : q = ⟨c.pos + 4, c.result⟩ ∨ q = ⟨c.pos + 12, c.result / 2 ^ 32⟩ := by
      refine eq_of_filter_length_two s.patches (fun p => touches p.offset c.pos) _ _ q honce hne
        (List.mem_filter.mpr ⟨hfirst, ?_⟩) (List.mem_filter.mpr ⟨hsecond, ?_⟩)
        (List.mem_filter.mpr ⟨hq, htouch⟩)
      · simp only [touches, Bool.and_eq_true, decide_eq_true_eq]
        omega
      · simp only [touches, Bool.and_eq_true, decide_eq_true_eq]
        omega
    rcases hown with hown | hown
    · exact .inl hown
    · exact .inr (.inl hown)
  · simp only [touches, Bool.and_eq_true, decide_eq_true_eq, not_and_or, Nat.not_lt] at htouch
    exact .inr (.inr htouch.symm)

/-- The bytes of a pair that is written once: the opcode it had, and the
    halves of the value. -/
theorem pair_bytes (reloc : DataRelocation BpfMapCtx) (source : Bytes) (ctx : BpfMapCtx)
    (s : LinkState BpfMapCtx) (hlinked : Linked reloc source ctx s) (c : RelocCall)
    (hc : c ∈ s.calls) (honce : (s.patches.filter fun p => touches p.offset c.pos).length = 2) :
    readLE s.code c.pos 1 = 0x18 ∧ readLE s.code (c.pos + 4) 4 = c.result % 2 ^ 32 ∧
      readLE s.code (c.pos + 12) 4 = c.result / 2 ^ 32 % 2 ^ 32 := by
  have hapart := patches_apart reloc source ctx s hlinked c hc honce
  have hmem := hlinked.patched c hc
  rw [hlinked.code]
  refine ⟨?_, ?_, ?_⟩
  -- Nobody writes to the opcode, so it is what it was when it was checked.
  · have hclear : ∀ q ∈ s.patches, c.pos + 1 ≤ q.offset ∨ q.offset + 4 ≤ c.pos := by
      intro q hq
      rcases hapart q hq with h | h | h | h
      · exact .inl (by rw [h]; simp only; omega)
      · exact .inl (by rw [h]; simp only; omega)
      · exact .inl (by omega)
      · exact .inr h
    rcases hlinked.opcode c hc with ⟨pre, hpre, hat⟩
    have hsub : ∀ q ∈ pre, q ∈ s.patches := fun q hq => hpre.subset hq
    rw [readLE_patches_disjoint s.patches c.pos 1 source hlinked.within hclear,
      ← readLE_patches_disjoint pre c.pos 1 source (fun q hq => hlinked.within q (hsub q hq))
        (fun q hq => hclear q (hsub q hq)), readLE_one _ c.pos 0x18 hat]
    rfl
  · refine readLE_patches_same s.patches ⟨c.pos + 4, c.result⟩ source hlinked.within
      (hmem _ (by simp only [lddwPatches, List.mem_cons, true_or])) ?_
    intro q hq
    rcases hapart q hq with h | h | h | h
    · exact .inl h
    · exact .inr (.inl (by rw [h]; simp only; omega))
    · exact .inr (.inl (by simp only; omega))
    · exact .inr (.inr (by simp only; omega))
  · refine readLE_patches_same s.patches ⟨c.pos + 12, c.result / 2 ^ 32⟩ source hlinked.within
      (hmem _ (by simp only [lddwPatches, List.mem_cons, List.not_mem_nil, or_false, or_true])) ?_
    intro q hq
    rcases hapart q hq with h | h | h | h
    · exact .inr (.inr (by rw [h]; simp only; omega))
    · exact .inl h
    · exact .inr (.inl (by simp only; omega))
    · exact .inr (.inr (by simp only; omega))

variable (A : Allocator Obj)

/-- The register gets what the callback returned, when the pair is an
    instruction and written once. -/
theorem lddw_of_call (base : Addr) (vm : Vm) (ctx : BpfMapCtx) (buffer : FileBuffer)
    (main : Option Bytes) (loaded : Loaded BpfMapCtx)
    (hload : ubpfLoadElfEx (doMapRelocation A) base vm ctx buffer main = some loaded)
    (hok : loaded.error = none) (c : RelocCall) (hc : c ∈ loaded.calls) (pc : Nat)
    (hpos : c.pos = 8 * pc)
    (honce : ((writes buffer main).filter fun off => touches off c.pos).length = 2) :
    ∃ program, loaded.vm.view = some program ∧ program.lddw pc = some (c.result % 2 ^ 64) := by
  rcases ubpfLoadElfEx_success _ base vm ctx buffer main loaded hload hok with
    ⟨layout, s, -, hpass, -, hcalls, hpatches, hstore, hvm⟩
  have hlinked : Linked (doMapRelocation A) layout.code ctx s := by
    have hpassed := linked_relocateSections (doMapRelocation A) vm buffer layout ctx
    rwa [hpass] at hpassed
  -- The places of the object's entries are those of the immediates written.
  have hplaces := (ubpfLoadElfEx_references _ base vm ctx buffer main loaded hload hok).2
  rw [← hplaces, hpatches, List.filter_map, List.length_map] at honce
  rw [hcalls] at hc
  rcases ubpfLoad_view vm base s.code hstore with ⟨program, hview, hinsts⟩
  rcases pair_bytes _ _ _ s hlinked c hc honce with ⟨hop, hlow, hhigh⟩
  have hlen : 8 * pc + 16 ≤ s.code.length := by
    have hinside := hlinked.inside c hc
    have hlength := hlinked.length
    omega
  refine ⟨program, by rw [hvm, hview], ?_⟩
  rw [hpos] at hop hlow hhigh
  exact lddw_of_bytes program s.code pc c.result hinsts hlen hop hlow hhigh

/-- The definitions a context has maps for, by name. -/
def BpfMapCtx.known (ctx : BpfMapCtx) (name : Bytes) : Option MapDef :=
  (ctx.mapByName name).bind fun a => (ctx.mapAt a).map BpfMap.defn

/-- The requests that are answered with a map: the symbol is large enough, and
    the name is known with the same definition, or not known and the kind is
    supported. -/
def Accepts (known : Bytes → Option MapDef) (r : RelocRequest) : Prop :=
  sizeofMapDef ≤ r.symbolSize ∧ ∃ d, r.mapDefinition = some d ∧
    match known r.symbolName with
    | some d' => d'.same d = true
    | none => (newMapData d).isSome = true

/-- The definitions known after a request. -/
def declare (known : Bytes → Option MapDef) (r : RelocRequest) : Bytes → Option MapDef :=
  match known r.symbolName, r.mapDefinition with
  | none, some d =>
    if sizeofMapDef ≤ r.symbolSize ∧ (newMapData d).isSome = true then
      Function.update known r.symbolName (some d)
    else known
  | _, _ => known

/-- Every request about a map is accepted, with what is known by then. -/
def Accepted : (Bytes → Option MapDef) → List RelocRequest → Prop
  | _, [] => True
  | known, r :: rs => (r.symbolSize ≠ 0 → Accepts known r) ∧ Accepted (declare known r) rs

theorem known_of_bound (ctx : BpfMapCtx) (name : Bytes) (a : Addr) (map : BpfMap)
    (hbound : ctx.mapByName name = some a) (hmap : ctx.mapAt a = some map) :
    ctx.known name = some map.defn := by
  rw [BpfMapCtx.known, hbound, Option.bind_some, hmap, Option.map_some]

theorem known_of_unbound (ctx : BpfMapCtx) (name : Bytes) (h : ctx.mapByName name = none) :
    ctx.known name = none := by
  rw [BpfMapCtx.known, h, Option.bind_none]

/-- What is known stays known, unless the name is new. -/
theorem known_grows (ctx ctx' : BpfMapCtx) (name : Bytes) (hinv : CtxInv ctx)
    (hgrows : Grows ctx ctx')
    (hnew : ctx.mapByName name = none → ctx'.mapByName name = none) :
    ctx'.known name = ctx.known name := by
  cases hbound : ctx.mapByName name with
  | none => rw [known_of_unbound ctx name hbound, known_of_unbound ctx' name (hnew hbound)]
  | some a =>
      rcases hinv.bound name a hbound with ⟨map, hmap⟩
      rw [known_of_bound ctx name a map hbound hmap,
        known_of_bound ctx' name a map (hgrows.names name a hbound) (hgrows.maps a map hmap)]

theorem declare_of_small (known : Bytes → Option MapDef) (r : RelocRequest)
    (h : r.symbolSize < sizeofMapDef) : declare known r = known := by
  have hnot : ∀ d, ¬ (sizeofMapDef ≤ r.symbolSize ∧ (newMapData d).isSome = true) := by
    rintro d ⟨hbig, -⟩
    exact absurd hbig (Nat.not_le.mpr h)
  unfold declare
  split
  · rw [if_neg (hnot _)]
  · rfl

theorem declare_of_known (known : Bytes → Option MapDef) (r : RelocRequest) (d : MapDef)
    (h : known r.symbolName = some d) : declare known r = known := by
  simp only [declare, h]

/-- The table follows the context: a relocation adds to it what the request
    defines. -/
theorem known_relocates (ctx ctx' : BpfMapCtx) (r : RelocRequest) (v : Nat) (hinv : CtxInv ctx)
    (h : Relocates A ctx r v ctx') : ctx'.known = declare ctx.known r := by
  have hgrows := relocates_grows A ctx ctx' r v h
  cases h with
  | sectionKnown mem hsize hknown =>
      exact (declare_of_small _ r (by rw [hsize]; decide)).symm
  | sectionCopied mem hsize hnew halloc =>
      rw [declare_of_small _ r (by rw [hsize]; decide)]
      funext name
      exact known_grows ctx _ name hinv hgrows (fun hname => hname)
  | tooSmall d hsize hdef hsmall => exact (declare_of_small _ r hsmall).symm
  | found d _ map hsize hdef hbound hmap hsame =>
      exact (declare_of_known _ r map.defn (known_of_bound ctx _ v map hbound hmap)).symm
  | redefined d a map hsize hdef hbound hmap hsame =>
      exact (declare_of_known _ r map.defn (known_of_bound ctx _ a map hbound hmap)).symm
  | unsupported d hsize hdef hnew hdata =>
      simp only [declare, known_of_unbound ctx _ hnew, hdef, hdata, Option.isSome_none,
        Bool.false_eq_true, and_false, if_false]
  | created d data _ hsize hdef hnew hdata halloc =>
      have hadds : sizeofMapDef ≤ r.symbolSize ∧ (newMapData d).isSome = true := by
        rw [hdata]
        exact ⟨hsize, rfl⟩
      simp only [declare, known_of_unbound ctx _ hnew, hdef, if_pos hadds]
      funext name
      by_cases hname : name = r.symbolName
      -- The name of the request now leads to the new map.
      · rw [hname, Function.update_self]
        refine known_of_bound _ _ v ⟨d, data⟩ ?_ ((mapAt_eq_some _ v _).mpr ?_)
        · simp only [BpfMapCtx.addMap, Function.update_self]
        · simp only [BpfMapCtx.addMap, Function.update_self]
      · rw [Function.update_of_ne hname]
        refine known_grows ctx _ name hinv hgrows ?_
        intro hunbound
        simp only [BpfMapCtx.addMap, Function.update_of_ne hname, hunbound]

/-- The symbol of a request stands for the map at an address. -/
def StandsFor (ctx : BpfMapCtx) (r : RelocRequest) (a : Addr) : Prop :=
  ∃ map d, ctx.mapByName r.symbolName = some a ∧ ctx.mapAt a = some map ∧
    r.mapDefinition = some d ∧ map.defn.same d = true

theorem MapDef.same_self (d : MapDef) : d.same d = true := by
  simp only [MapDef.same, beq_self_eq_true, Bool.and_self]

/-- A request that is accepted is answered with the map the symbol then stands
    for, and any other one with zero. -/
theorem accepts_or_zero (ctx ctx' : BpfMapCtx) (r : RelocRequest) (v : Nat)
    (hsize : r.symbolSize ≠ 0) (h : Relocates A ctx r v ctx') :
    (Accepts ctx.known r ∧ StandsFor ctx' r v) ∨ (¬ Accepts ctx.known r ∧ v = 0) := by
  cases h with
  | sectionKnown mem hzero hknown => exact absurd hzero hsize
  | sectionCopied mem hzero hnew halloc => exact absurd hzero hsize
  | tooSmall d hpos hdef hsmall =>
      exact .inr ⟨fun hacc => absurd hsmall (Nat.not_lt.mpr hacc.1), rfl⟩
  | found d _ map hbig hdef hbound hmap hsame =>
      refine .inl ⟨⟨hbig, d, hdef, ?_⟩, map, d, hbound, hmap, hdef, hsame⟩
      rw [known_of_bound ctx _ v map hbound hmap]
      exact hsame
  | redefined d a map hbig hdef hbound hmap hsame =>
      refine .inr ⟨?_, rfl⟩
      rintro ⟨-, d', hdef', hname⟩
      rw [hdef, Option.some.injEq] at hdef'
      rw [known_of_bound ctx _ a map hbound hmap] at hname
      simp only [← hdef', hsame, Bool.false_eq_true] at hname
  | unsupported d hbig hdef hnew hdata =>
      refine .inr ⟨?_, rfl⟩
      rintro ⟨-, d', hdef', hname⟩
      rw [hdef, Option.some.injEq] at hdef'
      rw [known_of_unbound ctx _ hnew, ← hdef', hdata] at hname
      exact Bool.false_ne_true hname
  | created d data _ hbig hdef hnew hdata halloc =>
      refine .inl ⟨⟨hbig, d, hdef, ?_⟩, ⟨d, data⟩, d, ?_, ?_, hdef, MapDef.same_self d⟩
      · rw [known_of_unbound ctx _ hnew, hdata]
        rfl
      · simp only [BpfMapCtx.addMap, Function.update_self]
      · rw [mapAt_eq_some]
        simp only [BpfMapCtx.addMap, Function.update_self]

theorem StandsFor.grows {ctx ctx' : BpfMapCtx} {r : RelocRequest} {a : Addr}
    (h : StandsFor ctx r a) (hgrows : Grows ctx ctx') : StandsFor ctx' r a := by
  rcases h with ⟨map, d, hbound, hmap, hdef, hsame⟩
  exact ⟨map, d, hgrows.names _ a hbound, hgrows.maps a map hmap, hdef, hsame⟩

/-- No symbol stands for a map at address zero. -/
theorem StandsFor.pos {ctx : BpfMapCtx} {r : RelocRequest} {a : Addr} (hinv : CtxInv ctx)
    (h : StandsFor ctx r a) : 0 < a ∧ a < 2 ^ 64 := by
  rcases h with ⟨map, d, -, hmap, -, -⟩
  exact hinv.range a _ ((mapAt_eq_some ctx a map).mp hmap)

/-- Calls keep the invariant and only add. -/
theorem callsFrom_inv (cs : List RelocCall) (ctx ctx' : BpfMapCtx) (hinv : CtxInv ctx)
    (h : CallsFrom (doMapRelocation A) ctx cs ctx') : CtxInv ctx' ∧ Grows ctx ctx' :=
  callsFrom_invariant A (fun H => CtxInv H.ctx ∧ Grows ctx H.ctx)
    (fun mid mid' _ c hmid hc =>
      ⟨ctxInv_relocates A mid mid' c.request c.result hmid.1 hc,
        hmid.2.trans (relocates_grows A mid mid' c.request c.result hc)⟩)
    cs ctx ctx' [] ⟨hinv, .refl ctx⟩ h

/-- After a list of calls, the symbols stand for the answers exactly when all
    the requests are accepted. -/
theorem standsFor_iff_accepted (cs : List RelocCall) : ∀ (ctx ctx' : BpfMapCtx), CtxInv ctx →
    CallsFrom (doMapRelocation A) ctx cs ctx' →
      ((∀ c ∈ cs, c.request.symbolSize ≠ 0 → StandsFor ctx' c.request c.result) ↔
        Accepted ctx.known (cs.map RelocCall.request)) := by
  induction cs with
  | nil =>
      intro ctx ctx' _ _
      exact ⟨fun _ => trivial, fun _ c hc => absurd hc List.not_mem_nil⟩
  | cons c cs ih =>
      intro ctx ctx' hinv hcs
      rcases hcs with ⟨mid, hcall, hrest⟩
      have hreloc := relocates_of_doMapRelocation A ctx mid c.request c.result hcall
      have hmid := ctxInv_relocates A ctx mid c.request c.result hinv hreloc
      rcases callsFrom_inv A cs mid ctx' hmid hrest with ⟨hinv', hgrows⟩
      -- The first call: what its symbol stands for at the end was settled then.
      have hfirst : c.request.symbolSize ≠ 0 →
          (StandsFor ctx' c.request c.result ↔ Accepts ctx.known c.request) := by
        intro hsize
        rcases accepts_or_zero A ctx mid c.request c.result hsize hreloc with
          ⟨hacc, hstands⟩ | ⟨hnot, hzero⟩
        · exact ⟨fun _ => hacc, fun _ => hstands.grows hgrows⟩
        · constructor
          · intro hstands
            rw [hzero] at hstands
            exact absurd (hstands.pos hinv').1 (Nat.lt_irrefl 0)
          · intro hacc
            exact absurd hacc hnot
      have htail := ih mid ctx' hmid hrest
      rw [known_relocates A ctx mid c.request c.result hinv hreloc] at htail
      simp only [List.map_cons, Accepted]
      constructor
      · intro hall
        exact ⟨fun hsize => (hfirst hsize).mp (hall c List.mem_cons_self hsize),
          htail.mp (fun c' hc' => hall c' (List.mem_cons_of_mem c hc'))⟩
      · rintro ⟨hacc, hnext⟩ c' hc' hsize
        rcases List.mem_cons.mp hc' with heq | hmem
        · rw [heq] at hsize ⊢
          exact (hfirst hsize).mpr (hacc hsize)
        · exact htail.mpr hnext c' hmem hsize

/-- What is accepted does not depend on the immediates. -/
theorem accepted_reference (cs : List RelocCall) : ∀ known : Bytes → Option MapDef,
    Accepted known (cs.map fun c => c.reference.request) ↔
      Accepted known (cs.map RelocCall.request) := by
  induction cs with
  | nil => intro known; exact Iff.rfl
  | cons c cs ih =>
      intro known
      exact and_congr Iff.rfl (ih (declare known c.request))

/-- Executing the pair of a reference puts the address of the map its symbol
    stands for into the register. -/
def LiveReference (loaded : Loaded BpfMapCtx) (ref : Reference) : Prop :=
  ∃ program pc a, loaded.vm.view = some program ∧ ref.pos = 8 * pc ∧ program.lddw pc = some a ∧
    StandsFor loaded.ctx ref.request a

/-- Every answer is a 64-bit value. -/
theorem relocates_lt (ctx ctx' : BpfMapCtx) (r : RelocRequest) (v : Nat) (hinv : CtxInv ctx)
    (h : Relocates A ctx r v ctx') : v < 2 ^ 64 := by
  cases h with
  | sectionKnown mem hsize hknown => exact Nat.mod_lt _ (by decide)
  | sectionCopied mem hsize hnew halloc => exact Nat.mod_lt _ (by decide)
  | tooSmall d hsize hdef hsmall => decide
  | found d _ map hsize hdef hbound hmap hsame =>
      exact (hinv.range v _ ((mapAt_eq_some ctx v map).mp hmap)).2
  | redefined d a map hsize hdef hbound hmap hsame => decide
  | unsupported d hsize hdef hnew hdata => decide
  | created d data _ hsize hdef hnew hdata halloc => exact A.alloc_lt ctx.heap v halloc

theorem callsFrom_lt (cs : List RelocCall) (ctx ctx' : BpfMapCtx) (hinv : CtxInv ctx)
    (h : CallsFrom (doMapRelocation A) ctx cs ctx') : ∀ c ∈ cs, c.result < 2 ^ 64 := by
  have hall := callsFrom_invariant A (fun H => CtxInv H.ctx ∧ ∀ c ∈ H.calls, c.result < 2 ^ 64)
    (fun mid mid' calls c hmid hc => by
      refine ⟨ctxInv_relocates A mid mid' c.request c.result hmid.1 hc, ?_⟩
      intro c' hc'
      rcases List.mem_append.mp hc' with hold | hlast
      · exact hmid.2 c' hold
      · rw [List.mem_singleton.mp hlast]
        exact relocates_lt A mid mid' c.request c.result hmid.1 hc)
    cs ctx ctx' [] ⟨hinv, fun c hc => absurd hc List.not_mem_nil⟩ h
  rw [List.nil_append] at hall
  exact hall.2

/-- A pair that is written once holds a live reference exactly when it is an
    instruction and the symbol stands for what the callback returned. -/
theorem liveReference_iff (base : Addr) (vm : Vm) (ctx : BpfMapCtx) (buffer : FileBuffer)
    (main : Option Bytes) (loaded : Loaded BpfMapCtx) (hinv : CtxInv ctx)
    (hload : ubpfLoadElfEx (doMapRelocation A) base vm ctx buffer main = some loaded)
    (hok : loaded.error = none) (c : RelocCall) (hc : c ∈ loaded.calls)
    (honce : ((writes buffer main).filter fun off => touches off c.pos).length = 2) :
    LiveReference loaded c.reference ↔
      c.pos % 8 = 0 ∧ StandsFor loaded.ctx c.request c.result := by
  have hcalls := ubpfLoadElfEx_calls _ base vm ctx buffer main loaded hload
  have hlt := callsFrom_lt A loaded.calls ctx loaded.ctx hinv hcalls c hc
  constructor
  · rintro ⟨program, pc, a, hview, hpos, hlddw, hstands⟩
    have hplace : c.pos = 8 * pc := hpos
    rcases lddw_of_call A base vm ctx buffer main loaded hload hok c hc pc hplace honce with
      ⟨program', hview', hlddw'⟩
    rw [hview, Option.some.injEq] at hview'
    rw [Nat.mod_eq_of_lt hlt, ← hview', hlddw, Option.some.injEq] at hlddw'
    rw [hlddw'] at hstands
    exact ⟨by omega, hstands⟩
  · rintro ⟨halign, hstands⟩
    have hplace : c.pos = 8 * (c.pos / 8) := by omega
    rcases lddw_of_call A base vm ctx buffer main loaded hload hok c hc _ hplace honce with
      ⟨program, hview, hlddw⟩
    rw [Nat.mod_eq_of_lt hlt] at hlddw
    exact ⟨program, _, c.result, hview, hplace, hlddw, hstands⟩

/-- An object whose map references are all good, by what is known before it is
    loaded. -/
structure WellReferenced (known : Bytes → Option MapDef) (buffer : FileBuffer)
    (main : Option Bytes) : Prop where
  once : WrittenOnce buffer main
  aligned : Aligned buffer main
  accepted : Accepted known ((references buffer main).map Reference.request)

/-- An object that was loaded refers to live maps when its references are good
    by what was known before, and of the objects whose pairs are written once
    only then. The prior context is whatever loads and operations made of
    it. -/
theorem map_references_live (es : List LoadEvent) (h : History)
    (hrun : Steps.run (loadStep A) History.new es = some h) (base : Addr) (vm : Vm)
    (buffer : FileBuffer) (main : Option Bytes) (loaded : Loaded BpfMapCtx)
    (hload : ubpfLoadElfEx (doMapRelocation A) base vm h.ctx buffer main = some loaded)
    (hok : loaded.error = none) :
    (WellReferenced h.ctx.known buffer main →
      ∀ ref ∈ references buffer main, ref.request.symbolSize ≠ 0 → LiveReference loaded ref) ∧
    (WrittenOnce buffer main →
      (∀ ref ∈ references buffer main, ref.request.symbolSize ≠ 0 → LiveReference loaded ref) →
        WellReferenced h.ctx.known buffer main) := by
  have hinv := ctxInv_history A es h hrun
  have hcalls := ubpfLoadElfEx_calls _ base vm h.ctx buffer main loaded hload
  have hrefs := (ubpfLoadElfEx_references _ base vm h.ctx buffer main loaded hload hok).1
  have hiff := standsFor_iff_accepted A loaded.calls h.ctx loaded.ctx hinv hcalls
  have hrequests : Accepted h.ctx.known ((references buffer main).map Reference.request) ↔
      Accepted h.ctx.known (loaded.calls.map RelocCall.request) := by
    rw [← hrefs, List.map_map]
    exact accepted_reference loaded.calls h.ctx.known
  -- Each reference is one of the calls, with the immediate left out.
  have hof : ∀ c ∈ loaded.calls, c.reference ∈ references buffer main := by
    intro c hc
    rw [← hrefs]
    exact List.mem_map_of_mem hc
  have hlive : WrittenOnce buffer main → ∀ c ∈ loaded.calls, c.request.symbolSize ≠ 0 →
      (LiveReference loaded c.reference ↔
        c.pos % 8 = 0 ∧ StandsFor loaded.ctx c.request c.result) := fun honce c hc hsize =>
    liveReference_iff A base vm h.ctx buffer main loaded hinv hload hok c hc
      (honce c.reference (hof c hc) hsize)
  constructor
  · rintro ⟨honce, halign, hacc⟩ ref href hsize
    have hmem := href
    rw [← hrefs] at hmem
    rcases List.mem_map.mp hmem with ⟨c, hc, hcref⟩
    rw [← hcref] at href hsize ⊢
    exact (hlive honce c hc hsize).mpr ⟨halign c.reference href hsize,
      hiff.mpr (hrequests.mp hacc) c hc hsize⟩
  · intro honce hall
    have hboth : ∀ c ∈ loaded.calls, c.request.symbolSize ≠ 0 →
        c.pos % 8 = 0 ∧ StandsFor loaded.ctx c.request c.result := fun c hc hsize =>
      (hlive honce c hc hsize).mp (hall c.reference (hof c hc) hsize)
    refine ⟨honce, ?_, hrequests.mpr (hiff.mp (fun c hc hsize => (hboth c hc hsize).2))⟩
    intro ref href hsize
    rw [← hrefs] at href
    rcases List.mem_map.mp href with ⟨c, hc, hcref⟩
    rw [← hcref] at hsize ⊢
    exact (hboth c hc hsize).1

/-- The sample program, loaded with a map definition into an empty context. -/
def sampleLoaded (defn : Bytes) : Option (Loaded BpfMapCtx) :=
  ubpfLoadElfEx (doMapRelocation sampleAllocator) 0x200000 (initUbpfVm .bpfilter) History.new.ctx
    (sampleBuffer (mapObject 28 defn)) (some mainName)

/-- A program with a hash map. -/
theorem hash_reference_live :
    ∃ loaded ref, sampleLoaded sampleHash = some loaded ∧ loaded.error = none ∧
      references (sampleBuffer (mapObject 28 sampleHash)) (some mainName) = [ref] ∧
      ref.request.symbolSize ≠ 0 ∧ LiveReference loaded ref := by
  have hends : ((sampleLoaded sampleHash).any fun loaded => decide (loaded.error = none))
      = true := by
    decide +kernel
  have hone : (references (sampleBuffer (mapObject 28 sampleHash)) (some mainName)).length = 1 := by
    decide +kernel
  have hgood : ((references (sampleBuffer (mapObject 28 sampleHash)) (some mainName)).all fun ref =>
      decide (((writes (sampleBuffer (mapObject 28 sampleHash)) (some mainName)).filter
        fun off => touches off ref.pos).length = 2 ∧ ref.pos % 8 = 0 ∧
          sizeofMapDef ≤ ref.request.symbolSize) &&
      ref.request.mapDefinition.any fun d => (newMapData d).isSome) = true := by
    decide +kernel
  rcases (Option.any_eq_true _ _).mp hends with ⟨loaded, hload, hok⟩
  rcases List.length_eq_one_iff.mp hone with ⟨ref, href⟩
  rw [href, List.all_cons, List.all_nil, Bool.and_true] at hgood
  rcases (Bool.and_eq_true _ _).mp hgood with ⟨hplace, hdefs⟩
  rcases of_decide_eq_true hplace with ⟨honce, halign, hbig⟩
  rcases (Option.any_eq_true _ _).mp hdefs with ⟨d, hdef, hdata⟩
  -- The one reference is alone at its place, aligned, and to a definition of a known kind.
  have hwell : WellReferenced History.new.ctx.known (sampleBuffer (mapObject 28 sampleHash))
      (some mainName) := by
    refine ⟨?_, ?_, ?_⟩
    · intro ref' href' _
      rw [href, List.mem_singleton] at href'
      rw [href']
      exact honce
    · intro ref' href' _
      rw [href, List.mem_singleton] at href'
      rw [href']
      exact halign
    · rw [href]
      exact ⟨fun _ => ⟨hbig, d, hdef, hdata⟩, trivial⟩
  have hsize : ref.request.symbolSize ≠ 0 := by
    unfold sizeofMapDef at hbig
    omega
  have hall := (map_references_live sampleAllocator [] History.new rfl _ _ _ _ loaded hload
    (of_decide_eq_true hok)).1 hwell
  exact ⟨loaded, ref, hload, of_decide_eq_true hok, href, hsize,
    hall ref (by rw [href]; exact List.mem_singleton_self ref) hsize⟩

/-- A program with a map of a kind that is not supported. It is loaded, and
    what it has for the address of the map is zero. -/
theorem dead_reference_loaded :
    ¬ ∀ (A : Allocator Obj) (es : List LoadEvent) (h : History),
      Steps.run (loadStep A) History.new es = some h →
      ∀ (base : Addr) (vm : Vm) (buffer : FileBuffer) (main : Option Bytes)
        (loaded : Loaded BpfMapCtx),
        ubpfLoadElfEx (doMapRelocation A) base vm h.ctx buffer main = some loaded →
        loaded.error = none →
        ∀ ref ∈ references buffer main, ref.request.symbolSize ≠ 0 → LiveReference loaded ref := by
  intro hclaim
  have hall : ((sampleLoaded (sampleMapDef 3 4 4 16)).any fun loaded =>
      decide (loaded.error = none) && loaded.calls.any fun c =>
        decide (((writes (sampleBuffer (mapObject 28 (sampleMapDef 3 4 4 16)))
        (some mainName)).filter
          fun off => touches off c.pos).length = 2 ∧ c.request.symbolSize ≠ 0 ∧
            c.result = 0)) = true := by
    decide +kernel
  rcases (Option.any_eq_true _ _).mp hall with ⟨loaded, hload, htest⟩
  rcases (Bool.and_eq_true _ _).mp htest with ⟨hends, hcalls⟩
  have hok := of_decide_eq_true hends
  rcases List.any_eq_true.mp hcalls with ⟨c, hc, htest⟩
  rcases of_decide_eq_true htest with ⟨honce, hsize, hzero⟩
  have href : c.reference ∈ references (sampleBuffer (mapObject 28 (sampleMapDef 3 4 4 16)))
      (some mainName) := by
    rw [← (ubpfLoadElfEx_references _ _ _ _ _ _ loaded hload hok).1]
    exact List.mem_map_of_mem hc
  have hlive := hclaim sampleAllocator [] History.new rfl _ _ _ _ loaded hload hok _ href hsize
  have hstands := ((liveReference_iff sampleAllocator _ _ _ _ _ loaded ctxInv_empty hload hok c hc
    honce).mp hlive).2
  -- The callback returned zero, where no map can be.
  have hinv := (callsFrom_inv sampleAllocator loaded.calls _ loaded.ctx ctxInv_empty
    (ubpfLoadElfEx_calls _ _ _ _ _ _ loaded hload)).1
  rw [hzero] at hstands
  exact absurd (hstands.pos hinv).1 (Nat.lt_irrefl 0)

end UniBPF
