import UniBPF.Core.Verifier
import UniBPF.Theory.MapRefs

/-!
# What the Verifier Believes About Maps

The verifier checks a program against its own reading of the maps section;
the program then runs against the maps `do_map_relocation` makes. This module
compares the two readings of one definition.

The bytes are read alike. For definitions at least as large as the structure,
the verifier's descriptor of map `i` has the fields the relocation callback
finds at offset `i * definition size`.

The kinds never agree. The table of map types is written to be indexed by the
numeric type, but lacks the entry for type 0: a hash map selects the entry for
arrays, an array is past the end and falls back to the entry for hash maps,
and so does every type the runtime does not support.

## Main definitions

* `MapKind`, `runtimeKind`: What the helpers take a map for.
* `SameFields`, `SameKind`: Agreement on one map.

## Theorems

* `bpfMapLookupElem_kind`: The helpers go by `runtimeKind`.
* `loadMapDef_fields`: The verifier's copy is the definition at its offset.
* `describeMaps_getElem`: A descriptor has the fields of its definition.
* `not_sameKind`: No type is classified as the runtime dispatches it.
* `verifier_maps_never_agree`: Fields always agree, kinds never do.
-/

namespace UniBPF

open LittleEndian

/-- The two kinds of map there are. -/
inductive MapKind where
  | hash
  | array
deriving DecidableEq, Repr

/-- The case the helpers' `switch` on the type of a map ends in. -/
def runtimeKind (d : MapDef) : Option MapKind :=
  if d.type = mapTypeHash then some .hash
  else if d.type = mapTypeArray then some .array
  else none

/-- The lookup helper goes by the kind alone: a map of no kind has no entries,
    and one whose data is of the other kind has no outcome. -/
theorem bpfMapLookupElem_kind (map : BpfMap) (key : Bytes) :
    bpfMapLookupElem map key =
      match runtimeKind map.defn, map.data with
      | none, _ => some none
      | some .hash, .hash entries => some (entries.lookup (key.take map.defn.keySize))
      | some .array, .array data =>
        if arrayOffset map key + map.defn.valueSize ≤ data.length then
          some (some ((data.drop (arrayOffset map key)).take map.defn.valueSize))
        else none
      | _, _ => none := by
  unfold runtimeKind bpfMapLookupElem
  by_cases hhash : map.defn.type = mapTypeHash
  · rw [if_pos hhash, if_pos hhash]
    cases map.data <;> rfl
  · rw [if_neg hhash, if_neg hhash]
    by_cases harray : map.defn.type = mapTypeArray
    · rw [if_pos harray, if_pos harray]
      cases map.data <;> rfl
    · rw [if_neg harray, if_neg harray]

/-- A descriptor and a definition with the same type, sizes and capacity. -/
structure SameFields (e : EbpfMapDescriptor) (d : MapDef) : Prop where
  type : e.type = d.type
  keySize : e.keySize = d.keySize
  valueSize : e.valueSize = d.valueSize
  maxEntries : e.maxEntries = d.maxEntries

/-- The verifier takes a map for an array, or for a hash map, exactly when the
    runtime does. -/
structure SameKind (e : EbpfMapDescriptor) (d : MapDef) : Prop where
  array : (getMapTypeClick e.type).isArray = true ↔ runtimeKind d = some .array
  hash : (getMapTypeClick e.type).name = clickMapHash.name ↔ runtimeKind d = some .hash

theorem SameFields.of_same {e : EbpfMapDescriptor} {d d' : MapDef} (h : SameFields e d)
    (hsame : d'.same d = true) : SameFields e d' := by
  simp only [MapDef.same, Bool.and_eq_true, beq_iff_eq] at hsame
  rcases hsame with ⟨⟨⟨htype, hkey⟩, hvalue⟩, hmax⟩
  exact ⟨h.type.trans htype.symm, h.keySize.trans hkey.symm, h.valueSize.trans hvalue.symm,
    h.maxEntries.trans hmax.symm⟩

/-- Type 1 is the only one inside the table; the others fall back to its first
    entry. -/
theorem getMapTypeClick_other (t : Nat) (h : ¬ t = mapTypeHash) :
    getMapTypeClick t = clickMapHash := by
  have hlen : clickMapTypes.length = 2 := rfl
  have hone : ¬ t = 1 := h
  have hpast : t = 0 ∨ clickMapTypes.length ≤ t := by omega
  simp only [getMapTypeClick, hpast, ↓reduceIte]

/-- Type 1 selects the entry meant for type 2, and every other type the entry
    meant for type 1. -/
theorem getMapTypeClick_isArray (t : Nat) :
    (getMapTypeClick t).isArray = true ↔ t = mapTypeHash := by
  by_cases hone : t = mapTypeHash
  · rw [hone]
    decide
  · rw [getMapTypeClick_other t hone]
    simp only [clickMapHash, Bool.false_eq_true, hone]

/-- The two readings of a type never coincide: what one side calls a hash map
    the other calls an array or nothing at all. -/
theorem not_sameKind (e : EbpfMapDescriptor) (d : MapDef) (htype : e.type = d.type) :
    ¬ SameKind e d := by
  intro h
  by_cases hhash : d.type = mapTypeHash
  · have harray : (getMapTypeClick e.type).isArray = true := by
      rw [getMapTypeClick_isArray, htype, hhash]
    have hkind := h.array.mp harray
    simp only [runtimeKind, hhash, ↓reduceIte, Option.some.injEq, reduceCtorEq] at hkind
  -- Whatever is not classified as an array is classified as a hash map.
  · have hname : (getMapTypeClick e.type).name = clickMapHash.name := by
      rw [htype, getMapTypeClick_other d.type hhash]
    have hkind := h.hash.mp hname
    rw [runtimeKind, if_neg hhash] at hkind
    by_cases harray : d.type = mapTypeArray
    · simp only [harray, ↓reduceIte, Option.some.injEq, reduceCtorEq] at hkind
    · simp only [harray, ↓reduceIte, reduceCtorEq] at hkind

/-- A field of the copied definition is the field in the section. -/
theorem readLE_copied (data : Bytes) (off k w : Nat) (hk : k + w ≤ sizeofLoadMapDef) :
    readLE ((data.drop off).take sizeofLoadMapDef) k w = readLE data (off + k) w := by
  have htake : (((data.drop off).take sizeofLoadMapDef).drop k).take w =
      ((data.drop off).drop k).take w := by
    rw [List.drop_take, List.take_take, Nat.min_eq_left (by omega)]
  rw [readLE, readLE, htake, List.drop_drop]

theorem loadMapDef_fields (data : Bytes) (size i : Nat) (d : BpfLoadMapDef)
    (hsize : sizeofLoadMapDef ≤ size) (h : loadMapDef data size i = some d) :
    i * size % 2 ^ 64 + sizeofMapDef ≤ data.length ∧
      d.type = readLE data (i * size % 2 ^ 64) 4 ∧
      d.keySize = readLE data (i * size % 2 ^ 64 + 4) 4 ∧
      d.valueSize = readLE data (i * size % 2 ^ 64 + 8) 4 ∧
      d.maxEntries = readLE data (i * size % 2 ^ 64 + 12) 4 := by
  unfold loadMapDef at h
  simp only [Nat.min_eq_right hsize, Nat.sub_self, List.replicate_zero, List.append_nil] at h
  split at h
  · exact absurd h (by simp only [reduceCtorEq, not_false_eq_true])
  · next hlen =>
      have hfit : i * size % 2 ^ 64 + sizeofMapDef ≤ data.length := Nat.not_lt.mp hlen
      simp only [Option.some.injEq] at h
      subst h
      exact ⟨hfit, readLE_copied data _ 0 4 (by decide), readLE_copied data _ 4 4 (by decide),
        readLE_copied data _ 8 4 (by decide), readLE_copied data _ 12 4 (by decide)⟩

theorem loadMapDefs_getElem (data : Bytes) (size : Nat) : ∀ (n i : Nat) (ds : List BpfLoadMapDef),
    loadMapDefs data size n i = some ds →
    ∀ (j : Nat) (d : BpfLoadMapDef), ds[j]? = some d → loadMapDef data size (i + j) = some d := by
  intro n
  induction n with
  | zero =>
      intro i ds h j d hj
      simp only [loadMapDefs, Option.some.injEq] at h
      rw [← h] at hj
      exact absurd hj (by simp only [List.getElem?_nil, reduceCtorEq, not_false_eq_true])
  | succ n ih =>
      intro i ds h j d hj
      simp only [loadMapDefs] at h
      cases hfirst : loadMapDef data size i with
      | none =>
          rw [hfirst] at h
          exact absurd h (by simp only [reduceCtorEq, not_false_eq_true])
      | some d₀ =>
          simp only [hfirst] at h
          cases hrest : loadMapDefs data size n (i + 1) with
          | none =>
              rw [hrest] at h
              exact absurd h (by simp only [reduceCtorEq, not_false_eq_true])
          | some ds₀ =>
              simp only [hrest, Option.some.injEq] at h
              subst h
              -- The definition read here is the first one.
              cases j with
              | zero =>
                  simp only [List.getElem?_cons_zero, Option.some.injEq] at hj
                  rw [Nat.add_zero, hfirst, hj]
              | succ j =>
                  rw [List.getElem?_cons_succ] at hj
                  rw [show i + (j + 1) = i + 1 + j by omega]
                  exact ih (i + 1) ds₀ hrest j d hj

section

variable {σ : Type} (createMapCrab : CreateMapCrab σ) (mockMapFds : Bool)

theorem describeMaps_getElem (ds : List BpfLoadMapDef) : ∀ (s s' : σ) (es : List EbpfMapDescriptor),
    describeMaps createMapCrab mockMapFds s ds = some (es, s') →
    ∀ (j : Nat) (e : EbpfMapDescriptor), es[j]? = some e →
      ∃ d, ds[j]? = some d ∧ e.type = d.type ∧ e.keySize = d.keySize ∧
        e.valueSize = d.valueSize ∧ e.maxEntries = d.maxEntries := by
  induction ds with
  | nil =>
      intro s s' es h j e hj
      simp only [describeMaps, Option.some.injEq, Prod.mk.injEq] at h
      rw [← h.1] at hj
      exact absurd hj (by simp only [List.getElem?_nil, reduceCtorEq, not_false_eq_true])
  | cons d ds ih =>
      intro s s' es h j e hj
      simp only [describeMaps] at h
      cases hfd : createMapClick createMapCrab mockMapFds s d.type d.keySize d.valueSize
          d.maxEntries with
      | none =>
          rw [hfd] at h
          exact absurd h (by simp only [reduceCtorEq, not_false_eq_true])
      | some made =>
          simp only [hfd] at h
          cases hrest : describeMaps createMapCrab mockMapFds made.2 ds with
          | none =>
              rw [hrest] at h
              exact absurd h (by simp only [reduceCtorEq, not_false_eq_true])
          | some rest =>
              simp only [hrest, Option.some.injEq, Prod.mk.injEq] at h
              rw [← h.1] at hj
              -- The descriptor made here is the first; the others come from the rest of the list.
              cases j with
              | zero =>
                  simp only [List.getElem?_cons_zero, Option.some.injEq] at hj
                  subst hj
                  exact ⟨d, rfl, rfl, rfl, rfl, rfl⟩
              | succ j =>
                  rw [List.getElem?_cons_succ] at hj ⊢
                  exact ih made.2 rest.2 rest.1 hrest j e hj

/-- The definition a request reads, where its section holds it. -/
theorem mapDefinition_of_contents (r : RelocRequest)
    (h : r.symbolOffset + sizeofMapDef ≤ r.contents.length) :
    ∃ d, r.mapDefinition = some d ∧ d.type = readLE r.contents r.symbolOffset 4 ∧
      d.keySize = readLE r.contents (r.symbolOffset + 4) 4 ∧
      d.valueSize = readLE r.contents (r.symbolOffset + 8) 4 ∧
      d.maxEntries = readLE r.contents (r.symbolOffset + 12) 4 := by
  have hlen : r.contents.length = min r.mapDataSize (r.buffer.bytes.length - r.dataOff) := by
    rw [RelocRequest.contents, List.length_take, List.length_drop]
  have hfits := r.buffer.fits
  have hdef : sizeofMapDef = 28 := rfl
  -- The address does not wrap, since the buffer ends inside the address space.
  have haddr : (r.mapData + r.symbolOffset) % 2 ^ 64 =
      r.buffer.addr + (r.dataOff + r.symbolOffset) := by
    rw [RelocRequest.mapData, Nat.mod_eq_of_lt (by omega)]
    omega
  have hfield (k : Nat) (hk : k + 4 ≤ sizeofMapDef) :
      readLE r.contents (r.symbolOffset + k) 4 =
        readLE r.buffer.bytes (r.dataOff + r.symbolOffset + k) 4 := by
    rw [readLE, readLE, RelocRequest.contents, List.drop_take, List.take_take,
      Nat.min_eq_left (by omega), List.drop_drop, Nat.add_assoc]
  refine ⟨MapDef.parse r.buffer.bytes (r.dataOff + r.symbolOffset), ?_, ?_, ?_, ?_, ?_⟩
  · rw [RelocRequest.mapDefinition]
    simp only [haddr]
    rw [if_pos (by omega), Nat.add_sub_cancel_left]
  · exact (hfield 0 (by decide)).symm
  · exact (hfield 4 (by decide)).symm
  · exact (hfield 8 (by decide)).symm
  · exact (hfield 12 (by decide)).symm

/-- For every section, every definition size of at least 28 bytes and every
    index, the verifier's descriptor has the fields of the definition that
    `do_map_relocation` reads at the map's offset, and of every map it answers
    with; and the verifier never takes the map for what the runtime takes it
    for. -/
theorem verifier_maps_never_agree (s s' : σ) (r : RelocRequest) (size count i : Nat)
    (hsize : sizeofLoadMapDef ≤ size) (es : List EbpfMapDescriptor) (e : EbpfMapDescriptor)
    (hparse : parseMapsSectionClick createMapCrab mockMapFds s r.contents size count =
      some (es, s'))
    (he : es[i]? = some e) (hoff : r.symbolOffset = i * size % 2 ^ 64) :
    ∃ d, r.mapDefinition = some d ∧ SameFields e d ∧ ¬ SameKind e d ∧
      ∀ (A : Allocator Obj) (ctx ctx' : BpfMapCtx) (a : Addr), r.symbolSize ≠ 0 →
        doMapRelocation A ctx r = some (a, ctx') → a ≠ 0 →
        ∃ map, ctx'.mapAt a = some map ∧ SameFields e map.defn ∧ ¬ SameKind e map.defn := by
  unfold parseMapsSectionClick at hparse
  cases hdefs : loadMapDefs r.contents size count 0 with
  | none =>
      rw [hdefs] at hparse
      exact absurd hparse (by simp only [reduceCtorEq, not_false_eq_true])
  | some defs =>
      simp only [hdefs] at hparse
      rcases describeMaps_getElem createMapCrab mockMapFds defs s s' es hparse i e he with
        ⟨l, hl, htype, hkey, hvalue, hmax⟩
      -- Both sides read the definition at one offset of the section.
      have hload := loadMapDefs_getElem r.contents size count 0 defs hdefs i l hl
      rw [Nat.zero_add] at hload
      rcases loadMapDef_fields r.contents size i l hsize hload with
        ⟨hfit, hltype, hlkey, hlvalue, hlmax⟩
      rw [← hoff] at hfit hltype hlkey hlvalue hlmax
      rcases mapDefinition_of_contents r hfit with ⟨d, hd, hdtype, hdkey, hdvalue, hdmax⟩
      have hfields : SameFields e d :=
        ⟨htype.trans (hltype.trans hdtype.symm), hkey.trans (hlkey.trans hdkey.symm),
          hvalue.trans (hlvalue.trans hdvalue.symm), hmax.trans (hlmax.trans hdmax.symm)⟩
      refine ⟨d, hd, hfields, not_sameKind e d hfields.type, ?_⟩
      intro A ctx ctx' a hsymbol hrel ha
      -- An answer other than zero is a map with the fields that were read.
      have hrelocates := relocates_of_doMapRelocation A ctx ctx' r a hrel
      rcases accepts_or_zero A ctx ctx' r a hsymbol hrelocates with ⟨-, hstands⟩ | ⟨-, hzero⟩
      · rcases hstands with ⟨map, d', -, hmap, hd', hsame⟩
        rw [hd, Option.some.injEq] at hd'
        subst hd'
        have hrecorded := hfields.of_same hsame
        exact ⟨map, hmap, hrecorded, not_sameKind e map.defn hrecorded.type⟩
      · exact absurd hzero ha

end

/-! ## A sample section -/

section Sample

/-- A hash map and an array. -/
def sampleMaps : Bytes := sampleHash ++ sampleMapDef mapTypeArray 4 8 2

/-- The relocation of a reference to map `i` of the sample section. -/
def sampleMapRequest (i : Nat) : RelocRequest where
  buffer := sampleBuffer sampleMaps
  dataOff := 0
  mapDataSize := 56
  symbolName := [0x6d]
  symbolOffset := i * 28
  symbolSize := 28
  imm := 0

/-- Descriptor numbers in order. -/
def sampleCrab : CreateMapCrab Nat :=
  fun next _ _ _ _ => (next, next + 1)

/-- The verifier's descriptors of the sample section. -/
def sampleDescriptors : List EbpfMapDescriptor :=
  [⟨1, mapTypeHash, 4, 4, 16, 0⟩, ⟨2, mapTypeArray, 4, 8, 2, 0⟩]

/-- The array of the sample section. -/
theorem sample_array_misread :
    ∃ d, (sampleMapRequest 1).mapDefinition = some d ∧
      SameFields ⟨2, mapTypeArray, 4, 8, 2, 0⟩ d ∧ ¬ SameKind ⟨2, mapTypeArray, 4, 8, 2, 0⟩ d := by
  rcases verifier_maps_never_agree sampleCrab true 1 3 (sampleMapRequest 1) 28 2 1 (by decide)
    sampleDescriptors ⟨2, mapTypeArray, 4, 8, 2, 0⟩ (by decide) rfl (by decide) with
    ⟨d, hd, hfields, hkind, -⟩
  exact ⟨d, hd, hfields, hkind⟩

/-- The hash map of the sample section, which the verifier takes for an
    array. -/
theorem hash_verified_as_array :
    ¬ ∀ (createMapCrab : CreateMapCrab Nat) (mockMapFds : Bool) (s s' : Nat) (r : RelocRequest)
      (size count i : Nat) (es : List EbpfMapDescriptor) (e : EbpfMapDescriptor),
      sizeofLoadMapDef ≤ size →
      parseMapsSectionClick createMapCrab mockMapFds s r.contents size count = some (es, s') →
      es[i]? = some e → r.symbolOffset = i * size % 2 ^ 64 →
      ∃ d, r.mapDefinition = some d ∧ SameFields e d ∧ SameKind e d := by
  intro hclaim
  rcases hclaim sampleCrab true 1 3 (sampleMapRequest 0) 28 2 0 sampleDescriptors
    ⟨1, mapTypeHash, 4, 4, 16, 0⟩ (by decide) (by decide) rfl (by decide) with ⟨d, hd, -, hkind⟩
  have hsample : (sampleMapRequest 0).mapDefinition = some ⟨mapTypeHash, 4, 4, 16, 0, 0, 0⟩ := by
    decide
  rw [hsample, Option.some.injEq] at hd
  subst hd
  exact absurd (hkind.array.mp (by decide)) (by decide)

end Sample

end UniBPF
