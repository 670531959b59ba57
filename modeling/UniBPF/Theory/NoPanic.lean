import UniBPF.Theory.DnsData
import UniBPF.Theory.Migration
import UniBPF.Theory.NatTable
import UniBPF.Theory.RateLimit
import UniBPF.Theory.StringMatch

/-!
# Which Programs Can Panic

A panic of a program is undefined behaviour, so none may be reached, by any
packet and from any state that the program's own runs leave behind. For
thirteen of the fourteen programs none is: the divisors are constants other
than zero, the index of `stringmatcher` stays below the length of its word,
and nothing else can panic. These programs also always return, which takes
an invariant for those with maps: the maps stay of the kinds the programs
declare, so a lookup finds its element.

`dns-filter` unwraps what the constructor of the parser returns. It returns
an error for a buffer that is shorter than a header, and how long the buffer
is is up to the sender: a datagram whose length field is below twelve is
enough.

## Main definitions

* `MapsHeld`: The maps of a version, as its program has them.
* `Program.Inv`: The invariant of each program.
* `ParserAccepts`: The parser takes what `dns-filter` gives it.

## Theorems

* `natRun_eq`, `rateLimiterRun_eq`: Remainders and divisions do not panic.
* `MapsHeld.filterRun`: A run of either version.
* `main_of_inv`: One run of any program.
* `program_returns_iff`: Which programs return, on which packets.
-/

namespace UniBPF

open LittleEndian

section Arithmetic

variable (map : BpfMap) (maps : NatMaps) (ctx : BpfContext) (ns : UInt64)

theorem nextPortRun_eq : nextPortRun map = .ofOption (nextPort map) := by
  have hdivisor : ¬ portEnd - portStart = 0 := by decide
  unfold nextPortRun nextPort
  cases bpfMapLookupElem map (toLE 4 0) with
  | none => rfl
  | some found =>
      cases found with
      | none => rfl
      | some value =>
          simp only [Ending.rem_of_ne _ _ hdivisor, Ending.returned_bind, Ending.ofOption_map,
            advancePort]

theorem classifyNewRun_eq (c : Connection) :
    classifyNewRun maps ctx c = .ofOption (classifyNew maps ctx c) := by
  unfold classifyNewRun classifyNew
  rw [nextPortRun_eq]
  cases nextPort maps.nextPort with
  | none => rfl
  | some next =>
      cases next with
      | none => rfl
      | some next =>
          rcases next with ⟨port, counter⟩
          simp only [Ending.ofOption_some, Ending.returned_bind]
          cases insertRewrite maps.connections c (outgoingRewrite c port) with
          | none => rfl
          | some once =>
              simp only [Ending.ofOption_some, Ending.returned_bind]
              cases insertRewrite once c (outgoingRewrite c port) with
              | none => rfl
              | some twice => rfl

theorem tryClassifyRun_eq : tryClassifyRun maps ctx = .ofOption (tryClassify maps ctx) := by
  have hdivisor : ¬ natOutputs = 0 := by decide
  unfold tryClassifyRun tryClassify
  cases connectionOf ctx with
  | none => rfl
  | some c =>
      simp only
      cases getRewrite maps.connections c with
      | none => rfl
      | some rule =>
          cases rule with
          | some r =>
              simp only [Ending.ofOption_some, Ending.returned_bind, Ending.rem_of_ne _ _ hdivisor,
                Ending.map_returned]
          | none =>
              simp only [Ending.ofOption_some, Ending.returned_bind, classifyNewRun_eq]
              by_cases houtside : ctx.port = 1
              · rw [if_pos houtside, if_pos houtside]
                rfl
              · rw [if_neg houtside, if_neg houtside]
                by_cases hinside : ctx.port = 0
                · rw [if_pos hinside, if_pos hinside]
                · rw [if_neg hinside, if_neg hinside]
                  rfl

/-- The remainders of `nat` do not panic. -/
theorem natRun_eq : natRun maps ctx = .ofOption (natMain maps ctx) := by
  rw [natRun, natMain, tryClassifyRun_eq, Ending.ofOption_map]

theorem wholeSecondsRun_eq : wholeSecondsRun ns = .returned (wholeSeconds ns) := by
  have hdivisor : ¬ (1000000000 : UInt64) = 0 := by decide
  rw [wholeSecondsRun, Ending.div_of_ne _ _ hdivisor, Ending.map_returned, wholeSeconds]

/-- The divisions of `rate-limiter` do not panic. -/
theorem rateLimiterRun_eq : rateLimiterRun map ns ctx = .ofOption (rateLimiterMain map ns ctx) := by
  have htry : rateLimiterTry map ns ctx = .ofOption (rateLimiter map ns ctx) := by
    unfold rateLimiterTry rateLimiter
    by_cases hptr : (!ctx.getPtr 0 ipv4HdrLen) = true
    · rw [if_pos hptr, if_pos hptr]
      rfl
    rw [if_neg hptr, if_neg hptr]
    cases getRateLimit map (sourceOf ctx) with
    | none => rfl
    | some found =>
        cases found with
        | some r =>
            simp only [Ending.ofOption_some, Ending.returned_bind, grantTokensRun,
              wholeSecondsRun_eq, Ending.map_returned]
            -- A known source: its tokens are brought up to date and stored.
            cases hset : setRateLimit map (sourceOf ctx) (grantTokensIfNeeded r ns) with
            | none =>
                unfold grantTokensIfNeeded at hset
                simp only [hset]
                rfl
            | some map' =>
                unfold grantTokensIfNeeded at hset
                simp only [hset, Ending.ofOption_some, Ending.returned_bind, Ending.ofOption_map]
                rfl
        | none =>
            simp only [Ending.ofOption_some, Ending.returned_bind, rateDefaultRun,
              wholeSecondsRun_eq, Ending.map_returned]
            -- A new source: the default goes in and is looked up again.
            cases hinsert :
              bpfMapUpdateElem map (sourceKey (sourceOf ctx)) (RateLimit.default ns).encode with
            | none =>
                unfold RateLimit.default at hinsert
                simp only [hinsert]
                rfl
            | some inserted =>
                unfold RateLimit.default at hinsert
                simp only [hinsert, Ending.ofOption_some, Ending.returned_bind]
                cases getRateLimit inserted (sourceOf ctx) with
                | none => rfl
                | some again =>
                    cases again with
                    | none => rfl
                    | some r =>
                        simp only [Ending.ofOption_some, Ending.returned_bind, Ending.ofOption_map]
  rw [rateLimiterRun, rateLimiterMain, htry, Ending.ofOption_map]

end Arithmetic

/-- The maps of a version: each name of a map leads to the address in the
    program, and there is an array with one element. -/
structure MapsHeld (v : Version) (calls : List RelocCall) (ctx : BpfMapCtx) : Prop where
  inv : CtxInv ctx
  address : ∀ e ∈ v.maps, ctx.mapByName e.1 = some (addressIn calls e.1)
  cells : ∀ e ∈ v.maps, ∃ bytes, CellAt ctx e.1 e.2 bytes

section Versions

variable (v : Version) (calls : List RelocCall) (ctx : BpfMapCtx)

theorem MapsHeld.read (h : MapsHeld v calls ctx) (e : Bytes × MapDef) (he : e ∈ v.maps) :
    ∃ bytes, getElem0 ctx (addressIn calls e.1) = some (some bytes) := by
  rcases h.cells e he with ⟨bytes, hcell⟩
  exact ⟨bytes, getElem0_cellAt ctx _ e.2 bytes e.1 hcell (h.address e he)⟩

theorem MapsHeld.write (h : MapsHeld v calls ctx) (e : Bytes × MapDef) (he : e ∈ v.maps)
    (new : Bytes) (hnew : new.length = e.2.valueSize) :
    ∃ ctx', setElem0 ctx (addressIn calls e.1) new = some ctx' ∧ MapsHeld v calls ctx' := by
  rcases h.cells e he with ⟨bytes, hcell⟩
  rcases setElem0_cellAt ctx _ e.2 bytes e.1 new h.inv hcell (h.address e he) hnew with
    ⟨ctx', hset, hnames, hinv, hwritten, hkept⟩
  refine ⟨ctx', hset, hinv, ?_, ?_⟩
  · intro d hd
    rw [hnames]
    exact h.address d hd
  · intro d hd
    by_cases hname : d.1 = e.1
    -- One name, one definition: this is the map that was written.
    · have hdefn : d.2 = e.2 := maps_functional v e.1 d.2 e.2 (by rw [← hname]; exact hd) he
      rw [hname, hdefn]
      exact ⟨new, hwritten⟩
    · rcases h.cells d hd with ⟨old, hold⟩
      exact ⟨old, hkept d.1 d.2 old hname hold⟩

/-- After a load the maps are there, with zeros. -/
theorem mapsHeld_load (A : Allocator Obj) (file : LoadFile) (s : Filtering)
    (h : loadVersion A .new v file = some s) :
    ∃ calls, s.program = some ⟨v, calls⟩ ∧ MapsHeld v calls s.ctx := by
  have hnamed : Named v BpfMapCtx.empty := by
    intro e _ a hbound
    exact absurd hbound (by simp only [BpfMapCtx.empty, reduceCtorEq, not_false_eq_true])
  rcases bound_load A v .new s file ctxInv_empty hnamed h with
    ⟨hbound, -, -, calls, hprogram, haddress⟩
  refine ⟨calls, hprogram, hbound.inv, haddress, ?_⟩
  intro e he
  have hone : ∀ v : Version, ∀ e ∈ v.maps, e.2.maxEntries = 1 ∧ e.2.type = mapTypeArray := by
    intro v
    cases v with
    | v1 => decide
    | v2 => decide
  exact ⟨_, cellAt_fresh _ s.ctx _ e.2 v e.1 hbound he (hone v e he).1 (hone v e he).2 rfl
    (haddress e he)⟩

theorem MapsHeld.mainV1 (h : MapsHeld .v1 calls ctx) :
    ∃ ctx' answer, mainV1 ctx (addressIn calls packetCtrV1) = some (ctx', answer) ∧
      MapsHeld .v1 calls ctx' := by
  have hmem : (packetCtrV1, counterDef32) ∈ Version.v1.maps := List.mem_cons_self
  rcases h.read _ _ _ _ hmem with ⟨value, hread⟩
  rcases h.write _ _ _ _ hmem (toLE 4 (Bytes.u32 value 0 + 1).toNat) (length_toLE 4 _) with
    ⟨ctx', hset, hheld⟩
  refine ⟨ctx', if 10 < Bytes.u32 value 0 + 1 then .drop else .pass, ?_, hheld⟩
  simp only [UniBPF.mainV1, hread, hset, Option.map_some]

/-- The migration happens or has happened. -/
theorem MapsHeld.handleMigration (h : MapsHeld .v2 calls ctx) :
    ∃ ctx' copied, handleMigration ctx (addressIn calls packetCtrV2) (addressIn calls packetCtrV1)
        (addressIn calls versionName) = some ⟨ctx', some copied⟩ ∧ MapsHeld .v2 calls ctx' := by
  have hmem2 : (packetCtrV2, counterDef64) ∈ Version.v2.maps := by decide
  have hmem1 : (packetCtrV1, counterDef32) ∈ Version.v2.maps := by decide
  have hmemv : (versionName, counterDef64) ∈ Version.v2.maps := by decide
  rcases h.read _ _ _ _ hmemv with ⟨current, hcurrent⟩
  by_cases hdone : Bytes.u64 current 0 ≠ 2
  · rcases h.read _ _ _ _ hmem1 with ⟨old, hold⟩
    rcases h.read _ _ _ _ hmem2 with ⟨new, hnew⟩
    rcases h.write _ _ _ _ hmem2 (toLE 8 (Bytes.u32 old 0).toNat) (length_toLE 8 _) with
      ⟨mid, hset, hmid⟩
    rcases hmid.write _ _ _ _ hmemv (toLE 8 2) (length_toLE 8 _) with ⟨ctx', hset', hheld⟩
    refine ⟨ctx', true, ?_, hheld⟩
    simp only [UniBPF.handleMigration, hcurrent, if_pos hdone, hold, hnew, hset, hset',
      Option.map_some]
  · refine ⟨ctx, false, ?_, h⟩
    simp only [UniBPF.handleMigration, hcurrent, if_neg hdone]

theorem MapsHeld.mainV2 (h : MapsHeld .v2 calls ctx) :
    ∃ ctx' answer copied, mainV2 ctx (addressIn calls packetCtrV2) (addressIn calls packetCtrV1)
        (addressIn calls versionName) = some (ctx', answer, copied) ∧ MapsHeld .v2 calls ctx' := by
  have hmem : (packetCtrV2, counterDef64) ∈ Version.v2.maps := by decide
  rcases h.handleMigration with ⟨mid, copied, hmigrated, hmid⟩
  rcases hmid.read _ _ _ _ hmem with ⟨value, hread⟩
  rcases hmid.write _ _ _ _ hmem (toLE 8 (Bytes.u64 value 0 + 1).toNat) (length_toLE 8 _) with
    ⟨ctx', hset, hheld⟩
  refine ⟨ctx', if 10 < Bytes.u64 value 0 + 1 then .drop else .pass, copied, ?_, hheld⟩
  simp only [UniBPF.mainV2, hmigrated, hread, hset, Option.map_some]

/-- A run of either version. -/
theorem MapsHeld.filterRun (s : Filtering) (hprogram : s.program = some ⟨v, calls⟩)
    (h : MapsHeld v calls s.ctx) :
    ∃ s' code, filterRun s = .returned (s', code) ∧ s'.program = some ⟨v, calls⟩ ∧
      MapsHeld v calls s'.ctx := by
  have hpacket : ∃ s', filterPacket s = some s' ∧ s'.program = some ⟨v, calls⟩ ∧
      MapsHeld v calls s'.ctx := by
    cases v with
    | v1 =>
        rcases MapsHeld.mainV1 calls s.ctx h with ⟨ctx', answer, hmain, hheld⟩
        refine ⟨{ s with ctx := ctx', answers := s.answers ++ [answer] }, ?_, hprogram, hheld⟩
        simp only [filterPacket, hprogram, hmain, Option.map_some]
    | v2 =>
        rcases MapsHeld.mainV2 calls s.ctx h with ⟨ctx', answer, copied, hmain, hheld⟩
        refine ⟨{ s with
          ctx := ctx'
          answers := s.answers ++ [answer]
          copies := s.copies + if copied then 1 else 0 }, ?_, hprogram, hheld⟩
        simp only [filterPacket, hprogram, hmain, Option.map_some]
  rcases hpacket with ⟨s', hs', hkept⟩
  exact ⟨s', _, by rw [UniBPF.filterRun, hs', Ending.ofOption_some, Ending.map_returned], hkept⟩

end Versions

section Runs

variable (lib : DnsLibrary)

theorem natRun_sound (maps : NatMaps) (ctx : BpfContext) (h : maps.Sound) :
    ∃ out, natRun maps ctx = .returned out ∧ out.1.Sound := by
  rcases classify_cases maps ctx h with ⟨maps', packet, output, hmain, hsound, -⟩
  exact ⟨(maps', packet, output), by rw [natRun_eq, hmain, Ending.ofOption_some], hsound⟩

theorem rateLimiterRun_sound (map : BpfMap) (entries : List (Bytes × Bytes)) (ns : UInt64)
    (ctx : BpfContext) (h : RateSound map entries) :
    ∃ out entries', rateLimiterRun map ns ctx = .returned out ∧ RateSound out.1 entries' := by
  rw [rateLimiterRun_eq]
  by_cases hlen : 20 ≤ ctx.packet.length
  · rcases rateLimiter_step map entries h ⟨ns, ctx⟩ hlen with ⟨map', entries', hmain, hsound, -⟩
    exact ⟨_, entries', by rw [hmain, Ending.ofOption_some], hsound⟩
  -- A packet without a header is aborted before the map is looked at.
  · have hptr : ctx.getPtr 0 ipv4HdrLen = false := decide_eq_false hlen
    refine ⟨(map, .abort), entries, ?_, h⟩
    simp only [rateLimiterMain, rateLimiter, hptr, Bool.not_false, if_true, Option.map_some,
      Option.getD_none, Ending.ofOption_some]

theorem roundRobinRun_sound (block : Bytes) (hlen : block.length = 4) :
    ∃ out block', roundRobinRun ⟨counterDef32, .array block⟩ = .returned out ∧
      out.1 = ⟨counterDef32, .array block'⟩ ∧ block'.length = 4 := by
  have hdivisor : ¬ roundRobinOutputs = 0 := by decide
  -- The map is declared like the one of the ports.
  have hlookup : bpfMapLookupElem ⟨counterDef32, .array block⟩ (toLE 4 0) = some (some block) :=
    lookup_nextPort block hlen
  have hwrite : ∀ n, writeThrough ⟨counterDef32, .array block⟩ (toLE 4 0) 0 (toLE 4 n)
      = some ⟨counterDef32, .array (toLE 4 n)⟩ := write_nextPort block hlen
  refine ⟨(⟨counterDef32, .array (toLE 4 (Bytes.u32 block 0 + 1).toNat)⟩,
    Bytes.u32 block 0 % roundRobinOutputs), _, ?_, rfl, length_toLE 4 _⟩
  simp only [roundRobinRun, hlookup, hwrite, Ending.ofOption_some, Ending.returned_bind,
    Ending.rem_of_ne _ _ hdivisor, Ending.map_returned]

theorem stringMatcherMain_returns (ctx : BpfContext) :
    ∃ r, stringMatcherMain ctx = .returned r := by
  rw [stringMatcherMain, Ending.map_returns_iff]
  unfold stringMatcher
  by_cases hptr : (!ctx.getPtr 0 ipv4HdrLen) = true
  · rw [if_pos hptr]
    exact ⟨none, rfl⟩
  · rw [if_neg hptr]
    exact matchLoop_returns ctx 2000 0 0 (by decide)

/-- Bytes can always be taken off a packet. -/
theorem stripEtherVlanHeader_returns (p : WritablePacket) (room : Room) :
    ∃ out, stripEtherVlanHeader p room = some out := by
  unfold stripEtherVlanHeader
  by_cases hptr : (startRewriting p).ctx.getPtr 12 2 = true
  · simp only [hptr, if_true]
    by_cases hvlan : fromBe (Bytes.u16 p.bytes 12) = 0x8100
    · rw [if_pos hvlan]
      exact ⟨_, rfl⟩
    · rw [if_neg hvlan]
      exact ⟨_, rfl⟩
  · simp only [hptr, Bool.false_eq_true, if_false]
    exact ⟨_, rfl⟩

theorem dnsFilterRun_returns_iff (ctx : BpfContext) :
    (∃ r, dnsFilterRun lib ctx = .returned r) ↔
      (Parsed ctx.packet → lib.new (parsedData ctx.packet) ≠ none) := by
  rw [dnsFilterRun, Ending.map_returns_iff]
  unfold dnsFilterTry
  by_cases hparsed : Parsed ctx.packet
  · rw [(dnsFilterData_ok_iff ctx _).mpr ⟨hparsed, rfl⟩]
    simp only
    cases lib.new (parsedData ctx.packet) with
    | none =>
        refine ⟨fun h => ?_, fun h => absurd rfl (h hparsed)⟩
        rcases h with ⟨r, hr⟩
        exact absurd hr (by simp only [Ending.unwrap, Ending.bind, reduceCtorEq, not_false_eq_true])
    | some message => exact ⟨fun _ _ => Option.some_ne_none message, fun _ => ⟨_, rfl⟩⟩
  -- The parser is not called.
  · refine ⟨fun _ h => absurd h hparsed, fun _ => ?_⟩
    cases hdata : dnsFilterData ctx with
    | none => exact ⟨_, rfl⟩
    | some e =>
        cases e with
        | error answer => exact ⟨_, rfl⟩
        | ok data => exact absurd ((dnsFilterData_ok_iff ctx data).mp hdata).1 hparsed

/-- What the runs of a program keep. -/
def Program.Inv : (p : Program) → p.State → Prop
  | .nat, maps => NatMaps.Sound maps
  | .rateLimiter, map => ∃ entries, RateSound map entries
  | .roundRobin, map => ∃ block : Bytes, map = BpfMap.mk counterDef32 (.array block) ∧
    block.length = 4
  | .stateMigrationV1, s => ∃ calls, Filtering.program s = some ⟨.v1, calls⟩ ∧
      MapsHeld .v1 calls (Filtering.ctx s)
  | .stateMigrationV2, s => ∃ calls, Filtering.program s = some ⟨.v2, calls⟩ ∧
      MapsHeld .v2 calls (Filtering.ctx s)
  | _, _ => True

theorem inv_of_loaded (p : Program) (s : p.State) (h : p.Loaded s) : p.Inv s := by
  cases p with
  | nat =>
      rw [show s = NatMaps.new from h]
      exact NatMaps.new_sound
  | rateLimiter =>
      rw [show s = pktCountNew from h]
      exact ⟨[], pktCountNew_sound⟩
  | roundRobin => exact ⟨List.replicate 4 0, h, rfl⟩
  | stateMigrationV1 =>
      rcases h with ⟨A, file, hload⟩
      exact mapsHeld_load .v1 A file s hload
  | stateMigrationV2 =>
      rcases h with ⟨A, file, hload⟩
      exact mapsHeld_load .v2 A file s hload
  | _ => exact trivial

/-- The parser takes what `dns-filter` gives it. -/
def ParserAccepts (p : Program) (inv : Invocation) : Prop :=
  p = .dnsFilter → Parsed inv.packet.bytes → lib.new (parsedData inv.packet.bytes) ≠ none

/-- One run: it returns, and the maps stay as they should be. -/
theorem main_of_inv (p : Program) (s : p.State) (inv : Invocation) (h : p.Inv s)
    (haccepted : ParserAccepts lib p inv) : ∃ out, p.main lib s inv = .returned out ∧
    p.Inv out.1 := by
  -- The programs that keep something come first; of the others only the parser can panic.
  cases p with
  | nat =>
      rcases natRun_sound s inv.ctx h with ⟨out, hrun, hsound⟩
      exact ⟨(out.1, out.2.2), by rw [Program.main, hrun, Ending.map_returned], hsound⟩
  | rateLimiter =>
      rcases h with ⟨entries, hentries⟩
      rcases rateLimiterRun_sound s entries inv.ns inv.ctx
        hentries with ⟨out, entries', hrun, hsound⟩
      exact ⟨(out.1, out.2.code), by rw [Program.main, hrun, Ending.map_returned], entries', hsound⟩
  | roundRobin =>
      rcases h with ⟨block, hmap, hlen⟩
      rcases roundRobinRun_sound block hlen with ⟨out, block', hrun, hmap', hlen'⟩
      refine ⟨out, ?_, block', hmap', hlen'⟩
      rw [hmap]
      exact hrun
  | stateMigrationV1 =>
      rcases h with ⟨calls, hprogram, hheld⟩
      rcases MapsHeld.filterRun .v1 calls s hprogram hheld with ⟨s', code, hrun, hkept⟩
      exact ⟨(s', code), hrun, calls, hkept⟩
  | stateMigrationV2 =>
      rcases h with ⟨calls, hprogram, hheld⟩
      rcases MapsHeld.filterRun .v2 calls s hprogram hheld with ⟨s', code, hrun, hkept⟩
      exact ⟨(s', code), hrun, calls, hkept⟩
  | dnsFilter =>
      rcases (dnsFilterRun_returns_iff lib inv.ctx).mpr (haccepted rfl) with ⟨r, hrun⟩
      exact ⟨((), r.code), by rw [Program.main, hrun, Ending.map_returned], trivial⟩
  | stringMatcher =>
      rcases stringMatcherMain_returns inv.ctx with ⟨r, hrun⟩
      exact ⟨((), r.code), by rw [Program.main, hrun, Ending.map_returned], trivial⟩
  | stripEtherVlanHeader =>
      rcases stripEtherVlanHeader_returns inv.packet inv.room with ⟨out, hrun⟩
      exact ⟨((), out.2.code),
        by rw [Program.main, hrun, Ending.ofOption_some, Ending.map_returned], trivial⟩
  | _ => exact ⟨_, rfl, trivial⟩

/-- Every step that is completed is of a packet the parser takes, and keeps
    the invariant. -/
theorem inv_step (p : Program) (s s' : p.State) (inv : Invocation) (h : p.Inv s)
    (hstep : p.step lib s inv = some s') : p.Inv s' := by
  have haccepted : ParserAccepts lib p inv := by
    intro hdns
    subst hdns
    refine (dnsFilterRun_returns_iff lib inv.ctx).mp ?_
    rw [← Ending.map_returns_iff (fun r => ((), FilterResult.code r))]
    unfold Program.step at hstep
    cases hmain : Program.main lib .dnsFilter s inv with
    | returned out => exact ⟨out, hmain⟩
    | panicked =>
        rw [hmain] at hstep
        exact absurd hstep (by simp only [reduceCtorEq, not_false_eq_true])
    | faulted =>
        rw [hmain] at hstep
        exact absurd hstep (by simp only [reduceCtorEq, not_false_eq_true])
  rcases main_of_inv lib p s inv h haccepted with ⟨out, hmain, hinv⟩
  rw [Program.step, hmain] at hstep
  rwa [← Option.some.inj hstep]

/-- From every state that a program's runs lead to, and on every packet, the
    program returns, exactly if it is not `dns-filter` or the parser takes
    what `dns-filter` gives it. -/
theorem program_returns_iff (p : Program) (loaded s : p.State) (hloaded : p.Loaded loaded)
    (hreachable : Steps.Reachable (p.step lib) loaded s) (inv : Invocation) :
    (∃ out, p.main lib s inv = .returned out) ↔ ParserAccepts lib p inv := by
  have hinv : p.Inv s := hreachable.invariant p.Inv (inv_of_loaded p loaded hloaded)
    (fun s inv s' h hstep => inv_step lib p s s' inv h hstep)
  constructor
  · rintro ⟨out, hmain⟩ hdns
    subst hdns
    refine (dnsFilterRun_returns_iff lib inv.ctx).mp ?_
    rw [← Ending.map_returns_iff (fun r => ((), FilterResult.code r))]
    exact ⟨out, hmain⟩
  · intro haccepted
    rcases main_of_inv lib p s inv hinv haccepted with ⟨out, hmain, -⟩
    exact ⟨out, hmain⟩

end Runs

/-- A query with a header and eight bytes behind it. -/
def paddedQuery : Invocation :=
  ⟨⟨0, 4096, (dnsFrame 20 (List.replicate 20 0)).packet, by decide⟩, 0, 0, ⟨none, fun _ => 0⟩⟩

/-- A datagram without data, and eight bytes behind it. -/
def bareDatagram : Invocation :=
  ⟨⟨0, 4096, (dnsFrame 8 (List.replicate 8 0)).packet, by decide⟩, 0, 0, ⟨none, fun _ => 0⟩⟩

theorem padded_query_returns : Program.Loaded .dnsFilter () ∧
    Steps.Reachable (Program.step headerOnlyLibrary .dnsFilter) () () ∧
    ∃ out, Program.main headerOnlyLibrary .dnsFilter () paddedQuery = .returned out := by
  refine ⟨trivial, ⟨[], rfl⟩, ?_⟩
  refine (program_returns_iff headerOnlyLibrary .dnsFilter () () trivial ⟨[], rfl⟩ paddedQuery).mpr
    ?_
  intro _ _
  decide +kernel

/-- The parser returns an error for what is shorter than a header, and the
    program gives it eight bytes. -/
theorem bare_datagram_panics :
    (∀ data, data.length < 12 → headerOnlyLibrary.new data = none) ∧ Program.Loaded .dnsFilter () ∧
      Program.main headerOnlyLibrary .dnsFilter () bareDatagram = .panicked :=
  ⟨fun _ h => if_pos h, trivial, rfl⟩

end UniBPF
