import UniBPF.Core.RateLimiter
import UniBPF.Lib.TokenBucket

/-!
# Packets per Source

The rate limiter keeps a token bucket for each source. Its entries are 32-bit
numbers in a shared map, changed in place, and the arithmetic on them wraps;
as long as the clock does not run backwards and stays below `2 ^ 31` seconds,
nothing does wrap, and what the program does to the entry of a source is what
a bucket of capacity three does (`bucketOf_arrive`). A packet touches the
entry of its own source only.

The answers to the packets of one source are therefore those of a bucket that
sees these packets and no others (`rateServe_spec`), and everything that is
known of buckets is known of them. The source of a packet is the four bytes
the header has in its place, whatever the program reads there.

## Main definitions

* `Arrival.source`: The source of a packet.
* `RateSound`, `entryOf`: The map, and the entry of a source.
* `bucketOf`: An entry as a bucket.
* `secondsOf`, `answersTo`: The packets of a source, with the answers.

## Theorems

* `sourceKey_sourceOf`: The key the program uses is the source.
* `rateLimiter_step`: One packet.
* `bucketOf_arrive`: The program's arithmetic is that of a bucket.
* `rateServe_spec`: The answers to one source are those of its bucket.
* `rate_limit`: The limit, and what it does not depend on.
-/

namespace UniBPF

open LittleEndian TokenBucket

/-- A map as the program declares it, with entries of the right size. -/
structure RateSound (m : BpfMap) (entries : List (Bytes × Bytes)) : Prop where
  map : m = ⟨pktCountDef, .hash entries⟩
  size : ∀ k v, entries.lookup k = some v → v.length = 8

/-- The source of a packet: bytes 12 to 15 of the IPv4 header. -/
def Arrival.source (e : Arrival) : Bytes :=
  (e.ctx.packet.drop 12).take 4

/-- The program finds a packet's entry under the packet's source. -/
theorem sourceKey_sourceOf (e : Arrival) (h : 20 ≤ e.ctx.packet.length) :
    sourceKey (sourceOf e.ctx) = e.source := by
  have hlt : readLE e.ctx.packet 12 4 < 2 ^ 32 := readLE_lt e.ctx.packet 12 4
  have hnat : (sourceOf e.ctx).toNat = readLE e.ctx.packet 12 4 := by
    rw [sourceOf, Bytes.u32, UInt32.toNat_ofNat', Nat.mod_eq_of_lt hlt]
  rw [sourceKey, hnat, toLE_readLE e.ctx.packet 12 4 (by omega), Arrival.source]

/-- The map takes the key as a whole. -/
theorem sourceKey_take (src : UInt32) :
    (sourceKey src).take pktCountDef.keySize = sourceKey src :=
  List.take_of_length_le (by rw [sourceKey, length_toLE]; rfl)

/-- The entry of a source. -/
def entryOf (entries : List (Bytes × Bytes)) (a : Bytes) : Option RateLimit :=
  (entries.lookup a).map RateLimit.decode

theorem RateLimit.decode_encode (r : RateLimit) : RateLimit.decode r.encode = r := by
  have hlast : toLE 4 r.lastTokenGrant.toNat = toLE 4 r.lastTokenGrant.toNat ++ [] :=
    (List.append_nil _).symm
  have hfirst : Bytes.u32 r.encode 0 = r.tokens := by
    rw [Bytes.u32, RateLimit.encode, ofNat_readLE_u32]
  have hsecond : Bytes.u32 r.encode 4 = r.lastTokenGrant := by
    rw [Bytes.u32, RateLimit.encode, readLE_toLE_skip 4 _ _ 0, hlast, ofNat_readLE_u32]
  rw [RateLimit.decode, hfirst, hsecond]

theorem RateLimit.length_encode (r : RateLimit) : r.encode.length = 8 := by
  rw [RateLimit.encode, List.length_append, length_toLE, length_toLE]

def answerOf (passed : Bool) : FilterResult :=
  if passed then .pass else .drop

section Map

variable (m : BpfMap) (entries : List (Bytes × Bytes)) (hm : RateSound m entries) (src : UInt32)
  (key : Bytes) (r : RateLimit)

/-- The entries with one more, or one changed. -/
def setEntry (entries : List (Bytes × Bytes)) (key : Bytes) (r : RateLimit) :
    List (Bytes × Bytes) :=
  insertEntry entries key r.encode

theorem entryOf_setEntry (a : Bytes) :
    entryOf (setEntry entries key r) a = if a = key then some r else entryOf entries a := by
  rw [entryOf, setEntry, lookup_insertEntry]
  by_cases h : a = key
  · rw [if_pos h, if_pos h, Option.map_some, RateLimit.decode_encode]
  · rw [if_neg h, if_neg h]
    rfl

include hm

theorem rateSound_setEntry :
    RateSound ⟨pktCountDef, .hash (setEntry entries key r)⟩ (setEntry entries key r) := by
  refine ⟨rfl, ?_⟩
  intro k v hv
  rw [setEntry, lookup_insertEntry] at hv
  by_cases h : k = key
  · rw [if_pos h, Option.some.injEq] at hv
    rw [← hv]
    exact RateLimit.length_encode r
  · rw [if_neg h] at hv
    exact hm.size k v hv

theorem getRateLimit_sound : getRateLimit m src = some (entryOf entries (sourceKey src)) := by
  have htype : pktCountDef.type = mapTypeHash := rfl
  simp only [getRateLimit, bpfMapLookupElem, hm.map, if_pos htype, sourceKey_take, Option.map_some]
  rfl

theorem insertRateLimit_sound : bpfMapUpdateElem m (sourceKey src) r.encode
    = some ⟨pktCountDef, .hash (setEntry entries (sourceKey src) r)⟩ := by
  have htype : pktCountDef.type = mapTypeHash := rfl
  have hvalue : r.encode.take pktCountDef.valueSize = r.encode :=
    List.take_of_length_le (by rw [RateLimit.length_encode]; rfl)
  simp only [bpfMapUpdateElem, hm.map, if_pos htype, sourceKey_take, hvalue, setEntry]

/-- Writing through the pointer changes the entry that is there. -/
theorem setRateLimit_sound (old : RateLimit) (hold : entryOf entries (sourceKey src) = some old) :
    setRateLimit m src r = some ⟨pktCountDef, .hash (setEntry entries (sourceKey src) r)⟩ := by
  rcases Option.map_eq_some_iff.mp hold with ⟨value, hvalue, -⟩
  have hsize := hm.size _ value hvalue
  have hfits : 0 + r.encode.length ≤ value.length := by
    rw [RateLimit.length_encode, hsize]
  -- The entry is overwritten as a whole.
  have hwhole : overwrite value 0 r.encode = r.encode := by
    rw [overwrite, List.take_zero, List.nil_append, Nat.zero_add, RateLimit.length_encode,
      List.drop_of_length_le (by rw [hsize]), List.append_nil]
  simp only [setRateLimit, writeThrough, hm.map, sourceKey_take, hvalue, if_pos hfits, hwhole,
    setEntry]

/-- A token is taken from the entry that is there. -/
theorem spendFrom_sound (hold : entryOf entries (sourceKey src) = some r) :
    spendFrom m src r = some
      (⟨pktCountDef, .hash (setEntry entries (sourceKey src) (spendToken r).1)⟩,
        answerOf (spendToken r).2) := by
  have hset := setRateLimit_sound m entries hm src (spendToken r).1 r hold
  simp only [spendFrom, hset, Option.map_some, answerOf]

end Map

/-- The entry a packet takes its token from. -/
def entryFor (entries : List (Bytes × Bytes)) (a : Bytes) (ns : UInt64) : RateLimit :=
  match entryOf entries a with
  | none => RateLimit.default ns
  | some r => grantTokensIfNeeded r ns

/-- Setting an entry twice. -/
theorem entryOf_setEntry_setEntry (entries : List (Bytes × Bytes)) (key a : Bytes)
    (r r' : RateLimit) : entryOf (setEntry (setEntry entries key r) key r') a
      = if a = key then some r' else entryOf entries a := by
  rw [entryOf_setEntry, entryOf_setEntry]
  by_cases h : a = key
  · rw [if_pos h, if_pos h]
  · rw [if_neg h, if_neg h, if_neg h]

/-- One packet: a token is taken from the entry of its source, and no other
    entry changes. -/
theorem rateLimiter_step (m : BpfMap) (entries : List (Bytes × Bytes)) (hm : RateSound m entries)
    (e : Arrival) (hlen : 20 ≤ e.ctx.packet.length) :
    ∃ m' entries', rateLimiterMain m e.ns e.ctx
        = some (m', answerOf (spendToken (entryFor entries e.source e.ns)).2) ∧
      RateSound m' entries' ∧ ∀ a, entryOf entries' a = if a = e.source
        then some (spendToken (entryFor entries e.source e.ns)).1 else entryOf entries a := by
  have hptr : e.ctx.getPtr 0 ipv4HdrLen = true := decide_eq_true hlen
  rw [← sourceKey_sourceOf e hlen]
  unfold rateLimiterMain rateLimiter entryFor
  rw [getRateLimit_sound m entries hm, hptr]
  cases hentry : entryOf entries (sourceKey (sourceOf e.ctx)) with
  | none =>
      -- The new entry is found again.
      have hm₁ := rateSound_setEntry m entries hm (sourceKey (sourceOf e.ctx))
        (RateLimit.default e.ns)
      have hfound := (entryOf_setEntry entries (sourceKey (sourceOf e.ctx))
        (RateLimit.default e.ns) (sourceKey (sourceOf e.ctx))).trans (if_pos rfl)
      refine ⟨_, _, ?_, rateSound_setEntry _ _ hm₁ _ _, fun a =>
        entryOf_setEntry_setEntry entries (sourceKey (sourceOf e.ctx)) a _ _⟩
      simp only [insertRateLimit_sound m entries hm, getRateLimit_sound _ _ hm₁, hfound,
        spendFrom_sound _ _ hm₁ _ _ hfound, Option.map_some, Option.getD_some, Bool.not_true,
        Bool.false_eq_true, if_false]
  | some r =>
      have hm₁ := rateSound_setEntry m entries hm (sourceKey (sourceOf e.ctx))
        (grantTokensIfNeeded r e.ns)
      have hfound := (entryOf_setEntry entries (sourceKey (sourceOf e.ctx))
        (grantTokensIfNeeded r e.ns) (sourceKey (sourceOf e.ctx))).trans (if_pos rfl)
      refine ⟨_, _, ?_, rateSound_setEntry _ _ hm₁ _ _, fun a =>
        entryOf_setEntry_setEntry entries (sourceKey (sourceOf e.ctx)) a _ _⟩
      simp only [setRateLimit_sound m entries hm _ _ _ hentry,
        spendFrom_sound _ _ hm₁ _ _ hfound, Option.map_some, Option.getD_some, Bool.not_true,
        Bool.false_eq_true, if_false]

section Bucket

/-- An entry as a bucket. -/
def bucketOf (r : RateLimit) : Bucket :=
  ⟨r.tokens.toNat, r.lastTokenGrant.toNat⟩

/-- The whole seconds of the clock. -/
def Arrival.seconds (e : Arrival) : Nat :=
  e.ns.toNat / 1000000000

theorem wholeSeconds_toNat (e : Arrival) (h : e.seconds < 2 ^ 31) :
    (wholeSeconds e.ns).toNat = e.seconds := by
  have hdiv : (e.ns / 1000000000).toNat = e.seconds := UInt64.toNat_div ..
  rw [wholeSeconds, UInt64.toNat_toUInt32, hdiv]
  exact Nat.mod_eq_of_lt (Nat.lt_trans h (by decide))

theorem bucketOf_spend (r : RateLimit) :
    bucketOf (spendToken r).1 = (spend (bucketOf r)).1 ∧
    (spendToken r).2 = (spend (bucketOf r)).2 := by
  have hone : (1 : UInt32).toNat = 1 := rfl
  have hiff : 1 ≤ r.tokens ↔ 0 < (bucketOf r).tokens := by
    rw [UInt32.le_iff_toNat_le, hone]
    rfl
  unfold spendToken spend
  by_cases h : 1 ≤ r.tokens
  · have hsub : (r.tokens - 1).toNat = r.tokens.toNat - 1 := UInt32.toNat_sub_of_le _ _ h
    rw [if_pos h, if_pos (hiff.mp h)]
    refine ⟨?_, rfl⟩
    rw [bucketOf, bucketOf, hsub]
  · rw [if_neg h, if_neg (fun hpos => h (hiff.mpr hpos))]
    exact ⟨rfl, rfl⟩

/-- Nothing wraps while the clock goes on and stays below `2 ^ 31`. -/
theorem bucketOf_grant (r : RateLimit) (e : Arrival) (h : e.seconds < 2 ^ 31)
    (htokens : r.tokens.toNat ≤ 3) (hlast : r.lastTokenGrant.toNat ≤ e.seconds) :
    bucketOf (grantTokensIfNeeded r e.ns) = grant 3 (bucketOf r) e.seconds := by
  have hnow := wholeSeconds_toNat e h
  have helapsed : (wholeSeconds e.ns - r.lastTokenGrant).toNat
      = e.seconds - r.lastTokenGrant.toNat := by
    rw [UInt32.toNat_sub_of_le _ _ (by rw [UInt32.le_iff_toNat_le, hnow]; exact hlast), hnow]
  have hzero : (0 : UInt32).toNat = 0 := rfl
  have hiff : 0 < wholeSeconds e.ns - r.lastTokenGrant ↔ (bucketOf r).last < e.seconds := by
    rw [UInt32.lt_iff_toNat_lt, helapsed, hzero]
    exact Nat.sub_pos_iff_lt
  unfold grantTokensIfNeeded grant
  by_cases hpos : 0 < wholeSeconds e.ns - r.lastTokenGrant
  · have hsum : (r.tokens + (wholeSeconds e.ns - r.lastTokenGrant)).toNat
        = r.tokens.toNat + (e.seconds - r.lastTokenGrant.toNat) := by
      rw [UInt32.toNat_add, helapsed]
      omega
    have hmin : (if r.tokens + (wholeSeconds e.ns - r.lastTokenGrant) ≤ 3
          then r.tokens + (wholeSeconds e.ns - r.lastTokenGrant) else 3).toNat
        = min (r.tokens.toNat + (e.seconds - r.lastTokenGrant.toNat)) 3 := by
      have hthree : (3 : UInt32).toNat = 3 := rfl
      by_cases hle : r.tokens + (wholeSeconds e.ns - r.lastTokenGrant) ≤ 3
      · have hle' := UInt32.le_iff_toNat_le.mp hle
        rw [hsum, hthree] at hle'
        rw [if_pos hle, hsum, Nat.min_eq_left hle']
      · have hle' := mt UInt32.le_iff_toNat_le.mpr hle
        rw [hsum, hthree] at hle'
        rw [if_neg hle, hthree, Nat.min_eq_right (by omega)]
    simp only [if_pos hpos, if_pos (hiff.mp hpos)]
    rw [bucketOf, hmin, hnow]
    rfl
  · simp only [if_neg hpos, if_neg (fun hlt => hpos (hiff.mpr hlt))]

/-- A packet does to the entry of its source what a request does to a
    bucket. -/
theorem bucketOf_arrive (entries : List (Bytes × Bytes)) (a : Bytes) (e : Arrival)
    (h : e.seconds < 2 ^ 31) (hready : Ready 3 ((entryOf entries a).map bucketOf) e.seconds) :
    bucketOf (spendToken (entryFor entries a e.ns)).1
        = (arrive 3 1 ((entryOf entries a).map bucketOf) e.seconds).1 ∧
      (spendToken (entryFor entries a e.ns)).2
        = (arrive 3 1 ((entryOf entries a).map bucketOf) e.seconds).2 := by
  have hspend := bucketOf_spend (entryFor entries a e.ns)
  rw [hspend.1, hspend.2]
  unfold entryFor
  cases hentry : entryOf entries a with
  | none =>
      have hdefault : bucketOf (RateLimit.default e.ns) = ⟨1, e.seconds⟩ := by
        rw [bucketOf, RateLimit.default, wholeSeconds_toNat e h]
        rfl
      simp only [Option.map_none, arrive, hdefault, and_self]
  | some r =>
      rw [hentry, Option.map_some] at hready
      rcases hready (bucketOf r) rfl with ⟨htokens, hlast⟩
      have hgrant := bucketOf_grant r e h htokens hlast
      simp only [Option.map_some, arrive, hgrant, and_self]

end Bucket

/-- IPv4 packets, seen by a clock that does not run backwards and stays below
    `2 ^ 31` seconds. -/
structure Orderly (es : List Arrival) : Prop where
  headers : ∀ e ∈ es, 20 ≤ e.ctx.packet.length
  clock : es.Pairwise (fun d e => d.ns ≤ e.ns)
  seconds : ∀ e ∈ es, e.seconds < 2 ^ 31

theorem seconds_le (d e : Arrival) (h : d.ns ≤ e.ns) : d.seconds ≤ e.seconds :=
  Nat.div_le_div_right (UInt64.le_iff_toNat_le.mp h)

/-- When the packets of a source come. -/
def secondsOf (a : Bytes) (es : List Arrival) : List Nat :=
  (es.filter (fun e => e.source = a)).map Arrival.seconds

/-- The same with the answers. -/
def answersTo (a : Bytes) (es : List Arrival) (out : List FilterResult) :
    List (Nat × FilterResult) :=
  ((es.zip out).filter (fun x => x.1.source = a)).map (fun x => (x.1.seconds, x.2))

/-- An answer of a bucket, as one of the program. -/
def asAnswer (x : Nat × Bool) : Nat × FilterResult :=
  (x.1, answerOf x.2)

section Lists

variable (a : Bytes) (e : Arrival) (es : List Arrival)

theorem secondsOf_cons_self (h : e.source = a) :
    secondsOf a (e :: es) = e.seconds :: secondsOf a es := by
  simp only [secondsOf, List.filter_cons, h, decide_true, if_true, List.map_cons]

theorem secondsOf_cons_other (h : e.source ≠ a) : secondsOf a (e :: es) = secondsOf a es := by
  simp only [secondsOf, List.filter_cons, h, decide_false, Bool.false_eq_true, if_false]

theorem answersTo_cons_self (v : FilterResult) (out : List FilterResult) (h : e.source = a) :
    answersTo a (e :: es) (v :: out) = (e.seconds, v) :: answersTo a es out := by
  simp only [answersTo, List.zip_cons_cons, List.filter_cons, h, decide_true, if_true,
    List.map_cons]

theorem answersTo_cons_other (v : FilterResult) (out : List FilterResult) (h : e.source ≠ a) :
    answersTo a (e :: es) (v :: out) = answersTo a es out := by
  simp only [answersTo, List.zip_cons_cons, List.filter_cons, h, decide_false, Bool.false_eq_true,
    if_false]

end Lists

/-- The answers to the packets of a source are those of its bucket. -/
theorem rateServe_spec (es : List Arrival) : ∀ (m : BpfMap) (entries : List (Bytes × Bytes)),
    RateSound m entries → Orderly es →
    (∀ e ∈ es, ∀ a, Ready 3 ((entryOf entries a).map bucketOf) e.seconds) →
    ∃ m' out, rateServe m es = some (m', out) ∧ out.length = es.length ∧
      ∀ a, answersTo a es out
        = (serve 3 1 ((entryOf entries a).map bucketOf) (secondsOf a es)).map asAnswer := by
  induction es with
  | nil =>
      intro m entries _ _ _
      exact ⟨m, [], rfl, rfl, fun _ => rfl⟩
  | cons e es ih =>
      intro m entries hm horderly hready
      rcases List.pairwise_cons.mp horderly.clock with ⟨hfirst, hclock⟩
      have hrest : Orderly es := ⟨fun d hd => horderly.headers d (List.mem_cons_of_mem e hd),
        hclock,
        fun d hd => horderly.seconds d (List.mem_cons_of_mem e hd)⟩
      rcases rateLimiter_step m entries hm e (horderly.headers e List.mem_cons_self) with
        ⟨m₁, entries₁, hmain, hm₁, hentries⟩
      have hseconds := horderly.seconds e List.mem_cons_self
      rcases bucketOf_arrive entries e.source e hseconds
        (hready e List.mem_cons_self e.source) with ⟨hbucket, hanswer⟩
      -- The bucket of the source has answered, the others are as they were.
      have hself : (entryOf entries₁ e.source).map bucketOf
          = some (arrive 3 1 ((entryOf entries e.source).map bucketOf) e.seconds).1 := by
        have hset : entryOf entries₁ e.source
            = some (spendToken (entryFor entries e.source e.ns)).1 :=
          (hentries e.source).trans (if_pos rfl)
        rw [hset, Option.map_some]
        exact congrArg some hbucket
      have hother : ∀ a, e.source ≠ a → entryOf entries₁ a = entryOf entries a := by
        intro a ha
        rw [hentries a]
        exact if_neg (fun heq => ha heq.symm)
      have hready₁ : ∀ d ∈ es, ∀ a, Ready 3 ((entryOf entries₁ a).map bucketOf) d.seconds := by
        intro d hd a
        by_cases ha : e.source = a
        · rw [← ha, hself]
          exact ready_arrive 3 1 _ e.seconds d.seconds (by omega)
            (hready e List.mem_cons_self e.source) (seconds_le e d (hfirst d hd))
        · rw [hother a ha]
          exact hready d (List.mem_cons_of_mem e hd) a
      rcases ih m₁ entries₁ hm₁ hrest hready₁ with ⟨m', out, hserve, hlen, hspec⟩
      refine ⟨m', answerOf (spendToken (entryFor entries e.source e.ns)).2 :: out, ?_, ?_, ?_⟩
      · simp only [rateServe, hmain, hserve, Option.map_some]
      · rw [List.length_cons, List.length_cons, hlen]
      · intro a
        by_cases ha : e.source = a
        · rw [answersTo_cons_self a e es _ out ha, secondsOf_cons_self a e es ha, serve,
            List.map_cons, hspec a, ← ha, hself, hanswer]
          rfl
        · rw [answersTo_cons_other a e es _ out ha, secondsOf_cons_other a e es ha, hspec a,
            hother a ha]

/-- A packet of a source, in a window of time, that was let through. -/
def passedIn (a : Bytes) (s t : Nat) (x : Arrival × FilterResult) : Bool :=
  decide (s ≤ x.1.seconds) && decide (x.1.seconds ≤ t) && decide (x.2 = .pass) &&
    decide (x.1.source = a)

section Source

variable (a : Bytes) (es : List Arrival) (out : List FilterResult)

/-- The bucket of a source counts the packets of that source. -/
theorem countP_passedIn (b : Option Bucket)
    (h : answersTo a es out = (serve 3 1 b (secondsOf a es)).map asAnswer) (s t : Nat) :
    (es.zip out).countP (passedIn a s t)
      = (serve 3 1 b (secondsOf a es)).countP (inWindow s t) := by
  have hcount := congrArg (List.countP fun x => decide (s ≤ x.1) && decide (x.1 ≤ t) &&
    decide (x.2 = FilterResult.pass)) h
  rw [answersTo, List.countP_map, List.countP_map, List.countP_filter] at hcount
  refine Eq.trans ?_ (hcount.trans ?_)
  · rfl
  · refine List.countP_congr ?_
    intro x _
    rcases x with ⟨now, passed⟩
    cases passed with
    | true => simp only [Function.comp_apply, asAnswer, answerOf, inWindow, if_true, decide_true]
    | false => simp only [Function.comp_apply, asAnswer, answerOf, inWindow, Bool.false_eq_true,
        if_false, reduceCtorEq, decide_false]

theorem secondsOf_sorted (h : Orderly es) : (secondsOf a es).Pairwise (· ≤ ·) := by
  rw [secondsOf, List.pairwise_map]
  exact (h.clock.imp (fun {d e} hde => seconds_le d e hde)).filter _

theorem orderly_filter (h : Orderly es) : Orderly (es.filter (fun e => e.source = a)) :=
  ⟨fun e he => h.headers e (List.mem_of_mem_filter he), h.clock.filter _,
    fun e he => h.seconds e (List.mem_of_mem_filter he)⟩

/-- The answers to a run over the packets of one source. -/
theorem answersTo_filter (hlen : out.length = (es.filter (fun e => e.source = a)).length) :
    (answersTo a (es.filter (fun e => e.source = a)) out).map Prod.snd = out := by
  have hall : ((es.filter (fun e => e.source = a)).zip out).filter (fun x => x.1.source = a)
      = (es.filter (fun e => e.source = a)).zip out := by
    refine List.filter_eq_self.mpr ?_
    intro x hx
    exact (List.mem_filter.mp (List.of_mem_zip hx).1).2
  rw [answersTo, hall, List.map_map]
  exact List.map_snd_zip (by omega)

theorem secondsOf_filter :
    secondsOf a (es.filter (fun e => e.source = a)) = secondsOf a es := by
  rw [secondsOf, List.filter_filter]
  simp only [Bool.and_self]
  rfl

end Source

theorem pktCountNew_sound : RateSound pktCountNew [] :=
  ⟨rfl, fun _ _ h => absurd h (by simp only [List.lookup_nil, reduceCtorEq, not_false_eq_true])⟩

/-- A run from the start. -/
theorem rateServe_new (es : List Arrival) (h : Orderly es) :
    ∃ m out, rateServe pktCountNew es = some (m, out) ∧ out.length = es.length ∧
      ∀ a, answersTo a es out = (serve 3 1 none (secondsOf a es)).map asAnswer :=
  rateServe_spec es pktCountNew [] pktCountNew_sound h
    (fun _ _ _ _ hb => absurd hb (by
      simp only [entryOf, List.lookup_nil, Option.map_none, reduceCtorEq, not_false_eq_true]))

/-- In every window of time at most three packets of a source are let through,
    and one more for each second of the window; a source whose packets come in
    different seconds has none dropped; and the answers to the packets of a
    source are those it would get alone. -/
theorem rate_limit (es : List Arrival) (h : Orderly es) :
    ∃ m out, rateServe pktCountNew es = some (m, out) ∧ out.length = es.length ∧
      ∀ a, (∀ s t, (es.zip out).countP (passedIn a s t) ≤ 3 + (t - s)) ∧
        ((es.filter (fun e => e.source = a)).Pairwise (fun d e => d.seconds ≠ e.seconds) →
          ∀ x ∈ es.zip out, x.1.source = a → x.2 = .pass) ∧
        ∃ m', rateServe pktCountNew (es.filter (fun e => e.source = a))
          = some (m', ((es.zip out).filter (fun x => x.1.source = a)).map Prod.snd) := by
  rcases rateServe_new es h with ⟨m, out, hserve, hlen, hspec⟩
  refine ⟨m, out, hserve, hlen, ?_⟩
  intro a
  have hsorted := secondsOf_sorted a es h
  refine ⟨?_, ?_, ?_⟩
  · intro s t
    rw [countP_passedIn a es out none (hspec a)]
    exact count_window 3 1 s t (by omega) _ none hsorted
      (fun _ _ _ hb => absurd hb (by simp only [reduceCtorEq, not_false_eq_true]))
  · intro hdifferent x hx ha
    -- Sorted and different is increasing.
    have hincreasing : (secondsOf a es).Pairwise (· < ·) := by
      have hapart : (secondsOf a es).Pairwise (· ≠ ·) := List.pairwise_map.mpr hdifferent
      exact (hsorted.and hapart).imp (fun hle => lt_of_le_of_ne hle.1 hle.2)
    have hmem : (x.1.seconds, x.2) ∈ answersTo a es out :=
      List.mem_map.mpr ⟨x, List.mem_filter.mpr ⟨hx, decide_eq_true ha⟩, rfl⟩
    rw [hspec a] at hmem
    rcases List.mem_map.mp hmem with ⟨y, hy, heq⟩
    have hpassed := serve_of_increasing 3 1 (by omega) (by omega) _ none hincreasing
      (fun _ hb => absurd hb (by simp only [reduceCtorEq, not_false_eq_true])) y hy
    have hanswer : answerOf y.2 = x.2 := congrArg Prod.snd heq
    rw [← hanswer, hpassed]
    rfl
  · rcases rateServe_new _ (orderly_filter a es h) with ⟨m', out', hserve', hlen', hspec'⟩
    have hanswers := hspec' a
    rw [secondsOf_filter, ← hspec a] at hanswers
    have hout := answersTo_filter a es out' hlen'
    rw [hanswers, answersTo, List.map_map] at hout
    refine ⟨m', ?_⟩
    rw [hserve', ← hout]
    rfl

/-- A packet to 8.8.8.8 of a host of 172.44.0.0/24, at a second. -/
def packetOf (host : UInt8) (second : UInt64) : Arrival :=
  ⟨second * 1000000000,
    ⟨[0x45, 0, 0, 20, 0, 0, 0, 0, 64, 17, 0, 0, 172, 44, 0, host, 8, 8, 8, 8], 0⟩⟩

/-- Packets of 172.44.0.2 in bursts, between them one a second of
    172.44.0.3. -/
def burst : List Arrival :=
  [packetOf 2 10, packetOf 2 10, packetOf 3 10, packetOf 2 10, packetOf 3 11, packetOf 2 16,
    packetOf 2 16, packetOf 3 16, packetOf 2 16, packetOf 2 16]

/-- The limit holds for the one, all packets of the other are let through, and
    the answers to either are those it would get alone. -/
theorem rate_limit_burst : ∃ m out, rateServe pktCountNew burst = some (m, out) ∧
    (burst.zip out).countP (passedIn [172, 44, 0, 2] 16 16) ≤ 3 ∧
    (∀ x ∈ burst.zip out, x.1.source = [172, 44, 0, 3] → x.2 = .pass) ∧
    ∃ m', rateServe pktCountNew (burst.filter (fun e => e.source = [172, 44, 0, 2]))
      = some (m', [.pass, .drop, .drop, .pass, .pass, .pass, .drop]) := by
  have h : Orderly burst := by
    refine ⟨?_, ?_, ?_⟩
    · decide +kernel
    · decide +kernel
    · decide +kernel
  have hout : (rateServe pktCountNew burst).map Prod.snd
      = some [.pass, .drop, .pass, .drop, .pass, .pass, .pass, .pass, .pass, .drop] := by
    decide +kernel
  rcases rate_limit burst h with ⟨m, out, hserve, -, hlimit⟩
  rw [hserve, Option.map_some, Option.some.injEq] at hout
  refine ⟨m, out, hserve, (hlimit [172, 44, 0, 2]).1 16 16,
    (hlimit [172, 44, 0, 3]).2.1 (by decide +kernel), ?_⟩
  rcases (hlimit [172, 44, 0, 2]).2.2 with ⟨m', hm'⟩
  change out = _ at hout
  rw [hout] at hm'
  exact ⟨m', hm'⟩

end UniBPF
