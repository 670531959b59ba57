import UniBPF.Theory.ConfigString
import UniBPF.Theory.Configure
import UniBPF.Theory.ControlRoundTrip
import Mathlib.Data.FinEnum

/-!
# What a Control Packet Reconfigures

The names of a control packet reach the element through a configuration
string. They are put into it as they are, without quotes, and Click takes it
apart again. What comes out is what went in when nothing in the names has a
meaning on the way: no NUL, which ends a C string; no comma, which starts
another argument; no space at either end, which is stripped; no quote and no
comment.

Other names do come out as something else. A name with a comma is not just
cut short: what follows the comma is an argument of its own, and can set any
member of the element.

## Main definitions

* `ReconfiguresExactly`: What a control packet does to one element.

## Theorems

* `parseArgs_clean`: Clean names set the id and the two files.
* `parseArgs_plain`: Plain names that are read back are clean.
* `controlWrite_bpf`: A round of the loop that writes is a call of
  `configure`.
* `controlLoop_each`: The loop treats every element by itself.
* `control_reconfigures_clean`: The packet does what it says, for clean names
  and among the plain ones for no others.
-/

namespace UniBPF

/-- What a control packet ought to do to an element, by what the write
    returned. -/
def ReconfiguresExactly (f : ControlFields) : RouterElement → RouterElement × Option Result → Prop
  | .other className, (y, _) => y = .other className
  | .bpf cls handler e, (y, r) =>
    if e.id = f.bpfelementId then
      r = some .success → ∃ e', y = .bpf cls handler e' ∧ e'.bpfFile = f.programName ∧
        e'.signatureFile = f.signature ∧ e'.id = e.id ∧ e'.jit = e.jit ∧ e'.dumpJit = e.dumpJit
    else y = .bpf cls handler e

section Click

variable (argvec : Bytes → List Bytes) (parseArgs : List Bytes → Option ConfArgs)
  (intArg : Bytes → Option Nat) (boolArg : Bytes → Option Bool)
  (hclick : ClickConf argvec parseArgs intArg boolArg) (f : ControlFields)

include hclick

/-- Clean names are read as they are, and nothing else is set. -/
theorem parseArgs_clean (hid : f.bpfelementId < 2 ^ 64) (hprogram : CleanName f.programName)
    (hsignature : CleanName f.signature) (args : ConfArgs)
    (h : parseArgs (argvec (controlConfig f)) = some args) :
    args = ⟨some f.bpfelementId, none, none, some f.programName, some f.signature⟩ := by
  have hconf := hclick.splits _ (controlConfig_plain f hprogram.plain hsignature.plain)
  rw [controlConfig_args f hprogram hsignature] at hconf
  rw [hconf] at h
  have hpairs := controlPairs_gives f hprogram hsignature
  -- Each keyword of the string is given once, the other two not at all.
  rcases reads_pair _ _ _ _ hpairs keyword_id (decimal f.bpfelementId)
    (by simp only [controlPairs, List.mem_cons, true_or]) (hclick.id _ _ h) with ⟨x, hx, hparse⟩
  rw [hclick.intArg_decimal f.bpfelementId hid, Option.some.injEq] at hparse
  rcases reads_pair _ _ _ _ hpairs keyword_file f.programName
    (by simp only [controlPairs, List.mem_cons, true_or, or_true]) (hclick.file _ _ h) with
    ⟨file, hfile, hname⟩
  rcases reads_pair _ _ _ _ hpairs keyword_signature f.signature
    (by simp only [controlPairs, List.mem_cons, true_or, or_true]) (hclick.signature _ _ h) with
    ⟨signature, hsig, hname'⟩
  have hjit := reads_absent _ _ _ _ hpairs keyword_jit (by
    simp only [controlPairs, List.forall_mem_cons, List.not_mem_nil, false_implies, implies_true,
      and_true]
    decide) (hclick.jit _ _ h)
  have hdump := reads_absent _ _ _ _ hpairs keyword_dumpJit (by
    simp only [controlPairs, List.forall_mem_cons, List.not_mem_nil, false_implies, implies_true,
      and_true]
    decide) (hclick.dumpJit _ _ h)
  rcases args with ⟨id, jit, dumpJit, file', signature'⟩
  simp only at hx hfile hsig hjit hdump
  rw [hx, hjit, hdump, hfile, hsig, hparse, Option.some.inj hname, Option.some.inj hname']

/-- A plain name that is read back, from whichever argument, is clean. -/
theorem reads_clean (hprogram : plainConf f.programName = true)
    (hsignature : plainConf f.signature = true) (k name old : Bytes) (member : Option Bytes)
    (hk : Keyword k) (hcomma : 44 ∉ k) (hplain : plainConf name = true)
    (hpart : ∀ part ∈ ((32 :: (k ++ [32])) ++ cStr name).splitOn 44,
      part ∈ (controlConfig f).splitOn 44)
    (hreads : Reads k some (argvec (controlConfig f)) member) (hname : member.getD old = name) :
    CleanName name := by
  rw [hclick.splits _ (controlConfig_plain f hprogram hsignature)] at hreads
  -- The keyword is in the string, so the member is set.
  rcases controlConfig_given f k (cStr name) hk hcomma hpart with ⟨v, hv⟩
  have hgiven : keywordValue k (argOf k v) ≠ none := by
    rw [keywordValue_argOf k v hk]
    simp only [ne_eq, reduceCtorEq, not_false_eq_true]
  rcases reads_given k some _ member hreads (argOf k v) hv hgiven with
    ⟨x, hx, arg, harg, value, hvalue, hsame⟩
  rw [hx, Option.getD_some] at hname
  rw [← Option.some.inj hsame] at hname
  rw [← hname]
  rw [← hname] at hplain
  exact keywordValue_topLevel _ k value arg harg hvalue hplain (controlConfig_noNul f)

theorem parseArgs_plain (hprogram : plainConf f.programName = true)
    (hsignature : plainConf f.signature = true) (args : ConfArgs) (e : Element)
    (h : parseArgs (argvec (controlConfig f)) = some args)
    (hfile : (commitArgs args e).bpfFile = f.programName)
    (hsig : (commitArgs args e).signatureFile = f.signature) :
    CleanName f.programName ∧ CleanName f.signature := by
  constructor
  · refine reads_clean argvec parseArgs intArg boolArg hclick f hprogram hsignature
      (helperName "FILE") f.programName e.bpfFile args.file keyword_file (by decide) hprogram ?_
      (hclick.file _ _ h) hfile
    intro part hpart
    rw [controlConfig_split, List.mem_append, List.mem_append]
    exact .inl (.inr hpart)
  · refine reads_clean argvec parseArgs intArg boolArg hclick f hprogram hsignature
      (helperName "SIGNATURE") f.signature e.signatureFile args.signature keyword_signature
      (by decide) hsignature ?_ (hclick.signature _ _ h) hsig
    intro part hpart
    rw [controlConfig_split, List.mem_append]
    exact .inr hpart

end Click

/-- The members after a call that succeeded are those of its arguments. -/
theorem returns_success_members (P : Platform) (cls : ElementClass) (w w' : World)
    (call : ConfigureCall) (h : Returns P cls w call .success w') :
    ∃ args, P.parseArgs call.conf = some args ∧
      w'.element.bpfFile = (commitArgs args w.element).bpfFile ∧
      w'.element.signatureFile = (commitArgs args w.element).signatureFile ∧
      w'.element.id = (commitArgs args w.element).id ∧
      w'.element.jit = (commitArgs args w.element).jit ∧
      w'.element.dumpJit = (commitArgs args w.element).dumpJit := by
  cases h with
  | interpreted args loaded hin hload herror hsig hjit =>
      exact ⟨args, hin.parsed, rfl, rfl, rfl, rfl, rfl⟩
  | compiled args loaded hin hload herror hsig hjit hcompile =>
      exact ⟨args, hin.parsed, rfl, rfl, rfl, rfl, rfl⟩

section Loop

variable (P : Platform) (argvec : Bytes → List Bytes) (f : ControlFields)

/-- A round of the loop that writes is a call of `configure`. -/
theorem controlWrite_bpf (call : ConfigureCall) (as as' : AddressSpace) (cls : ElementClass)
    (handler : Bool) (e : Element) (y : RouterElement) (r : Option Result)
    (h : controlWrite P argvec f call as (.bpf cls handler e) = some ((y, r), as')) :
    (r = none ∧ y = .bpf cls handler e) ∨
      (e.id = f.bpfelementId ∧ ∃ result w', r = some result ∧ y = .bpf cls handler w'.element ∧
        Returns P cls ⟨e, as⟩ { call with conf := argvec (controlConfig f) } result w') := by
  simp only [controlWrite] at h
  split at h
  · simp only [Option.some.injEq, Prod.mk.injEq] at h
    exact .inl ⟨h.1.2.symm, h.1.1.symm⟩
  · rename_i hid
    split at h
    · simp only [Option.some.injEq, Prod.mk.injEq] at h
      exact .inl ⟨h.1.2.symm, h.1.1.symm⟩
    · split at h
      · rename_i result w' hcall
        simp only [Option.some.injEq, Prod.mk.injEq] at h
        exact .inr ⟨not_ne_iff.mp hid, result, w', h.1.2.symm, h.1.1.symm,
          returns_of_configure P cls _ _ result w' hcall⟩
      · exact absurd h (by simp only [reduceCtorEq, not_false_eq_true])

/-- The loop treats every element by itself. -/
theorem controlLoop_each (call : Nat → ConfigureCall) (xs : List RouterElement) :
    ∀ (i : Nat) (as as' : AddressSpace) (ys : List (RouterElement × Option Result)),
      controlLoop P argvec f call i xs as = some (ys, as') →
      List.Forall₂ (fun x y => ∃ j as as', controlWrite P argvec f (call j) as x = some (y, as'))
        xs ys := by
  induction xs with
  | nil =>
      intro i as as' ys h
      simp only [controlLoop, Option.some.injEq, Prod.mk.injEq] at h
      rw [← h.1]
      exact .nil
  | cons x xs ih =>
      intro i as as' ys h
      simp only [controlLoop] at h
      split at h
      · exact absurd h (by simp only [reduceCtorEq, not_false_eq_true])
      · rename_i y as₁ hwrite
        rcases Option.map_eq_some_iff.mp h with ⟨⟨rest, as₂⟩, hrest, heq⟩
        rw [← (Prod.mk.inj heq).1]
        exact .cons ⟨i, as, as₁, hwrite⟩ (ih (i + 1) as₁ as₂ rest hrest)

variable (intArg : Bytes → Option Nat) (boolArg : Bytes → Option Bool)
  (hclick : ClickConf argvec P.parseArgs intArg boolArg)

include hclick

theorem controlWrite_exact (hid : f.bpfelementId < 2 ^ 64) (hprogram : CleanName f.programName)
    (hsignature : CleanName f.signature) (call : ConfigureCall) (as as' : AddressSpace)
    (x : RouterElement) (y : RouterElement × Option Result)
    (h : controlWrite P argvec f call as x = some (y, as')) : ReconfiguresExactly f x y := by
  rcases y with ⟨y, r⟩
  cases x with
  | other className =>
      simp only [controlWrite, Option.some.injEq, Prod.mk.injEq] at h
      exact h.1.1.symm
  | bpf cls handler e =>
      rcases controlWrite_bpf P argvec f call as as' cls handler e y r h with
        ⟨hr, hy⟩ | ⟨htarget, result, w', hr, hy, hret⟩
      · simp only [ReconfiguresExactly]
        split
        · intro hsuccess
          rw [hr] at hsuccess
          exact absurd hsuccess (by simp only [reduceCtorEq, not_false_eq_true])
        · exact hy
      · simp only [ReconfiguresExactly, if_pos htarget]
        intro hsuccess
        rw [hr, Option.some.injEq] at hsuccess
        rw [hsuccess] at hret
        rcases returns_success_members P cls _ w' _ hret with
          ⟨args, hargs, hfile, hsig, heid, hjit, hdump⟩
        -- The arguments are the id and the two names.
        rw [parseArgs_clean argvec P.parseArgs intArg boolArg hclick f hid hprogram hsignature args
          hargs] at hfile hsig heid hjit hdump
        exact ⟨w'.element, hy, hfile, hsig, heid.trans htarget.symm, hjit, hdump⟩

theorem controlWrite_clean (hprogram : plainConf f.programName = true)
    (hsignature : plainConf f.signature = true) (call : ConfigureCall) (as as' : AddressSpace)
    (x : RouterElement) (y : RouterElement × Option Result)
    (h : controlWrite P argvec f call as x = some (y, as')) (hsuccess : y.2 = some .success)
    (hexact : ReconfiguresExactly f x y) :
    CleanName f.programName ∧ CleanName f.signature := by
  rcases y with ⟨y, r⟩
  simp only at hsuccess
  cases x with
  | other className =>
      simp only [controlWrite, Option.some.injEq, Prod.mk.injEq] at h
      rw [← h.1.2] at hsuccess
      exact absurd hsuccess (by simp only [reduceCtorEq, not_false_eq_true])
  | bpf cls handler e =>
      rcases controlWrite_bpf P argvec f call as as' cls handler e y r h with
        ⟨hr, -⟩ | ⟨htarget, result, w', hr, hy, hret⟩
      · rw [hr] at hsuccess
        exact absurd hsuccess (by simp only [reduceCtorEq, not_false_eq_true])
      · rw [hr, Option.some.injEq] at hsuccess
        rw [hsuccess] at hret
        simp only [ReconfiguresExactly, if_pos htarget] at hexact
        rcases hexact (by rw [hr, hsuccess]) with ⟨e', he', hfile, hsig, -⟩
        rw [hy] at he'
        -- The names in the members came through the string.
        have hsame : w'.element = e' := (RouterElement.bpf.inj he').2.2
        rcases returns_success_members P cls _ w' _ hret with ⟨args, hargs, hfile', hsig', -⟩
        rw [hsame] at hfile' hsig'
        exact parseArgs_plain argvec P.parseArgs intArg boolArg hclick f hprogram hsignature args e
          hargs (hfile'.symm.trans hfile) (hsig'.symm.trans hsig)

end Loop

theorem read64_lt (p : UdpPacket) (a n : Nat) (h : p.read64 a = some n) : n < 2 ^ 64 := by
  unfold UdpPacket.read64 UdpPacket.view at h
  split at h
  · rw [Option.map_some, Option.some.injEq] at h
    rw [← h]
    calc LittleEndian.ofLE ((p.bytes.drop (a - p.addr)).take 8)
        < 256 ^ ((p.bytes.drop (a - p.addr)).take 8).length := LittleEndian.ofLE_lt _
      _ ≤ 256 ^ 8 := Nat.pow_le_pow_right (by decide) (List.length_take_le 8 _)
  · exact absurd h (by simp only [Option.map_none, reduceCtorEq, not_false_eq_true])

/-- An id has 64 bits. -/
theorem controlPush_id_lt (p : UdpPacket) (f : ControlFields)
    (h : controlPush p = some (.ok f)) : f.bpfelementId < 2 ^ 64 := by
  unfold controlPush at h
  simp only [] at h
  split at h
  · exact absurd h (by simp only [Option.some.injEq, reduceCtorEq, not_false_eq_true])
  · split at h
    · exact absurd h (by simp only [reduceCtorEq, not_false_eq_true])
    · split at h
      · exact absurd h (by simp only [Option.some.injEq, reduceCtorEq, not_false_eq_true])
      · split at h
        · exact absurd h (by simp only [reduceCtorEq, not_false_eq_true])
        · rename_i id hid
          -- The strings that follow do not change the id.
          split at h
          · exact absurd h (by simp only [reduceCtorEq, not_false_eq_true])
          · exact absurd h (by simp only [Option.some.injEq, reduceCtorEq, not_false_eq_true])
          · split at h
            · exact absurd h (by simp only [reduceCtorEq, not_false_eq_true])
            · exact absurd h (by simp only [Option.some.injEq, reduceCtorEq, not_false_eq_true])
            · simp only [Option.some.injEq, Except.ok.injEq] at h
              rw [← h]
              exact read64_lt p _ id hid

/-- A control packet with clean names reconfigures exactly its targets. Of the
    names without quotes and comments, no others do. -/
theorem control_reconfigures_clean (P : Platform) (argvec : Bytes → List Bytes)
    (intArg : Bytes → Option Nat) (boolArg : Bytes → Option Bool)
    (hclick : ClickConf argvec P.parseArgs intArg boolArg) (p : UdpPacket) (f : ControlFields)
    (hparsed : controlPush p = some (.ok f)) (call : Nat → ConfigureCall)
    (router : List RouterElement) (as as' : AddressSpace)
    (after : List (RouterElement × Option Result))
    (hloop : controlLoop P argvec f call 0 router as = some (after, as')) :
    (CleanName f.programName ∧ CleanName f.signature →
      List.Forall₂ (ReconfiguresExactly f) router after) ∧
    (plainConf f.programName = true → plainConf f.signature = true →
      (∃ y ∈ after, y.2 = some .success) → List.Forall₂ (ReconfiguresExactly f) router after →
      CleanName f.programName ∧ CleanName f.signature) := by
  have heach := controlLoop_each P argvec f call router 0 as as' after hloop
  constructor
  · rintro ⟨hprogram, hsignature⟩
    refine heach.imp ?_
    rintro x y ⟨j, as₁, as₂, hwrite⟩
    exact controlWrite_exact P argvec f intArg boolArg hclick (controlPush_id_lt p f hparsed)
      hprogram hsignature (call j) as₁ as₂ x y hwrite
  -- One write that succeeded and did what it ought to tells of both names.
  · rintro hprogram hsignature ⟨y, hy, hsuccess⟩ hexact
    rcases List.getElem_of_mem hy with ⟨i, hi, rfl⟩
    have hi' : i < router.length := by
      rw [heach.length_eq]
      exact hi
    rcases List.Forall₂.get heach hi' hi with ⟨j, as₁, as₂, hwrite⟩
    exact controlWrite_clean P argvec f intArg boolArg hclick hprogram hsignature (call j) as₁ as₂
      _ _ hwrite hsuccess (List.Forall₂.get hexact hi' hi)

/-! ## A sample configuration parser

Arguments split at the commas and read by their keywords, the first one that
has it. -/

section Sample

/-- The value of a string of digits. -/
def sampleIntArg (v : Bytes) : Option Nat :=
  if v ≠ [] ∧ ∀ b ∈ v, 48 ≤ b ∧ b ≤ 57 then
    some (v.foldl (fun n b => b.toNat - 48 + 10 * n) 0)
  else none

def sampleBoolArg (v : Bytes) : Option Bool :=
  if v = helperName "true" then some true
  else if v = helperName "false" then some false
  else none

/-- One member: not given, or parsed. -/
def sampleMember {α : Type*} (k : Bytes) (parse : Bytes → Option α) (conf : List Bytes) :
    Option (Option α) :=
  match conf.findSome? (keywordValue k) with
  | none => some none
  | some v => (parse v).map some

def sampleParseArgs (conf : List Bytes) : Option ConfArgs :=
  match sampleMember (helperName "ID") sampleIntArg conf,
    sampleMember (helperName "JIT") sampleBoolArg conf,
    sampleMember (helperName "DUMP_JIT") sampleBoolArg conf,
    sampleMember (helperName "FILE") some conf,
    sampleMember (helperName "SIGNATURE") some conf with
  | some id, some jit, some dumpJit, some file, some signature =>
    some ⟨id, jit, dumpJit, file, signature⟩
  | _, _, _, _, _ => none

theorem sampleMember_reads {α : Type*} (k : Bytes) (parse : Bytes → Option α) (conf : List Bytes)
    (member : Option α) (h : sampleMember k parse conf = some member) :
    Reads k parse conf member := by
  unfold sampleMember at h
  cases hfind : conf.findSome? (keywordValue k) with
  | none =>
      rw [hfind, Option.some.injEq] at h
      rw [← h]
      exact List.findSome?_eq_none_iff.mp hfind
  | some v =>
      simp only [hfind] at h
      rcases Option.map_eq_some_iff.mp h with ⟨x, hx, hmember⟩
      rcases List.exists_of_findSome?_eq_some hfind with ⟨arg, harg, hv⟩
      rw [← hmember]
      exact ⟨arg, harg, v, hv, hx⟩

theorem sampleIntArg_decimal (n : Nat) : sampleIntArg (decimal n) = some n := by
  have hne : decimal n ≠ [] := by
    unfold decimal
    split
    · exact List.cons_ne_nil _ _
    · rename_i hn
      rw [ne_eq, List.reverse_eq_nil_iff, List.map_eq_nil_iff, Nat.digits_eq_nil_iff_eq_zero]
      exact hn
  rw [sampleIntArg, if_pos ⟨hne, decimal_digits n⟩, Option.some.injEq]
  unfold decimal
  split
  · rename_i hn
    rw [hn]
    rfl
  -- Read from the last digit on, this is the value of the digits.
  · rw [List.foldl_reverse, List.foldr_map]
    have hdigit : ∀ d ∈ Nat.digits 10 n, (UInt8.ofNat (48 + d)).toNat - 48 = d := by
      intro d hd
      have hlt : d < 10 := Nat.digits_lt_base (by decide) hd
      rw [UInt8.toNat_ofNat']
      omega
    calc (Nat.digits 10 n).foldr (fun d m => (UInt8.ofNat (48 + d)).toNat - 48 + 10 * m) 0
        = (Nat.digits 10 n).foldr (fun d m => d + 10 * m) 0 := by
          refine List.foldr_ext _ _ _ ?_
          intro d hd m
          rw [hdigit d hd]
      _ = Nat.ofDigits 10 (Nat.digits 10 n) := (Nat.ofDigits_eq_foldr 10 _).symm
      _ = n := Nat.ofDigits_digits 10 n

theorem sampleClick : ClickConf topLevelArgs sampleParseArgs sampleIntArg sampleBoolArg := by
  have hparsed : ∀ conf args, sampleParseArgs conf = some args →
      sampleMember (helperName "ID") sampleIntArg conf = some args.id ∧
      sampleMember (helperName "JIT") sampleBoolArg conf = some args.jit ∧
      sampleMember (helperName "DUMP_JIT") sampleBoolArg conf = some args.dumpJit ∧
      sampleMember (helperName "FILE") some conf = some args.file ∧
      sampleMember (helperName "SIGNATURE") some conf = some args.signature := by
    intro conf args h
    unfold sampleParseArgs at h
    split at h
    · rename_i hid hjit hdump hfile hsig
      rw [← Option.some.inj h]
      exact ⟨hid, hjit, hdump, hfile, hsig⟩
    · exact absurd h (by simp only [reduceCtorEq, not_false_eq_true])
  refine ⟨fun _ _ => rfl, fun n _ => sampleIntArg_decimal n, ?_, ?_, ?_, ?_, ?_⟩
  · intro conf args h
    exact sampleMember_reads _ _ _ _ (hparsed conf args h).1
  · intro conf args h
    exact sampleMember_reads _ _ _ _ (hparsed conf args h).2.1
  · intro conf args h
    exact sampleMember_reads _ _ _ _ (hparsed conf args h).2.2.1
  · intro conf args h
    exact sampleMember_reads _ _ _ _ (hparsed conf args h).2.2.2.1
  · intro conf args h
    exact sampleMember_reads _ _ _ _ (hparsed conf args h).2.2.2.2

def controlPlatform : Platform :=
  { samplePlatform none with parseArgs := sampleParseArgs }

/-- The packet the helper tool sends for these names. -/
def controlPacket (name signature : String) : UdpPacket :=
  let bytes := udpDatagram 0x3039 0x3039 0 (reconfigure (helperName name) (helperName signature)) []
  if h : 0x300000 + bytes.length < 2 ^ 64 then ⟨0x300000, bytes, h⟩ else ⟨0, [], by decide⟩

/-- A counter, a filter with id 1 and a classifier with id 2, all new. -/
def controlRouter : List RouterElement :=
  [.other (helperName "Counter"), .bpf .bpfilter true (.new ⟨1, false, false, none⟩),
    .bpf .bpfclassifier true (.new ⟨2, false, false, none⟩)]

theorem control_reconfigures_pass :
    controlPush (controlPacket "pass" "drop.sig")
        = some (.ok ⟨1, helperName "pass", helperName "drop.sig"⟩) ∧
      ∃ after as', controlLoop controlPlatform topLevelArgs
          ⟨1, helperName "pass", helperName "drop.sig"⟩ (fun _ => sampleCall []) 0 controlRouter
          ⟨fun _ => false, fun _ => 0⟩ = some (after, as') ∧
        after.map Prod.snd = [none, some .success, none] ∧
        List.Forall₂ (ReconfiguresExactly ⟨1, helperName "pass", helperName "drop.sig"⟩)
          controlRouter after := by
  have hparsed : controlPush (controlPacket "pass" "drop.sig")
      = some (.ok ⟨1, helperName "pass", helperName "drop.sig"⟩) := by decide +kernel
  have hrun : (controlLoop controlPlatform topLevelArgs
      ⟨1, helperName "pass", helperName "drop.sig"⟩ (fun _ => sampleCall []) 0 controlRouter
      ⟨fun _ => false, fun _ => 0⟩).map (fun r => r.1.map Prod.snd)
        = some [none, some .success, none] := by decide +kernel
  have hclean : CleanName (helperName "pass") ∧ CleanName (helperName "drop.sig") := by
    refine ⟨⟨by decide, by decide, by decide, ?_, ?_⟩,
      ⟨by decide, by decide, by decide, ?_, ?_⟩⟩ <;>
      intro b hb <;> rw [← Option.some.inj hb] <;> decide
  rcases Option.map_eq_some_iff.mp hrun with ⟨⟨after, as'⟩, hloop, hresults⟩
  exact ⟨hparsed, after, as', hloop, hresults,
    (control_reconfigures_clean controlPlatform topLevelArgs sampleIntArg sampleBoolArg sampleClick
      _ _ hparsed _ _ _ as' after hloop).1 hclean⟩

/-- A name with a comma: the write succeeds, the file is the part before it,
    and the part behind it has turned the compiler on. -/
theorem control_sets_jit :
    controlPush (controlPacket "pass, JIT true" "drop.sig")
        = some (.ok ⟨1, helperName "pass, JIT true", helperName "drop.sig"⟩) ∧
      ClickConf topLevelArgs controlPlatform.parseArgs sampleIntArg sampleBoolArg ∧
      ∃ after as', controlLoop controlPlatform topLevelArgs
          ⟨1, helperName "pass, JIT true", helperName "drop.sig"⟩ (fun _ => sampleCall []) 0
          controlRouter ⟨fun _ => false, fun _ => 0⟩ = some (after, as') ∧
        after.map Prod.snd = [none, some .success, none] ∧
        ¬ List.Forall₂
          (ReconfiguresExactly ⟨1, helperName "pass, JIT true", helperName "drop.sig"⟩)
          controlRouter after := by
  have hrun : (controlLoop controlPlatform topLevelArgs
      ⟨1, helperName "pass, JIT true", helperName "drop.sig"⟩ (fun _ => sampleCall []) 0
      controlRouter ⟨fun _ => false, fun _ => 0⟩).map (fun r => r.1.map fun y =>
        (y.2, match y.1 with
          | .bpf _ _ e => some (e.bpfFile, e.jit)
          | .other _ => none))
        = some [(none, none), (some .success, some (helperName "pass", true)),
          (none, some ([], false))] := by decide +kernel
  rcases Option.map_eq_some_iff.mp hrun with ⟨⟨after, as'⟩, hloop, hresults⟩
  refine ⟨by decide +kernel, sampleClick, after, as', hloop, ?_, ?_⟩
  · have hsnd := congrArg (List.map Prod.fst) hresults
    rw [List.map_map] at hsnd
    exact hsnd
  · intro hexact
    cases hexact with
    | cons hother hrest =>
        cases hrest with
        | cons htarget hrest' =>
            simp only [List.map_cons, List.cons.injEq, Prod.mk.injEq] at hresults
            rcases hresults with ⟨-, ⟨hresult, hmembers⟩, -⟩
            simp only [ReconfiguresExactly, Element.new, if_true] at htarget
            rcases htarget hresult with ⟨e', hy, hfile, -⟩
            simp only [hy, Option.some.injEq, Prod.mk.injEq] at hmembers
            rw [hmembers.1] at hfile
            exact absurd hfile (by decide)

end Sample

end UniBPF
