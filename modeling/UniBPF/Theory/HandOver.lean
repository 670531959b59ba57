import UniBPF.Core.PacketPush

/-!
# The Packet Is Handed Over Once

An element that is pushed a packet has one packet to get rid of. It pushes it
on or kills it, once, and leaves alone what it no longer has.

The filter does so whatever the program returns. The other two take a packet
of their own first and have two names for it from then on, the one it came in
under and the one they work with, and both kill the first of these where the
program has failed. These are the same packet only as long as `uniqueify` did
not have to copy it and no call of the program moved it. Otherwise the packet
that came in, which is gone already, is killed once more and the packet the
program has worked on is neither pushed nor killed.

The calls of a rewriter program are legal whatever their arguments are, and
leave the element with the packet in `_current_packet` (`run_spaceActs`). The
numbers of the packets only grow, so the first one comes back only if none of
the calls made another (`handleAfterCalls_eq_iff`). That the numbers are those
of the packets themselves is `handle_run`.

## Main definitions

* `ForwardsOn`: The value on which a class pushes a packet on, and where.
* `HandsOver`: One packet, handed over once.
* `SpaceCall.Moves`: A call for which Click makes another packet.
* `NamesCurrent`: The packet that is killed is the one the element has.

## Theorems

* `run_spaceActs`: The calls of a program, one after another.
* `handleAfterCalls_eq_iff`: The packet is the same one if it was not moved.
* `forwards_on_success`: A packet is pushed on for the values of success only.
* `hand_over_iff`: When a push hands its packet over once.
-/

namespace UniBPF

open Handles

/-- The program has ended with the value of success of the class, which is an
    output number for the classifier. -/
def ForwardsOn (cls : ElementClass) (x : PacketPush) (port : Nat) : Prop :=
  ∃ ret : UInt64, x.returned = some ret ∧
    match cls with
    | .bpfilter => ret.toUInt32 = xdpPass ∧ port = 0
    | .bpfclassifier => ret.toUInt32.toNat = port ∧ port < x.noutputs
    | .bpfrewriter => ret.toUInt32 = rewriterSuccess ∧ port = 0

/-- Nothing is done to a packet the element does not have, one packet is
    pushed on or killed, and it is pushed on for the values of success
    only. -/
structure HandsOver (cls : ElementClass) (x : PacketPush) : Prop where
  legal : Legal 0 (pushActs cls x)
  once : gives (pushActs cls x) = 1
  success : ∀ p port, Act.give p (.output port) ∈ pushActs cls x → ForwardsOn cls x port

/-- Click makes another packet for this call. -/
def SpaceCall.Moves (c : SpaceCall) : Prop :=
  (0 < c.head ∧ c.headRoom.moved.isSome) ∨ (0 < c.tail ∧ c.tailRoom.moved.isSome)

/-- The push does not kill the packet that came in after another one has taken
    its place. -/
def NamesCurrent (cls : ElementClass) (x : PacketPush) : Prop :=
  match cls with
  | .bpfilter => True
  | .bpfclassifier => x.sharing ≠ .shared ∨ execRet x.returned ≠ execFailed
  | .bpfrewriter =>
    x.sharing = .sharedNoMemory ∨ execRet x.returned = rewriterSuccess ∨
      execRet x.returned = rewriterAbort ∨
      (x.sharing = .alone ∧ ∀ c ∈ x.calls, ¬ c.Moves)

section Calls

variable (p : Nat)

theorem handleAfter_zero (room : Room) : handleAfter p 0 room = p := by
  rw [handleAfter, if_neg]
  rintro ⟨hpos, -⟩
  exact absurd hpos Int32.lt_irrefl

theorem run_halfActs (n : Int32) (room : Room) (rest : List PacketAct) :
    Steps.run own (some p) (halfActs p n room ++ rest) =
      Steps.run own (some (handleAfter p n room)) rest := by
  rw [halfActs]
  by_cases hzero : n = 0
  · rw [if_neg (fun hne => hne hzero), hzero, handleAfter_zero]
    rfl
  rw [if_pos hzero]
  by_cases hpos : 0 < n
  · rw [if_pos hpos]
    exact run_own_trade p _ rest
  · rw [if_neg hpos, handleAfter, if_neg (fun h => hpos h.1)]
    exact run_own_touch p rest

theorem run_callActs (c : SpaceCall) (rest : List PacketAct) :
    Steps.run own (some p) (callActs p c ++ rest) =
      Steps.run own (some (handleAfterCall p c)) rest := by
  rw [callActs, List.append_assoc, List.append_assoc, run_halfActs, run_halfActs]
  exact run_own_touch (handleAfterCall p c) rest

/-- The calls of a program are legal, whatever they ask for, and leave the
    element with the packet in `_current_packet`. -/
theorem run_spaceActs (calls : List SpaceCall) (rest : List PacketAct) :
    Steps.run own (some p) (spaceActs p calls ++ rest) =
      Steps.run own (some (handleAfterCalls p calls)) rest := by
  induction calls generalizing p with
  | nil => rfl
  | cons c calls ih =>
      rw [spaceActs, List.append_assoc, run_callActs, ih]
      rfl

theorem le_handleAfter (n : Int32) (room : Room) : p ≤ handleAfter p n room := by
  rw [handleAfter]
  split
  · omega
  · omega

theorem handleAfter_eq_iff (n : Int32) (room : Room) :
    handleAfter p n room = p ↔ ¬ (0 < n ∧ room.moved.isSome) := by
  rw [handleAfter]
  split
  case isTrue hmoved =>
      exact iff_of_false (by omega) (fun hnot => hnot hmoved)
  case isFalse hnot =>
      exact iff_of_true rfl hnot

theorem le_handleAfterCall (c : SpaceCall) : p ≤ handleAfterCall p c :=
  (le_handleAfter p c.head c.headRoom).trans (le_handleAfter _ c.tail c.tailRoom)

theorem handleAfterCall_eq_iff (c : SpaceCall) : handleAfterCall p c = p ↔ ¬ c.Moves := by
  have hhead := le_handleAfter p c.head c.headRoom
  have htail := le_handleAfter (handleAfter p c.head c.headRoom) c.tail c.tailRoom
  -- Each half keeps the number or raises it, so both have to keep it.
  rw [SpaceCall.Moves, not_or, ← handleAfter_eq_iff p, ← handleAfter_eq_iff p c.tail]
  constructor
  · intro hsame
    have hfirst : handleAfter p c.head c.headRoom = p := by
      rw [handleAfterCall] at hsame
      omega
    rw [handleAfterCall, hfirst] at hsame
    exact ⟨hfirst, hsame⟩
  · rintro ⟨hfirst, hsecond⟩
    rw [handleAfterCall, hfirst, hsecond]

theorem le_handleAfterCalls (calls : List SpaceCall) : p ≤ handleAfterCalls p calls := by
  induction calls generalizing p with
  | nil => exact Nat.le_refl p
  | cons c calls ih => exact (le_handleAfterCall p c).trans (ih (handleAfterCall p c))

/-- The element ends up with the packet it started with exactly when no call
    moved it. -/
theorem handleAfterCalls_eq_iff (calls : List SpaceCall) :
    handleAfterCalls p calls = p ↔ ∀ c ∈ calls, ¬ c.Moves := by
  induction calls generalizing p with
  | nil => exact iff_of_true rfl (fun c hc => absurd hc List.not_mem_nil)
  | cons c calls ih =>
      have hstep := le_handleAfterCall p c
      have hrest := le_handleAfterCalls (handleAfterCall p c) calls
      have hcons : handleAfterCalls p (c :: calls) =
          handleAfterCalls (handleAfterCall p c) calls := rfl
      rw [List.forall_mem_cons, ← handleAfterCall_eq_iff p c, ← ih (handleAfterCall p c), hcons]
      constructor
      · intro hsame
        have hfirst : handleAfterCall p c = p := by omega
        exact ⟨hfirst, hsame.trans hfirst.symm⟩
      · rintro ⟨hfirst, hlast⟩
        exact hlast.trans hfirst

end Calls

section Packets

variable (p q : WritablePacket)

theorem placed_handle (handle addr : Nat) (bytes : Bytes)
    (h : placed handle addr bytes = some q) : q.handle = handle := by
  rw [placed] at h
  split at h
  · rw [← Option.some.inj h]
  · exact absurd h (by simp only [reduceCtorEq, not_false_eq_true])

theorem push_handle (n : Nat) (room : Room) (h : p.push n room = some q) :
    q.handle = if room.moved.isSome then p.handle + 1 else p.handle := by
  rw [WritablePacket.push] at h
  cases hmoved : room.moved with
  | none =>
      simp only [hmoved, Option.ite_none_right_eq_some] at h
      exact placed_handle q _ _ _ h.2
  | some addr =>
      simp only [hmoved] at h
      exact placed_handle q _ _ _ h

theorem put_handle (n : Nat) (room : Room) (h : p.put n room = some q) :
    q.handle = if room.moved.isSome then p.handle + 1 else p.handle := by
  rw [WritablePacket.put] at h
  cases hmoved : room.moved with
  | none =>
      simp only [hmoved] at h
      exact placed_handle q _ _ _ h
  | some addr =>
      simp only [hmoved] at h
      exact placed_handle q _ _ _ h

/-- One half of the helper, from what it does where it makes space and where
    it removes bytes. -/
theorem adjusted_handle (n : Int32) (room : Room) (grown : Option WritablePacket)
    (cut : WritablePacket)
    (hgrown : grown = some q → q.handle = if room.moved.isSome then p.handle + 1 else p.handle)
    (hcut : cut.handle = p.handle)
    (h : (if n ≠ 0 then if 0 < n then grown else some cut else some p) = some q) :
    q.handle = handleAfter p.handle n room := by
  rcases adjusted_cases n grown cut p q h with ⟨hzero, hq⟩ | ⟨hpos, hq⟩ | ⟨hneg, hq⟩
  · rw [hzero, handleAfter_zero, hq]
  · simp only [hgrown hq, handleAfter, hpos, true_and]
  · rw [handleAfter, if_neg (fun hand => Int32.lt_asymm hneg hand.1), hq, hcut]

theorem adjustHead_handle (n : Int32) (room : Room) (h : adjustHead p n room = some q) :
    q.handle = handleAfter p.handle n room :=
  adjusted_handle p q n room (p.push n.toUInt32.toNat room) (p.pull (-n).toUInt32.toNat)
    (push_handle p q _ room) rfl h

theorem adjustTail_handle (n : Int32) (room : Room) (h : adjustTail p n room = some q) :
    q.handle = handleAfter p.handle n room :=
  adjusted_handle p q n room (p.put n.toUInt32.toNat room) (p.take (-n).toUInt32.toNat)
    (put_handle p q _ room) rfl h

theorem packetAddSpace_handle (c : SpaceCall) (h : packetAddSpace p c = some q) :
    q.handle = handleAfterCall p.handle c := by
  rw [packetAddSpace] at h
  rcases Option.bind_eq_some_iff.mp h with ⟨mid, hhead, htail⟩
  rw [adjustTail_handle mid q c.tail c.tailRoom htail,
    adjustHead_handle p mid c.head c.headRoom hhead, handleAfterCall]

/-- The packet a run of calls leads to has the number the push goes by. -/
theorem handle_run (calls : List SpaceCall) (h : Steps.run packetAddSpace p calls = some q) :
    q.handle = handleAfterCalls p.handle calls := by
  induction calls generalizing p with
  | nil =>
      simp only [Steps.run, Option.some.injEq] at h
      rw [h]
      rfl
  | cons c calls ih =>
      rcases Steps.run_cons_some packetAddSpace p q c calls h with ⟨mid, hstep, hrest⟩
      rw [ih mid hrest, packetAddSpace_handle p mid c hstep]
      rfl

end Packets

section Push

variable (x : PacketPush)

theorem not_give_mem_spaceActs (p : Nat) (calls : List SpaceCall) (h : Nat) (o : Fate) :
    Act.give h o ∉ spaceActs p calls := by
  have hhalf : ∀ (p : Nat) (n : Int32) (room : Room), Act.give h o ∉ halfActs p n room := by
    intro p n room hmem
    rw [halfActs] at hmem
    split at hmem
    · split at hmem
      · exact absurd (List.mem_singleton.mp hmem) (by simp only [reduceCtorEq, not_false_eq_true])
      · exact absurd (List.mem_singleton.mp hmem) (by simp only [reduceCtorEq, not_false_eq_true])
    · exact absurd hmem List.not_mem_nil
  induction calls generalizing p with
  | nil => exact List.not_mem_nil
  | cons c calls ih =>
      intro hmem
      rw [spaceActs, callActs, List.mem_append, List.mem_append, List.mem_append] at hmem
      rcases hmem with ((hhead | htail) | hdata) | hrest
      · exact hhalf p c.head c.headRoom hhead
      · exact hhalf _ c.tail c.tailRoom htail
      · exact absurd (List.mem_singleton.mp hdata)
          (by simp only [reduceCtorEq, not_false_eq_true])
      · exact ih (handleAfterCall p c) hrest

/-- A value other than that of a failure was returned by the program. -/
theorem returned_of_execRet (v : UInt32) (hv : v ≠ execFailed) (h : execRet x.returned = v) :
    ∃ ret : UInt64, x.returned = some ret ∧ ret.toUInt32 = v := by
  cases hret : x.returned with
  | none =>
      rw [hret] at h
      exact absurd h.symm hv
  | some ret =>
      rw [hret] at h
      exact ⟨ret, rfl, h⟩

/-- Pushed on is what the last act pushes on, if no act before gives a packet
    away. -/
theorem output_of_mem_append (acts : List PacketAct) (last p port : Nat) (o : Fate)
    (hacts : ∀ h o, Act.give h o ∉ acts)
    (hmem : Act.give p (.output port) ∈ acts ++ [Act.give last o]) : o = .output port := by
  rcases List.mem_append.mp hmem with hbefore | hlast
  · exact absurd hbefore (hacts p (.output port))
  · injection List.mem_singleton.mp hlast with _ ho
    exact ho.symm

/-- Either there is no packet to go on with, and the one that came in has been
    released, or nothing has been given away. -/
theorem uniqueify_cases (sharing : Sharing) :
    (sharing = .sharedNoMemory ∧ uniqueify 0 sharing = ([Act.give 0 .killed], none)) ∨
      ∃ acts pOut, uniqueify 0 sharing = (acts, some pOut) ∧ (∀ h o, Act.give h o ∉ acts) ∧
        (pOut = 0 ↔ sharing = .alone) ∧ sharing ≠ .sharedNoMemory := by
  cases sharing with
  | alone => exact Or.inr ⟨_, _, rfl, by simp, by simp, by simp⟩
  | shared => exact Or.inr ⟨_, _, rfl, by simp, by simp, by simp⟩
  | sharedNoMemory => exact Or.inl ⟨rfl, rfl⟩

section Shapes

variable (acts : List PacketAct) (pOut : Nat)

theorem bpfilterPush_eq : bpfilterPush x =
    [.touch 0] ++ [.give 0 (if execRet x.returned = xdpPass then .output 0 else .killed)] := by
  simp only [bpfilterPush]
  by_cases hpass : execRet x.returned = xdpPass
  · have hdrop : ¬ execRet x.returned = xdpDrop := by
      rw [hpass]
      decide
    rw [if_neg hdrop, if_pos hpass, if_pos hpass]
    rfl
  · rw [if_neg hpass, if_neg hpass, ite_self, ite_self]
    rfl

theorem bpfclassifierPush_eq (h : uniqueify 0 x.sharing = (acts, some pOut)) :
    bpfclassifierPush x = (acts ++ [.touch pOut]) ++
      [.give (if execRet x.returned = execFailed then 0 else pOut)
        (if execRet x.returned ≠ execFailed ∧ (execRet x.returned).toNat < x.noutputs then
          .output (execRet x.returned).toNat else .killed)] := by
  simp only [bpfclassifierPush, h, List.append_assoc, List.singleton_append]
  by_cases hfail : execRet x.returned = execFailed
  · rw [if_pos hfail, if_pos hfail, if_neg (fun hand => hand.1 hfail)]
  rw [if_neg hfail, if_neg hfail, checkedOutputPush]
  by_cases hport : (execRet x.returned).toNat < x.noutputs
  · rw [if_pos hport, if_pos ⟨hfail, hport⟩]
  · rw [if_neg hport, if_neg (fun hand => hport hand.2)]

theorem bpfrewriterPush_eq (h : uniqueify 0 x.sharing = (acts, some pOut)) :
    bpfrewriterPush x = (acts ++ .touch pOut :: spaceActs pOut x.calls) ++
      [.give (if execRet x.returned = rewriterSuccess ∨ execRet x.returned = rewriterAbort then
          handleAfterCalls pOut x.calls else 0)
        (if execRet x.returned = rewriterSuccess then .output 0 else .killed)] := by
  simp only [bpfrewriterPush, h, List.append_assoc, List.cons_append]
  by_cases hsuccess : execRet x.returned = rewriterSuccess
  · rw [if_pos hsuccess, if_pos (Or.inl hsuccess), if_pos hsuccess]
  rw [if_neg hsuccess, if_neg hsuccess]
  by_cases habort : execRet x.returned = rewriterAbort
  · rw [if_pos habort, if_pos (Or.inr habort)]
  · rw [if_neg habort, if_neg (not_or.mpr ⟨hsuccess, habort⟩)]

end Shapes

theorem bpfilter_success (p port : Nat)
    (h : Act.give p (.output port) ∈ bpfilterPush x) : ForwardsOn .bpfilter x port := by
  rw [bpfilterPush_eq] at h
  have hfate := output_of_mem_append [.touch 0] _ p port _ (by simp) h
  split at hfate
  case isTrue hpass =>
      rcases returned_of_execRet x xdpPass (by decide) hpass with ⟨ret, hret, hv⟩
      injection hfate with hport
      exact ⟨ret, hret, hv, hport.symm⟩
  case isFalse hnot =>
      exact absurd hfate (by simp only [reduceCtorEq, not_false_eq_true])

theorem bpfclassifier_success (p port : Nat)
    (h : Act.give p (.output port) ∈ bpfclassifierPush x) :
    ForwardsOn .bpfclassifier x port := by
  rcases uniqueify_cases x.sharing with ⟨-, hnone⟩ | ⟨acts, pOut, hsome, hacts, -, -⟩
  · simp only [bpfclassifierPush, hnone, List.mem_singleton, Act.give.injEq, reduceCtorEq,
      and_false] at h
  rw [bpfclassifierPush_eq x acts pOut hsome] at h
  have hfate := output_of_mem_append _ _ p port _ (by simp [hacts]) h
  split at hfate
  case isTrue hgood =>
      rcases returned_of_execRet x _ hgood.1 rfl with ⟨ret, hret, hv⟩
      injection hfate with hport
      refine ⟨ret, hret, ?_, ?_⟩
      · rw [hv, hport]
      · rw [← hport]
        exact hgood.2
  case isFalse hnot =>
      exact absurd hfate (by simp only [reduceCtorEq, not_false_eq_true])

theorem bpfrewriter_success (p port : Nat)
    (h : Act.give p (.output port) ∈ bpfrewriterPush x) : ForwardsOn .bpfrewriter x port := by
  rcases uniqueify_cases x.sharing with ⟨-, hnone⟩ | ⟨acts, pOut, hsome, hacts, -, -⟩
  · simp only [bpfrewriterPush, hnone, List.mem_singleton, Act.give.injEq, reduceCtorEq,
      and_false] at h
  rw [bpfrewriterPush_eq x acts pOut hsome] at h
  have hnogive : ∀ h o, Act.give h o ∉ acts ++ .touch pOut :: spaceActs pOut x.calls := by
    intro h o hmem
    rcases List.mem_append.mp hmem with hfirst | hmem
    · exact hacts h o hfirst
    · rcases List.mem_cons.mp hmem with htouch | hspace
      · exact absurd htouch (by simp only [reduceCtorEq, not_false_eq_true])
      · exact not_give_mem_spaceActs pOut x.calls h o hspace
  have hfate := output_of_mem_append _ _ p port _ hnogive h
  split at hfate
  case isTrue hsuccess =>
      rcases returned_of_execRet x rewriterSuccess (by decide) hsuccess with ⟨ret, hret, hv⟩
      injection hfate with hport
      exact ⟨ret, hret, hv, hport.symm⟩
  case isFalse hnot =>
      exact absurd hfate (by simp only [reduceCtorEq, not_false_eq_true])

/-- A packet is pushed on for the values of success only. -/
theorem forwards_on_success (cls : ElementClass) (p port : Nat)
    (h : Act.give p (.output port) ∈ pushActs cls x) : ForwardsOn cls x port := by
  cases cls with
  | bpfilter => exact bpfilter_success x p port h
  | bpfclassifier => exact bpfclassifier_success x p port h
  | bpfrewriter => exact bpfrewriter_success x p port h

theorem bpfilter_linear : Linear 0 (bpfilterPush x) := by
  rw [bpfilterPush_eq, List.singleton_append, Linear, run_own_touch]
  exact (linear_give_iff 0 0 _).mpr rfl

/-- With a packet of its own, an element has that one to get rid of. -/
theorem linear_uniqueified (sharing : Sharing) (acts rest : List PacketAct) (pOut : Nat)
    (h : uniqueify 0 sharing = (acts, some pOut)) :
    Linear 0 (acts ++ .touch pOut :: rest) ↔ Linear pOut rest := by
  cases sharing with
  | alone =>
      simp only [uniqueify, Prod.mk.injEq, Option.some.injEq] at h
      rcases h with ⟨rfl, rfl⟩
      rw [Linear, List.singleton_append, run_own_touch, run_own_touch]
      rfl
  | shared =>
      simp only [uniqueify, Prod.mk.injEq, Option.some.injEq] at h
      rcases h with ⟨rfl, rfl⟩
      rw [Linear, List.singleton_append, run_own_trade, run_own_touch]
      rfl
  | sharedNoMemory =>
      simp only [uniqueify, Prod.mk.injEq, reduceCtorEq, and_false] at h

theorem bpfclassifier_linear_iff :
    Linear 0 (bpfclassifierPush x) ↔ NamesCurrent .bpfclassifier x := by
  rcases uniqueify_cases x.sharing with ⟨hlost, hnone⟩ | ⟨acts, pOut, hsome, -, hown, hkept⟩
  · simp only [bpfclassifierPush, hnone]
    refine iff_of_true ((linear_give_iff 0 0 _).mpr rfl) (Or.inl ?_)
    rw [hlost]
    decide
  rw [bpfclassifierPush_eq x acts pOut hsome, List.append_assoc, List.singleton_append,
    linear_uniqueified x.sharing acts _ pOut hsome, linear_give_iff, NamesCurrent]
  by_cases hfail : execRet x.returned = execFailed
  -- The packet that came in is the right one only if it was not copied.
  · rw [if_pos hfail, eq_comm, hown]
    constructor
    · intro halone
      refine Or.inl ?_
      rw [halone]
      decide
    · rintro (hnot | hret)
      · cases hsharing : x.sharing with
        | alone => rfl
        | shared => exact absurd hsharing hnot
        | sharedNoMemory => exact absurd hsharing hkept
      · exact absurd hfail hret
  · rw [if_neg hfail]
    exact iff_of_true rfl (Or.inr hfail)

theorem bpfrewriter_linear_iff :
    Linear 0 (bpfrewriterPush x) ↔ NamesCurrent .bpfrewriter x := by
  rcases uniqueify_cases x.sharing with ⟨hlost, hnone⟩ | ⟨acts, pOut, hsome, -, hown, hkept⟩
  · simp only [bpfrewriterPush, hnone]
    exact iff_of_true ((linear_give_iff 0 0 _).mpr rfl) (Or.inl hlost)
  -- The calls are legal and end with the current packet; the last act is left.
  rw [bpfrewriterPush_eq x acts pOut hsome, List.append_assoc, List.cons_append,
    linear_uniqueified x.sharing acts _ pOut hsome, Linear, run_spaceActs]
  show Linear (handleAfterCalls pOut x.calls) _ ↔ _
  rw [linear_give_iff, NamesCurrent]
  by_cases hcode : execRet x.returned = rewriterSuccess ∨ execRet x.returned = rewriterAbort
  · rw [if_pos hcode]
    refine iff_of_true rfl (Or.inr ?_)
    rcases hcode with hsuccess | habort
    · exact Or.inl hsuccess
    · exact Or.inr (Or.inl habort)
  · rw [if_neg hcode]
    have hgrows := le_handleAfterCalls pOut x.calls
    constructor
    · intro hsame
      -- The numbers only grow, so neither the copy nor a call made a packet.
      have hzero : pOut = 0 := by omega
      rw [hzero] at hsame
      exact Or.inr (Or.inr (Or.inr
        ⟨hown.mp hzero, (handleAfterCalls_eq_iff 0 x.calls).mp hsame.symm⟩))
    · rintro (hlost | hsuccess | habort | ⟨halone, hstill⟩)
      · exact absurd hlost hkept
      · exact absurd (Or.inl hsuccess) hcode
      · exact absurd (Or.inr habort) hcode
      · rw [hown.mpr halone]
        exact ((handleAfterCalls_eq_iff 0 x.calls).mpr hstill).symm

/-- For every packet, shared or not, every sequence of calls and every value
    or failure of the program: the push does nothing to a packet the element
    does not have, pushes one on or kills one, and pushes on for the values of
    success only, if and only if it does not kill the packet that came in
    after another one has taken its place. -/
theorem hand_over_iff (cls : ElementClass) : HandsOver cls x ↔ NamesCurrent cls x := by
  have hlinear : HandsOver cls x ↔ Linear 0 (pushActs cls x) := by
    rw [linear_iff]
    exact ⟨fun h => ⟨h.legal, h.once⟩, fun h => ⟨h.1, h.2, forwards_on_success x cls⟩⟩
  -- Which values push a packet on does not depend on how it is held.
  rw [hlinear]
  cases cls with
  | bpfilter => exact iff_of_true (bpfilter_linear x) trivial
  | bpfclassifier => exact bpfclassifier_linear_iff x
  | bpfrewriter => exact bpfrewriter_linear_iff x

/-- A packet that others hold too, and a program that fails: both classes kill
    the packet that came in, which `uniqueify` has released already, and keep
    the copy. -/
theorem hand_over_shared :
    (pushActs .bpfclassifier ⟨.shared, 2, [], none⟩ =
        [.trade 0 1, .touch 1, .give 0 .killed] ∧
      ¬ HandsOver .bpfclassifier ⟨.shared, 2, [], none⟩) ∧
    pushActs .bpfrewriter ⟨.shared, 1, [], none⟩ =
        [.trade 0 1, .touch 1, .give 0 .killed] ∧
      ¬ HandsOver .bpfrewriter ⟨.shared, 1, [], none⟩ := by
  refine ⟨⟨rfl, fun hover => ?_⟩, rfl, fun hover => ?_⟩
  · exact absurd hover.legal (by rw [Legal]; decide)
  · exact absurd hover.legal (by rw [Legal]; decide)

end Push

end UniBPF
