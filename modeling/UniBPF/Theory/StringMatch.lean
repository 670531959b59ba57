import UniBPF.Core.Programs
import UniBPF.Lib.ResetMatcher

/-!
# The String Matcher

`stringmatcher` is to drop the packets that contain the word `leetcode`. It
reads the packet once and counts how many letters of the word it has seen in
a row, and it has two slips.

It looks at the count before it looks at a byte, and not once more at the
end. A word that ends with the last byte of the packet is counted and not
acted upon. And a byte that does not continue the word sets the count back
and is gone, although it may be the first letter of the word: `lleetcode` is
let through. Two such letters in front are harmless again, since the second
one is what the first one made the program miss.

So the word is seen where it is not at the very end and an even number of its
beginnings stand directly before it, and nowhere else.

## Main definitions

* `Visible`: The word stands where the program sees it.

## Theorems

* `matchLoop_step`, `matchLoop_spec`: The loop, as the matcher of the library.
* `matchLoop_returns`: The loop returns, whatever the packet.
* `string_matcher_iff`: When the program answers as it should.
-/

namespace UniBPF

open LittleEndian ResetMatcher

/-- The word stands in the packet, not at its end, with an even number of
    beginnings of the word directly before it. -/
def Visible (p : Bytes) : Prop :=
  ∃ before after, p = before ++ matchWord ++ after ∧ after ≠ [] ∧ Fresh matchWord before

theorem Bytes.u8_eq_getElem (p : Bytes) (i : Nat) (h : i < p.length) : Bytes.u8 p i = p[i] := by
  rw [Bytes.u8, readLE_one p i p[i] (List.getElem?_eq_getElem h), UInt8.ofNat_toNat]

section Loop

variable (ctx : BpfContext)

/-- One byte: the index is in range, and the count is the matcher's. -/
theorem matchLoop_step (n i : Nat) (state : UInt16) (hi : i < ctx.packet.length)
    (hstate : state.toNat < 8) : ∃ state' : UInt16,
      matchLoop ctx (n + 1) i state = matchLoop ctx n (i + 1) state' ∧
        state'.toNat = next matchWord state.toNat ctx.packet[i] := by
  have hhere : ctx.getPtr i 1 = true := decide_eq_true hi
  have hfirst : ctx.getPtr 0 1 = true := decide_eq_true (by omega)
  have hopen : ¬ 8 ≤ state := by
    rw [UInt16.le_iff_toNat_le]
    exact Nat.not_le.mpr hstate
  have hindex := Ending.index_of_lt matchWord state.toNat hstate
  refine ⟨if ctx.packet[i] = matchWord[state.toNat] then state + 1 else 0, ?_, ?_⟩
  · simp only [matchLoop, hhere, hfirst, Bool.not_true, Bool.false_eq_true, if_false, if_neg hopen,
      hindex, Ending.returned_bind, Bytes.u8_eq_getElem ctx.packet i hi]
  · have hlength : matchWord.length = 8 := rfl
    have hget : matchWord[state.toNat]? = some matchWord[state.toNat] :=
      List.getElem?_eq_getElem hstate
    unfold next
    rw [if_neg (show ¬ state.toNat = matchWord.length by omega), hget]
    by_cases hfits : ctx.packet[i] = matchWord[state.toNat]
    · rw [if_pos hfits, if_pos (by rw [hfits]), UInt16.toNat_add]
      have hone : (1 : UInt16).toNat = 1 := rfl
      omega
    · rw [if_neg hfits, if_neg (fun hsome => hfits (Option.some.inj hsome).symm)]
      rfl

/-- The count is checked at the top of a round. -/
theorem matchLoop_complete (n i : Nat) (state : UInt16) (hi : i < ctx.packet.length)
    (hstate : 8 ≤ state.toNat) : matchLoop ctx (n + 1) i state = .returned (some .drop) := by
  have hhere : ctx.getPtr i 1 = true := decide_eq_true hi
  have hfirst : ctx.getPtr 0 1 = true := decide_eq_true (by omega)
  have hdone : 8 ≤ state := UInt16.le_iff_toNat_le.mpr hstate
  simp only [matchLoop, hhere, hfirst, Bool.not_true, Bool.false_eq_true, if_false, if_pos hdone]

/-- Behind the packet the loop ends. -/
theorem matchLoop_end (n i : Nat) (state : UInt16) (hi : ctx.packet.length ≤ i) :
    matchLoop ctx n i state = .returned (some .pass) := by
  cases n with
  | zero => rfl
  | succ n =>
      have hhere : ctx.getPtr i 1 = false := decide_eq_false (by omega)
      simp only [matchLoop, hhere, Bool.not_false, if_true]

/-- The loop returns. The count stays below the length of the word, or it is
    found to be complete. -/
theorem matchLoop_returns (n : Nat) : ∀ (i : Nat) (state : UInt16), state.toNat ≤ 8 →
    ∃ result, matchLoop ctx n i state = .returned result := by
  induction n with
  | zero =>
      intro i state _
      exact ⟨some .pass, rfl⟩
  | succ n ih =>
      intro i state hstate
      by_cases hi : i < ctx.packet.length
      · by_cases hdone : 8 ≤ state.toNat
        · exact ⟨some .drop, matchLoop_complete ctx n i state hi hdone⟩
        · rcases matchLoop_step ctx n i state hi (by omega) with ⟨state', hstep, hnext⟩
          have hle : state'.toNat ≤ 8 := by
            rw [hnext]
            exact next_le matchWord state.toNat _ hstate
          rw [hstep]
          exact ih (i + 1) state' hle
      · exact ⟨some .pass, matchLoop_end ctx (n + 1) i state (by omega)⟩

/-- What the loop returns, from a place in the packet on: the last byte does
    not count any more. -/
theorem matchLoop_spec (n : Nat) : ∀ (i : Nat) (state : UInt16), state.toNat ≤ 8 →
    i < ctx.packet.length → ctx.packet.length ≤ i + n →
    matchLoop ctx n i state = .returned (some
      (if (ctx.packet.drop i).dropLast.foldl (next matchWord) state.toNat = 8 then .drop
        else .pass)) := by
  induction n with
  | zero =>
      intro i state _ hi hrest
      omega
  | succ n ih =>
      intro i state hstate hi hrest
      have hcons : ctx.packet.drop i = ctx.packet[i] :: ctx.packet.drop (i + 1) :=
        List.drop_eq_getElem_cons hi
      by_cases hdone : 8 ≤ state.toNat
      · have hcount : state.toNat = matchWord.length := Nat.le_antisymm hstate hdone
        rw [matchLoop_complete ctx n i state hi hdone, hcount, foldl_next_complete]
        rfl
      · rcases matchLoop_step ctx n i state hi (by omega) with ⟨state', hstep, hnext⟩
        rw [hstep]
        by_cases hmore : i + 1 < ctx.packet.length
        · have hle : state'.toNat ≤ 8 := by
            rw [hnext]
            exact next_le matchWord state.toNat _ hstate
          have hne : ctx.packet.drop (i + 1) ≠ [] := by
            rw [List.drop_eq_getElem_cons hmore]
            exact List.cons_ne_nil _ _
          rw [ih (i + 1) state' hle hmore (by omega), hcons, List.dropLast_cons_of_ne_nil hne,
            List.foldl_cons, hnext]
        -- This was the last byte: the count is not looked at again.
        · rw [matchLoop_end ctx n (i + 1) state' (by omega), hcons,
            List.drop_of_length_le (by omega), List.dropLast_singleton, List.foldl_nil,
            if_neg (by omega)]

end Loop

/-- The first letter of the word is at no other place in it. -/
theorem matchWord_first (k : Nat) (hk : 0 < k) : matchWord[k]? ≠ matchWord[0]? := by
  by_cases hlt : k < 8
  · have hall : ∀ j < 8, 0 < j → matchWord[j]? ≠ matchWord[0]? := by decide
    exact hall k hlt hk
  · have hlength : matchWord.length = 8 := rfl
    rw [List.getElem?_eq_none (by omega)]
    decide

/-- What the program answers to a packet of a size it considers. -/
theorem stringMatcherMain_eq (ctx : BpfContext) (hmin : 20 ≤ ctx.packet.length)
    (hmax : ctx.packet.length ≤ 2000) : stringMatcherMain ctx
      = .returned (if scan matchWord ctx.packet.dropLast = 8 then .drop else .pass) := by
  have hheader : ctx.getPtr 0 ipv4HdrLen = true := decide_eq_true hmin
  have hloop := matchLoop_spec ctx 2000 0 0 (by decide) (by omega) (by omega)
  have hzero : (0 : UInt16).toNat = 0 := rfl
  rw [List.drop_zero, hzero] at hloop
  simp only [stringMatcherMain, stringMatcher, hheader, Bool.not_true, Bool.false_eq_true, if_false,
    hloop, Ending.map_returned, Option.getD_some]
  rfl

/-- The matcher of the library sees the word in the packet without its last
    byte exactly where it is visible. -/
theorem scan_dropLast_iff (p : Bytes) : scan matchWord p.dropLast = 8 ↔ Visible p := by
  have hlength : matchWord.length = 8 := rfl
  have hcomplete := scan_complete_iff matchWord matchWord_first p.dropLast
  rw [hlength] at hcomplete
  rw [hcomplete]
  constructor
  · rintro ⟨before, after, hsplit, hfresh⟩
    have hne : p ≠ [] := by
      intro hnil
      have hlen := congrArg List.length hsplit
      simp only [hnil, List.dropLast_nil, List.length_nil, List.length_append, hlength] at hlen
      omega
    refine ⟨before, after ++ [p.getLast hne], ?_,
      List.append_ne_nil_of_right_ne_nil _ (List.cons_ne_nil _ _), hfresh⟩
    rw [← List.append_assoc, ← hsplit, List.dropLast_append_getLast hne]
  · rintro ⟨before, after, hsplit, hafter, hfresh⟩
    refine ⟨before, after.dropLast, ?_, hfresh⟩
    rw [hsplit, List.dropLast_append_of_ne_nil hafter]

/-- The program drops a packet that contains the word, and lets one through
    that does not, exactly if the word stands at a visible place of the packet
    or not at all. -/
theorem string_matcher_iff (ctx : BpfContext) (hmin : 20 ≤ ctx.packet.length)
    (hmax : ctx.packet.length ≤ 2000) :
    stringMatcherMain ctx = .returned (if matchWord <:+: ctx.packet then .drop else .pass) ↔
      (matchWord <:+: ctx.packet → Visible ctx.packet) := by
  have hvisible : Visible ctx.packet → matchWord <:+: ctx.packet := by
    rintro ⟨before, after, hsplit, -, -⟩
    exact ⟨before, after, hsplit.symm⟩
  have hseen := scan_dropLast_iff ctx.packet
  rw [stringMatcherMain_eq ctx hmin hmax, Ending.returned.injEq]
  by_cases hcontains : matchWord <:+: ctx.packet
  · rw [if_pos hcontains]
    by_cases hscan : scan matchWord ctx.packet.dropLast = 8
    · rw [if_pos hscan]
      exact ⟨fun _ _ => hseen.mp hscan, fun _ => rfl⟩
    · rw [if_neg hscan]
      refine ⟨fun hpass => ?_, fun hyes => absurd (hseen.mpr (hyes hcontains)) hscan⟩
      exact absurd hpass (by simp only [reduceCtorEq, not_false_eq_true])
  · rw [if_neg hcontains, if_neg (fun hscan => hcontains (hvisible (hseen.mp hscan)))]
    exact ⟨fun _ hyes => absurd hyes hcontains, fun _ => rfl⟩

/-- Twelve bytes of nothing, and what follows them. -/
def paddedPacket (rest : Bytes) : BpfContext :=
  ⟨List.replicate 12 0 ++ rest, 0⟩

/-- No beginning of the word ends in zeros. -/
theorem fresh_zeros (n : Nat) : Fresh matchWord (List.replicate n 0) := by
  refine ⟨List.replicate n 0, [], ⟨?_, fun p hp => absurd hp List.not_mem_nil, ?_⟩, Even.zero⟩
  · rw [List.flatten_nil, List.append_nil]
  · rintro p ⟨k, hk, -, hp⟩ hsuffix
    -- It would have the first letter.
    have hletter : (0x6c : UInt8) ∈ p := by
      rw [hp]
      cases k with
      | zero => omega
      | succ k => exact List.mem_cons_self
    have hzero := List.eq_of_mem_replicate (hsuffix.subset hletter)
    exact absurd hzero (by decide)

/-- A word with one byte behind it is found. -/
theorem word_found : 20 ≤ (paddedPacket (matchWord ++ [0])).packet.length ∧
    (paddedPacket (matchWord ++ [0])).packet.length ≤ 2000 ∧
    stringMatcherMain (paddedPacket (matchWord ++ [0]))
      = .returned
        (if matchWord <:+: (paddedPacket (matchWord ++ [0])).packet then .drop else .pass) :=
  ⟨by decide, by decide,
    (string_matcher_iff (paddedPacket (matchWord ++ [0])) (by decide) (by decide)).mpr
    fun _ => ⟨List.replicate 12 0, [0], by rw [paddedPacket, List.append_assoc],
      List.cons_ne_nil _ _, fresh_zeros 12⟩⟩

/-- A word at the end of the packet is let through, and so is one with its
    first letter once more in front. -/
theorem word_missed :
    (20 ≤ (paddedPacket matchWord).packet.length ∧ (paddedPacket matchWord).packet.length ≤ 2000 ∧
      matchWord <:+: (paddedPacket matchWord).packet ∧
      stringMatcherMain (paddedPacket matchWord) = .returned .pass) ∧
    20 ≤ (paddedPacket (0x6c :: matchWord ++ [0])).packet.length ∧
      (paddedPacket (0x6c :: matchWord ++ [0])).packet.length ≤ 2000 ∧
      matchWord <:+: (paddedPacket (0x6c :: matchWord ++ [0])).packet ∧
      stringMatcherMain (paddedPacket (0x6c :: matchWord ++ [0])) = .returned .pass :=
  ⟨⟨by decide, by decide, ⟨List.replicate 12 0, [], rfl⟩, by decide +kernel⟩, by decide, by decide,
    ⟨List.replicate 12 0 ++ [0x6c], [0], rfl⟩, by decide +kernel⟩

end UniBPF
