import Mathlib.Data.List.Basic
import Mathlib.Data.List.Induction
import Mathlib.Algebra.Group.Even
import Mathlib.Algebra.Group.Nat.Even

/-!
# A Matcher that Starts Over

The simplest automaton that looks for a word: it counts how many letters of
the word it has seen in a row, and a letter that does not fit sets the count
back to zero. The letter itself is not looked at again. That makes it miss
occurrences: if the letter that does not fit is the first of an occurrence,
the occurrence is read from its second letter on.

Where the first letter of the word is at no other place in it, it can be said
which ones are missed. A beginning of the word that ends just before an
occurrence keeps the matcher busy, if the matcher has seen the start of the
beginning; and whether it has depends on the beginning that ends just before
that one, and so on. So what counts is how many beginnings stand one behind
the other, and an occurrence is seen if that number is even (`Fresh`).

## Main definitions

* `next`, `scan`: One letter, and a whole string.
* `Beginning`: A part of the word, from its start.
* `Fresh`: An even number of beginnings stand at the end of a string.

## Theorems

* `foldl_next_complete`: A complete match stays.
* `scan_append_take`: Letters of the word, read from the start.
* `scan_append_take_busy`: The same, if the matcher is in the middle of it.
* `scan_eq_some`: What was read, from the count.
* `scan_chain`: The count behind a chain of beginnings.
* `scan_complete_iff`: When the matcher sees the word.
-/

namespace ResetMatcher

variable {α : Type*} [DecidableEq α] (word : List α)

/-- The count after one more letter. A complete match stays. -/
def next (count : Nat) (a : α) : Nat :=
  if count = word.length then count else if word[count]? = some a then count + 1 else 0

/-- The count after a string. -/
def scan (xs : List α) : Nat :=
  xs.foldl (next word) 0

/-- A part of the word that starts where it does: some of it, not all. -/
def Beginning (p : List α) : Prop :=
  ∃ k, 0 < k ∧ k < word.length ∧ p = word.take k

/-- The string ends with this many beginnings of the word, one directly behind
    the other, and no other one stands before them. -/
structure Chain (xs rest : List α) (ps : List (List α)) : Prop where
  split : xs = rest ++ ps.flatten
  beginnings : ∀ p ∈ ps, Beginning word p
  maximal : ∀ p, Beginning word p → ¬ p <:+ rest

/-- An even number of beginnings stand at the end of the string. -/
def Fresh (xs : List α) : Prop :=
  ∃ rest ps, Chain word xs rest ps ∧ Even ps.length

omit [DecidableEq α] in
theorem take_succ_of_getElem? (k : Nat) (a : α) (h : word[k]? = some a) :
    word.take (k + 1) = word.take k ++ [a] := by
  rw [List.take_add_one, h, Option.toList_some]

section Scan

variable (xs ys : List α) (k : Nat)

theorem scan_snoc (a : α) : scan word (xs ++ [a]) = next word (scan word xs) a := by
  rw [scan, List.foldl_append, List.foldl_cons, List.foldl_nil, scan]

/-- A complete match stays. -/
theorem foldl_next_complete : ys.foldl (next word) word.length = word.length := by
  induction ys with
  | nil => rfl
  | cons a ys ih => rw [List.foldl_cons, next, if_pos rfl, ih]

theorem scan_append_of_complete (h : scan word xs = word.length) :
    scan word (xs ++ ys) = word.length := by
  unfold scan at h ⊢
  rw [List.foldl_append, h]
  exact foldl_next_complete word ys

theorem next_le (a : α) (h : k ≤ word.length) : next word k a ≤ word.length := by
  unfold next
  by_cases hdone : k = word.length
  · rw [if_pos hdone]
    exact h
  · rw [if_neg hdone]
    by_cases hfits : word[k]? = some a
    · rw [if_pos hfits]
      omega
    · rw [if_neg hfits]
      exact Nat.zero_le _

theorem scan_le : scan word xs ≤ word.length := by
  induction xs using List.reverseRecOn with
  | nil => exact Nat.zero_le _
  | append_singleton xs a ih =>
      rw [scan_snoc]
      exact next_le word (scan word xs) a ih

/-- Letters of the word, read from its start. -/
theorem scan_append_take (h : scan word xs = 0) (hk : k ≤ word.length) :
    scan word (xs ++ word.take k) = k := by
  induction k with
  | zero => rwa [List.take_zero, List.append_nil]
  | succ k ih =>
      have hget : word[k]? = some word[k] := List.getElem?_eq_getElem hk
      rw [take_succ_of_getElem? word k _ hget, ← List.append_assoc, scan_snoc, ih (by omega), next,
        if_neg (by omega), if_pos hget]

/-- What was read last, from the count: the matcher has seen the beginning of
    the word, and before that it was at the start. -/
theorem scan_eq_some (h : scan word xs = k) (hk : k < word.length) :
    ∃ before, xs = before ++ word.take k ∧ scan word before = 0 := by
  induction xs using List.reverseRecOn generalizing k with
  | nil =>
      have hzero : k = 0 := h.symm
      rw [hzero]
      exact ⟨[], rfl, rfl⟩
  | append_singleton xs a ih =>
      cases k with
      | zero => exact ⟨xs ++ [a], by rw [List.take_zero, List.append_nil], h⟩
      | succ k =>
          rw [scan_snoc] at h
          unfold next at h
          have hopen : ¬ scan word xs = word.length := by
            intro hdone
            rw [if_pos hdone] at h
            omega
          rw [if_neg hopen] at h
          have hfits : word[scan word xs]? = some a := by
            by_contra hne
            rw [if_neg hne] at h
            omega
          rw [if_pos hfits] at h
          have hcount : scan word xs = k := by omega
          rcases ih k hcount (by omega) with ⟨before, hsplit, hstart⟩
          rw [hcount] at hfits
          refine ⟨before, ?_, hstart⟩
          rw [take_succ_of_getElem? word k a hfits, ← List.append_assoc, ← hsplit]

/-- The matcher has completed the word only where it had seen all of it from
    the start. -/
theorem complete_split (hword : 0 < word.length) (h : scan word xs = word.length) :
    ∃ before after, xs = before ++ word ++ after ∧ scan word before = 0 := by
  induction xs using List.reverseRecOn with
  | nil =>
      have hzero : word.length = 0 := h.symm
      omega
  | append_singleton xs a ih =>
      by_cases hdone : scan word xs = word.length
      · rcases ih hdone with ⟨before, after, hsplit, hstart⟩
        exact ⟨before, after ++ [a], by rw [hsplit, List.append_assoc], hstart⟩
      · rw [scan_snoc, next, if_neg hdone] at h
        have hfits : word[scan word xs]? = some a := by
          by_contra hne
          rw [if_neg hne] at h
          omega
        rw [if_pos hfits] at h
        have hcount : scan word xs = word.length - 1 := by omega
        rcases scan_eq_some word xs _ hcount (by omega) with ⟨before, hsplit, hstart⟩
        rw [hcount] at hfits
        have hlast := take_succ_of_getElem? word _ a hfits
        rw [Nat.sub_add_cancel hword, List.take_length] at hlast
        refine ⟨before, [], ?_, hstart⟩
        rw [List.append_nil, hsplit, List.append_assoc, ← hlast]

end Scan

section FirstLetter

-- The first letter is at no other place. A word like that is not empty.
variable (hfirst : ∀ k, 0 < k → word[k]? ≠ word[0]?)

include hfirst

omit [DecidableEq α] in
theorem length_pos_of_first : 0 < word.length := by
  by_contra hnone
  refine hfirst 1 Nat.one_pos ?_
  rw [List.getElem?_eq_none (by omega), List.getElem?_eq_none (by omega)]

/-- Letters of the word from its start, read in the middle of a match: the
    first one does not fit, and no other one is the first. -/
theorem scan_append_take_busy (xs : List α) (k : Nat) (hbusy : 0 < scan word xs)
    (hopen : scan word xs < word.length) (hk : k < word.length) :
    scan word (xs ++ word.take (k + 1)) = 0 := by
  have hpos := length_pos_of_first word hfirst
  induction k with
  | zero =>
      have hget : word[0]? = some word[0] := List.getElem?_eq_getElem hpos
      have hmiss : ¬ word[scan word xs]? = some word[0] := by
        rw [← hget]
        exact hfirst _ hbusy
      rw [take_succ_of_getElem? word 0 _ hget, List.take_zero, List.nil_append, scan_snoc, next,
        if_neg (by omega), if_neg hmiss]
  | succ k ih =>
      have hget : word[k + 1]? = some word[k + 1] := List.getElem?_eq_getElem hk
      have hmiss : ¬ word[0]? = some word[k + 1] := by
        rw [← hget]
        exact (hfirst _ (Nat.succ_pos k)).symm
      rw [take_succ_of_getElem? word (k + 1) _ hget, ← List.append_assoc, scan_snoc, ih (by omega),
        next, if_neg (by omega), if_neg hmiss]

/-- Behind a chain the matcher is at the start, if the chain is even, and in
    the middle of a match otherwise. -/
theorem scan_chain (rest : List α) (ps : List (List α)) : ∀ xs, Chain word xs rest ps →
    scan word xs < word.length → (scan word xs = 0 ↔ Even ps.length) := by
  induction ps using List.reverseRecOn with
  | nil =>
      intro xs h hopen
      have hsplit := h.split
      rw [List.flatten_nil, List.append_nil] at hsplit
      refine ⟨fun _ => Even.zero, fun _ => ?_⟩
      -- A count above zero would be a beginning at the end.
      by_contra hne
      rcases scan_eq_some word xs _ rfl hopen with ⟨before, hxs, -⟩
      refine h.maximal (word.take (scan word xs)) ⟨_, by omega, hopen, rfl⟩ ?_
      rw [← hsplit]
      exact ⟨before, hxs.symm⟩
  | append_singleton ps p ih =>
      intro xs h hopen
      rcases h.beginnings p (List.mem_append_right ps List.mem_cons_self) with ⟨k, hk, hlt, hp⟩
      have hxs : xs = (rest ++ ps.flatten) ++ word.take k := by
        rw [h.split, List.flatten_append, List.flatten_singleton, hp, List.append_assoc]
      have hchain : Chain word (rest ++ ps.flatten) rest ps :=
        ⟨rfl, fun q hq => h.beginnings q (List.mem_append_left [p] hq), h.maximal⟩
      -- The match is not complete before the last beginning either.
      have hbefore : scan word (rest ++ ps.flatten) < word.length := by
        refine lt_of_le_of_ne (scan_le word _) ?_
        intro hdone
        rw [hxs, scan_append_of_complete word _ _ hdone] at hopen
        exact absurd hopen (lt_irrefl _)
      have hparity := ih _ hchain hbefore
      rw [List.length_append, List.length_singleton, Nat.even_add_one, ← hparity, hxs]
      by_cases hstart : scan word (rest ++ ps.flatten) = 0
      · rw [scan_append_take word _ k hstart (Nat.le_of_lt hlt)]
        refine ⟨fun hzero => ?_, fun hno => absurd hstart hno⟩
        omega
      · have hzero := scan_append_take_busy word hfirst _ (k - 1) (Nat.pos_of_ne_zero hstart)
          hbefore (by omega)
        rw [Nat.sub_add_cancel hk] at hzero
        exact ⟨fun _ => hstart, fun _ => hzero⟩

omit hfirst [DecidableEq α] in
/-- Every string ends with some chain. -/
theorem exists_chain (n : Nat) : ∀ xs : List α, xs.length ≤ n → ∃ rest ps,
    Chain word xs rest ps := by
  induction n with
  | zero =>
      intro xs hlen
      have hnil : xs = [] := List.length_eq_zero_iff.mp (by omega)
      refine ⟨[], [], hnil, fun p hp => absurd hp List.not_mem_nil, ?_⟩
      rintro p ⟨k, hk, hlt, hp⟩ hsuffix
      have hle := hsuffix.length_le
      rw [hp, List.length_take, List.length_nil] at hle
      omega
  | succ n ih =>
      intro xs hlen
      by_cases hends : ∃ p, Beginning word p ∧ p <:+ xs
      · rcases hends with ⟨p, hp, before, hxs⟩
        have hshort : before.length ≤ n := by
          rcases hp with ⟨k, hk, hlt, heq⟩
          rw [← hxs, List.length_append, heq, List.length_take] at hlen
          omega
        rcases ih before hshort with ⟨rest, ps, hchain⟩
        refine ⟨rest, ps ++ [p], ?_, ?_, hchain.maximal⟩
        · rw [← hxs, hchain.split, List.flatten_append, List.flatten_singleton, List.append_assoc]
        · intro q hq
          rcases List.mem_append.mp hq with hold | hlast
          · exact hchain.beginnings q hold
          · rw [List.mem_singleton.mp hlast]
            exact hp
      · refine ⟨xs, [], ?_, fun p hp => absurd hp List.not_mem_nil, fun p hp hsuffix => ?_⟩
        · rw [List.flatten_nil, List.append_nil]
        · exact hends ⟨p, hp, hsuffix⟩

/-- The matcher sees the word exactly where an even number of its beginnings
    stand before it. -/
theorem scan_complete_iff (xs : List α) :
    scan word xs = word.length ↔
      ∃ before after, xs = before ++ word ++ after ∧ Fresh word before := by
  have hpos := length_pos_of_first word hfirst
  constructor
  · intro h
    rcases complete_split word xs hpos h with ⟨before, after, hsplit, hstart⟩
    rcases exists_chain word before.length before le_rfl with ⟨rest, ps, hchain⟩
    refine ⟨before, after, hsplit, rest, ps, hchain, ?_⟩
    exact (scan_chain word hfirst rest ps before hchain (by omega)).mp hstart
  · rintro ⟨before, after, hsplit, rest, ps, hchain, heven⟩
    rw [hsplit]
    apply scan_append_of_complete
    by_cases hdone : scan word before = word.length
    · exact scan_append_of_complete word before word hdone
    · have hopen : scan word before < word.length := lt_of_le_of_ne (scan_le word before) hdone
      have hstart := (scan_chain word hfirst rest ps before hchain hopen).mpr heven
      have hall := scan_append_take word before word.length hstart le_rfl
      rwa [List.take_length] at hall

end FirstLetter

end ResetMatcher
