import Mathlib.Data.ZMod.Basic
import Mathlib.Algebra.BigOperators.Group.List.Basic
import Mathlib.Tactic.LinearCombination
import UniBPF.Lib.LittleEndian

/-!
# Sums in One's Complement

Words of `b` bits added with an end-around carry: what goes over `m = 2 ^ b - 1`
is brought back in at the bottom. Zero has two representations, `0` and `m`,
and a sum is `0` only when every word is. The sum is therefore not quite the
sum modulo `m`, and this is where proofs about checksums get stuck; with
`sum_eq_iff` they can be carried out modulo `m`, with the second half of the
equivalence to keep the two zeros apart.

A byte string is read as words in network byte order, with a zero byte behind
an odd one. A number that is stored the other way around contributes `256`
times itself: swapping the bytes of a word is multiplication by `256` modulo
`65535`.

## Main definitions

* `add`, `sum`: Addition with an end-around carry.
* `words`: The words of a byte string.
* `wordSum`: Their sum as a natural number.
* `Verifies`: The words add up to `0xffff`.

## Theorems

* `sum_eq_iff`: The sum is `m` when `m` divides the sum of the words and they
  are not all zero.
* `wordSum_append`: The words of a concatenation.
* `wordSum_toLE_two`, `wordSum_toLE_four`: The words of a stored number.
* `fold_carries`: The sum of three words, brought back to one.
* `verifies_iff`: Verification as an equation modulo `65535`.
-/

namespace OnesComplement

open LittleEndian

section Sum

variable (m : Nat)

/-- Addition with an end-around carry. -/
def add (a b : Nat) : Nat :=
  if a + b ≤ m then a + b else a + b - m

def sum (ws : List Nat) : Nat :=
  ws.foldr (add m) 0

theorem add_le (a b : Nat) (ha : a ≤ m) (hb : b ≤ m) : add m a b ≤ m := by
  unfold add
  split
  · assumption
  · omega

theorem add_modEq (a b : Nat) : add m a b ≡ a + b [MOD m] := by
  unfold add
  by_cases h : a + b ≤ m
  · rw [if_pos h]
  · rw [if_neg h]
    rw [Nat.ModEq, ← Nat.add_mod_right (a + b - m) m, Nat.sub_add_cancel (by omega)]

theorem add_eq_zero (a b : Nat) : add m a b = 0 ↔ a + b = 0 := by
  unfold add
  split <;> omega

theorem sum_le (ws : List Nat) (h : ∀ w ∈ ws, w ≤ m) : sum m ws ≤ m := by
  induction ws with
  | nil => exact Nat.zero_le m
  | cons w ws ih =>
      have hrest := ih (fun v hv => h v (List.mem_cons_of_mem w hv))
      exact add_le m w _ (h w List.mem_cons_self) hrest

theorem sum_modEq (ws : List Nat) : sum m ws ≡ ws.sum [MOD m] := by
  induction ws with
  | nil => exact Nat.ModEq.rfl
  | cons w ws ih =>
      rw [List.sum_cons]
      exact (add_modEq m w (sum m ws)).trans (Nat.ModEq.add_left w ih)

theorem sum_eq_zero (ws : List Nat) : sum m ws = 0 ↔ ws.sum = 0 := by
  induction ws with
  | nil => exact Iff.rfl
  | cons w ws ih =>
      have hcons : sum m (w :: ws) = add m w (sum m ws) := rfl
      rw [hcons, add_eq_zero, List.sum_cons]
      omega

/-- The sum is `m`, the zero that is not `0`, when it is zero modulo `m` and
    there is something in it. -/
theorem sum_eq_iff (ws : List Nat) (hm : 0 < m) (h : ∀ w ∈ ws, w ≤ m) :
    sum m ws = m ↔ m ∣ ws.sum ∧ ws.sum ≠ 0 := by
  have hle := sum_le m ws h
  have hmod := sum_modEq m ws
  have hzero := sum_eq_zero m ws
  constructor
  · intro hsum
    rw [hsum] at hmod hzero
    exact ⟨(Nat.modEq_zero_iff_dvd).mp (hmod.symm.trans (Nat.modEq_zero_iff_dvd.mpr dvd_rfl)),
      fun hall => by omega⟩
  · rintro ⟨hdvd, hne⟩
    -- A multiple of `m` that is not `0` and not above `m`.
    have hdvd' : m ∣ sum m ws := (Nat.modEq_zero_iff_dvd).mp
      (hmod.trans (Nat.modEq_zero_iff_dvd.mpr hdvd))
    exact le_antisymm hle (Nat.le_of_dvd (by omega) hdvd')

end Sum

/-- The words of a byte string in network byte order. -/
def words : List UInt8 → List Nat
  | [] => []
  | [a] => [256 * a.toNat]
  | a :: b :: bs => (256 * a.toNat + b.toNat) :: words bs

/-- The sum of the words, as a number. -/
def wordSum (bs : List UInt8) : Nat :=
  (words bs).sum

/-- The words add up to `0xffff`. -/
def Verifies (ws : List Nat) : Prop :=
  sum 65535 ws = 65535

instance (ws : List Nat) : Decidable (Verifies ws) :=
  inferInstanceAs (Decidable (_ = _))

theorem words_le (bs : List UInt8) : ∀ w ∈ words bs, w ≤ 65535 := by
  induction bs using words.induct with
  | case1 => exact fun w hw => absurd hw List.not_mem_nil
  | case2 a =>
      intro w hw
      have ha : a.toNat < 256 := a.toNat_lt
      rw [words, List.mem_singleton] at hw
      omega
  | case3 a b bs ih =>
      intro w hw
      have ha : a.toNat < 256 := a.toNat_lt
      have hb : b.toNat < 256 := b.toNat_lt
      rw [words, List.mem_cons] at hw
      rcases hw with heq | hmem
      · omega
      · exact ih w hmem

/-- Words do not cross from a string of even length into the next. -/
theorem words_append (as bs : List UInt8) (h : 2 ∣ as.length) :
    words (as ++ bs) = words as ++ words bs := by
  induction as using words.induct with
  | case1 => rfl
  | case2 a =>
      rw [List.length_singleton] at h
      omega
  | case3 a b as ih =>
      rw [List.length_cons, List.length_cons] at h
      rw [List.cons_append, List.cons_append, words, words, ih (by omega), List.cons_append]

theorem wordSum_append (as bs : List UInt8) (h : 2 ∣ as.length) :
    wordSum (as ++ bs) = wordSum as + wordSum bs := by
  rw [wordSum, words_append as bs h, List.sum_append]
  rfl

/-- Carries do not count modulo `65535`. -/
theorem cast_of_carry (n k v : Nat) (h : n + 65535 * k = v) : (n : ZMod 65535) = v := by
  have hzero : ((65535 : Nat) : ZMod 65535) = 0 := ZMod.natCast_self 65535
  rw [← h, Nat.cast_add, Nat.cast_mul, hzero, zero_mul, add_zero]

/-- Folding the carries of a sum of three words into it twice leaves one word,
    which is zero only if the sum was. -/
theorem fold_carries (s : Nat) (hs : s < 3 * 65536) :
    let t := s % 65536 + s / 65536
    let u := (t + t / 65536) % 65536
    (∃ k, u + 65535 * k = s) ∧ (u = 0 ↔ s = 0) := by
  intro t u
  have ht : t + 65535 * (s / 65536) = s := by omega
  have hu : u + 65535 * (t / 65536) = t := by
    by_cases hcarry : t < 65536
    · have hzero : t / 65536 = 0 := Nat.div_eq_of_lt hcarry
      simp only [u, hzero]
      omega
    · have hone : t / 65536 = 1 := by omega
      simp only [u, hone]
      omega
  exact ⟨⟨s / 65536 + t / 65536, by omega⟩, by omega⟩

/-- A stored word counts `256` times, modulo `65535`. -/
theorem wordSum_toLE_two (v : Nat) (hv : v < 65536) :
    (wordSum (toLE 2 v) : ZMod 65535) = 256 * v := by
  have hlow : (UInt8.ofNat v).toNat = v % 256 := UInt8.toNat_ofNat' ..
  have hhigh : (UInt8.ofNat (v / 256)).toNat = v / 256 % 256 := UInt8.toNat_ofNat' ..
  have hsum : wordSum (toLE 2 v) + 65535 * (v / 256) = 256 * v := by
    simp only [wordSum, toLE, words, List.sum_cons, List.sum_nil, hlow, hhigh]
    omega
  rw [cast_of_carry _ _ _ hsum, Nat.cast_mul]
  rfl

theorem toLE_four (v : Nat) : toLE 4 v = toLE 2 v ++ toLE 2 (v / 65536) := by
  have hdiv : v / 256 / 256 = v / 65536 := Nat.div_div_eq_div_mul v 256 256
  simp only [toLE, List.cons_append, List.nil_append, hdiv]

theorem toLE_two_mod (v : Nat) : toLE 2 v = toLE 2 (v % 65536) := by
  have hlow : UInt8.ofNat v = UInt8.ofNat (v % 65536) := by
    apply UInt8.toNat_inj.mp
    rw [UInt8.toNat_ofNat', UInt8.toNat_ofNat']
    omega
  have hhigh : UInt8.ofNat (v / 256) = UInt8.ofNat (v % 65536 / 256) := by
    apply UInt8.toNat_inj.mp
    rw [UInt8.toNat_ofNat', UInt8.toNat_ofNat']
    omega
  simp only [toLE, hlow, hhigh]

theorem wordSum_toLE_four (v : Nat) (hv : v < 2 ^ 32) :
    (wordSum (toLE 4 v) : ZMod 65535) = 256 * ((v % 65536 : Nat) + (v / 65536 : Nat)) := by
  rw [toLE_four, wordSum_append _ _ (by rw [length_toLE]), toLE_two_mod v, Nat.cast_add,
    wordSum_toLE_two _ (Nat.mod_lt v (by decide)), wordSum_toLE_two _ (by omega)]
  ring

/-- Words that are not all zero verify when their sum is zero modulo
    `65535`. -/
theorem verifies_iff (ws : List Nat) (h : ∀ w ∈ ws, w ≤ 65535) (hne : ws.sum ≠ 0) :
    Verifies ws ↔ (ws.sum : ZMod 65535) = 0 := by
  rw [Verifies, sum_eq_iff 65535 ws (by decide) h, ZMod.natCast_eq_zero_iff]
  exact ⟨fun hv => hv.1, fun hdvd => ⟨hdvd, hne⟩⟩

end OnesComplement
