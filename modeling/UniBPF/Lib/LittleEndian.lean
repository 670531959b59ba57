import Mathlib.Tactic.Ring
import Mathlib.Data.List.Basic

/-!
# Little Endian Integers in Byte Strings

Fixed-width unsigned integers stored least significant byte first, and byte
strings read and written at an offset. Every binary format in the
development, the control datagram, the ELF structures and the instruction
words alike, reads its fields through `readLE`, and everything that patches
one goes through `writeLE`.

Nothing here checks a bound. A read past the end sees the bytes that are
there, so a caller that must not over-read says so itself; the lemmas carry
the bound only where the answer depends on it.

`readLE_writeLE_disjoint` is the frame rule, a write leaving every range it
does not touch as it was, and `readLE_append_right` lets a parser walk over a
concatenation one piece at a time.

## Main definitions

* `toLE`: The bytes of a number, least significant first.
* `ofLE`: The number a byte string spells.
* `readLE`: The number at an offset.
* `writeLE`: Storing a number at an offset.

## Theorems

* `length_toLE`: A width-`w` integer takes `w` bytes.
* `ofLE_toLE`: Reading back what was encoded, modulo the width.
* `ofLE_lt`: A byte string spells a number its length can hold.
* `readLE_lt`: A width-`w` read is below `256 ^ w`.
* `length_writeLE`: A write inside the string keeps its length.
* `readLE_writeLE_same`: Reading the range just written.
* `readLE_writeLE_disjoint`: Reading a range the write missed.
* `readLE_one`: A read of one byte.
* `readLE_add`: A wide read is two narrow ones side by side.
* `readLE_append_left`: A read inside the first half of a concatenation.
* `readLE_append_right`: A read past the first half of a concatenation.
* `readLE_toLE`, `readLE_toLE_skip`: Walking over numbers written one after
  another.
* `drop_writeLE_of_le`: Bytes past a write are as they were.
* `writeLE_toLE`, `writeLE_toLE_skip`: Writing over one of them.
* `toLE_readLE`: The bytes of a number that was read.
-/

namespace LittleEndian

/-- The `w` low bytes of `n`, least significant first. -/
def toLE : Nat → Nat → List UInt8
  | 0, _ => []
  | w + 1, n => UInt8.ofNat n :: toLE w (n / 256)

/-- The number a byte string spells, least significant byte first. -/
def ofLE : List UInt8 → Nat
  | [] => 0
  | b :: bs => b.toNat + 256 * ofLE bs

/-- The `w`-byte number at offset `off`. -/
def readLE (bs : List UInt8) (off w : Nat) : Nat :=
  ofLE ((bs.drop off).take w)

/-- Store the `w` low bytes of `v` at offset `off`. -/
def writeLE (bs : List UInt8) (off w v : Nat) : List UInt8 :=
  bs.take off ++ (toLE w v ++ bs.drop (off + w))

@[simp] theorem length_toLE (w n : Nat) : (toLE w n).length = w := by
  induction w generalizing n with
  | zero => rfl
  | succ w ih => simp only [toLE, List.length_cons, ih]

theorem ofLE_toLE (w n : Nat) : ofLE (toLE w n) = n % 256 ^ w := by
  induction w generalizing n with
  | zero => simp only [toLE, ofLE, pow_zero, Nat.mod_one]
  | succ w ih =>
      have hbyte : (UInt8.ofNat n).toNat = n % 256 := UInt8.toNat_ofNat' ..
      rw [toLE, ofLE, ih, hbyte, pow_succ', Nat.mod_mul]

theorem ofLE_lt (bs : List UInt8) : ofLE bs < 256 ^ bs.length := by
  induction bs with
  | nil => simp only [ofLE, List.length_nil, pow_zero, Nat.lt_one_iff]
  | cons b bs ih =>
      have hb : b.toNat < 256 := b.toNat_lt
      rw [ofLE, List.length_cons, pow_succ']
      omega

theorem readLE_lt (bs : List UInt8) (off w : Nat) : readLE bs off w < 256 ^ w := by
  refine lt_of_lt_of_le (ofLE_lt _) (Nat.pow_le_pow_right (by norm_num) ?_)
  rw [List.length_take]
  exact Nat.min_le_left _ _

theorem length_writeLE (bs : List UInt8) (off w v : Nat) (h : off + w ≤ bs.length) :
    (writeLE bs off w v).length = bs.length := by
  simp only [writeLE, List.length_append, List.length_take, List.length_drop, length_toLE]
  omega

theorem drop_writeLE (bs : List UInt8) (off w v : Nat) (h : off ≤ bs.length) :
    (writeLE bs off w v).drop off = toLE w v ++ bs.drop (off + w) := by
  have hlen : (bs.take off).length = off := by
    rw [List.length_take]
    omega
  rw [writeLE, List.drop_append_of_le_length (by omega), List.drop_of_length_le (by omega),
    List.nil_append]

theorem drop_writeLE_of_le (bs : List UInt8) (off w v k : Nat) (h : off + w ≤ bs.length)
    (hk : off + w ≤ k) : (writeLE bs off w v).drop k = bs.drop k := by
  have hsplit : k = off + (w + (k - (off + w))) := by omega
  have hpast : (toLE w v ++ bs.drop (off + w)).drop w = bs.drop (off + w) :=
    List.drop_left' (length_toLE w v)
  rw [hsplit, ← List.drop_drop, drop_writeLE bs off w v (by omega), ← List.drop_drop, hpast,
    List.drop_drop]
  congr 1
  omega

theorem take_writeLE_of_le (bs : List UInt8) (off w v k : Nat) (h : off ≤ bs.length)
    (hk : k ≤ off) : (writeLE bs off w v).take k = bs.take k := by
  rw [writeLE, List.take_append_of_le_length (by rw [List.length_take]; omega), List.take_take,
    Nat.min_eq_left hk]

/-- Reading back the range that was just written. -/
theorem readLE_writeLE_same (bs : List UInt8) (off w v : Nat) (h : off ≤ bs.length) :
    readLE (writeLE bs off w v) off w = v % 256 ^ w := by
  rw [readLE, drop_writeLE bs off w v h, List.take_append_of_le_length (by rw [length_toLE]),
    List.take_of_length_le (by rw [length_toLE]), ofLE_toLE]

/-- A write leaves every range it does not touch as it was. -/
theorem readLE_writeLE_disjoint (bs : List UInt8) (off w v off' w' : Nat)
    (h : off + w ≤ bs.length) (hd : off' + w' ≤ off ∨ off + w ≤ off') :
    readLE (writeLE bs off w v) off' w' = readLE bs off' w' := by
  rcases hd with hd | hd
  -- The read range lies below the write, inside a prefix both strings share.
  · have hpre := take_writeLE_of_le bs off w v (off' + w') (by omega) hd
    rw [readLE, readLE, List.take_drop, List.take_drop, hpre]
  · rw [readLE, readLE, drop_writeLE_of_le bs off w v off' h hd]

theorem ofLE_append (as bs : List UInt8) :
    ofLE (as ++ bs) = ofLE as + 256 ^ as.length * ofLE bs := by
  induction as with
  | nil => simp only [List.nil_append, ofLE, List.length_nil, pow_zero, one_mul, zero_add]
  | cons a as ih =>
      rw [List.cons_append, ofLE, ofLE, ih, List.length_cons, pow_succ']
      ring

/-- A read of one byte. -/
theorem readLE_one (bs : List UInt8) (off : Nat) (b : UInt8) (h : bs[off]? = some b) :
    readLE bs off 1 = b.toNat := by
  rw [readLE, List.take_one, List.head?_drop, h, Option.toList_some]
  simp only [ofLE, mul_zero, add_zero]

/-- A wide read is two narrow ones side by side. -/
theorem readLE_add (bs : List UInt8) (off v w : Nat) (h : off + v ≤ bs.length) :
    readLE bs off (v + w) = readLE bs off v + 256 ^ v * readLE bs (off + v) w := by
  have hlen : ((bs.drop off).take v).length = v := by
    rw [List.length_take, List.length_drop]
    omega
  rw [readLE, List.take_add, ofLE_append, hlen, List.drop_drop]
  rfl

theorem readLE_append_left (as bs : List UInt8) (off w : Nat) (h : off + w ≤ as.length) :
    readLE (as ++ bs) off w = readLE as off w := by
  rw [readLE, readLE, List.drop_append_of_le_length (by omega),
    List.take_append_of_le_length (by rw [List.length_drop]; omega)]

theorem readLE_append_right (as bs : List UInt8) (off w : Nat) (h : as.length ≤ off) :
    readLE (as ++ bs) off w = readLE bs (off - as.length) w := by
  rw [readLE, readLE, List.drop_append, List.drop_of_length_le h, List.nil_append]

/-- The number at the front of a string that starts with its bytes. -/
theorem readLE_toLE (w n : Nat) (bs : List UInt8) :
    readLE (toLE w n ++ bs) 0 w = n % 256 ^ w := by
  rw [readLE_append_left _ _ _ _ (by rw [length_toLE]; omega), readLE, List.drop_zero,
    List.take_of_length_le (by rw [length_toLE]), ofLE_toLE]

/-- What is behind the first number of a string. -/
theorem readLE_toLE_skip (v n : Nat) (bs : List UInt8) (off w : Nat) :
    readLE (toLE v n ++ bs) (v + off) w = readLE bs off w := by
  rw [readLE_append_right _ _ _ _ (by rw [length_toLE]; omega), length_toLE,
    Nat.add_sub_cancel_left]

/-- A write past the first half of a concatenation. -/
theorem writeLE_append_right (as bs : List UInt8) (off w v : Nat) :
    writeLE (as ++ bs) (as.length + off) w v = as ++ writeLE bs off w v := by
  have hpast : as.length + off + w - as.length = off + w := by omega
  rw [writeLE, writeLE, List.take_length_add_append, List.drop_append,
    List.drop_of_length_le (by omega), List.nil_append, hpast, List.append_assoc]

/-- Writing over the number at the front of a string. -/
theorem writeLE_toLE (w u v : Nat) (bs : List UInt8) :
    writeLE (toLE w u ++ bs) 0 w v = toLE w v ++ bs := by
  rw [writeLE, List.take_zero, List.nil_append, Nat.zero_add, List.drop_left' (length_toLE w u)]

theorem writeLE_toLE_skip (x n : Nat) (bs : List UInt8) (off w v : Nat) :
    writeLE (toLE x n ++ bs) (x + off) w v = toLE x n ++ writeLE bs off w v := by
  have h := writeLE_append_right (toLE x n) bs off w v
  rwa [length_toLE] at h

/-- The bytes of a number that was read are those at the place it was read
    from. -/
theorem toLE_ofLE (bs : List UInt8) : toLE bs.length (ofLE bs) = bs := by
  induction bs with
  | nil => rfl
  | cons b bs ih =>
      have hb : b.toNat < 256 := b.toNat_lt
      have hdiv : (b.toNat + 256 * ofLE bs) / 256 = ofLE bs := by omega
      have hbyte : UInt8.ofNat (b.toNat + 256 * ofLE bs) = b := by
        apply UInt8.toNat_inj.mp
        rw [UInt8.toNat_ofNat']
        omega
      rw [List.length_cons, ofLE, toLE, hdiv, hbyte, ih]

theorem toLE_readLE (bs : List UInt8) (off w : Nat) (h : off + w ≤ bs.length) :
    toLE w (readLE bs off w) = (bs.drop off).take w := by
  have hlen : ((bs.drop off).take w).length = w := by
    rw [List.length_take, List.length_drop]
    omega
  have hback := toLE_ofLE ((bs.drop off).take w)
  rwa [hlen] at hback

end LittleEndian
