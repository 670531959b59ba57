import UniBPF.Core.X86

/-!
# Memory under Compiled Code

Compiled code runs in a memory that holds more than the program is meant to
see: the code itself, the registers of the caller, and a stack of return
addresses and saved registers. `Ground` says where these are. The rest is the
program's, and `Holds` ties the two views together: outside the private part
the native memory is the program's memory, and inside it the program has
nothing mapped.

The stack is a list of words that grows downwards from a fixed place. With
the rules for pushing, popping and the program's own accesses nothing further
on has to speak about bytes.

An address is placed by its distance below the top of the stack, in the
arithmetic of the machine, so nothing has to be assumed about where the top
is.

## Main definitions

* `byteOf`, `Memory.write`: What a store leaves behind.
* `depth`: How far an address is below the top of the stack.
* `Ground`: The private part of memory.
* `StackAt`, `Holds`: The words of the stack, and all of memory.

## Theorems

* `store_eq_write`, `store_of_mapped`: A store succeeds where all is mapped,
  and what it does.
* `load_of_bytes`: Loading what is known byte by byte.
* `Holds.push`, `Holds.top`: The stack.
* `Holds.load`, `Holds.store`: The program's accesses.
-/

namespace UniBPF

/-! ## Loads and stores -/

/-- A byte of a number. -/
def byteOf (v i : Nat) : UInt8 := UInt8.ofNat (v / 256 ^ i)

/-- Memory with the low bytes of a number in it. -/
def Memory.write (m : Memory) (a : Word) (n v : Nat) : Memory := fun b =>
  if (b - a).toNat < n then some (byteOf v (b - a).toNat) else m b

theorem byteOf_div (v i : Nat) : byteOf (v / 256) i = byteOf v (i + 1) := by
  rw [byteOf, byteOf, Nat.div_div_eq_div_mul, pow_succ']

theorem add_one_ofNat (a : Word) (i : Nat) :
    a + 1 + BitVec.ofNat 64 i = a + BitVec.ofNat 64 (i + 1) := by
  rw [BitVec.add_assoc, BitVec.add_comm 1, BitVec.ofNat_add]
  rfl

/-- What a store leaves behind. -/
theorem store_eq_write (m : Memory) (a : Word) (n v : Nat) (m' : Memory) (hn : n < 2 ^ 64)
    (h : m.store a n v = some m') : m' = m.write a n v := by
  induction n generalizing m a v with
  | zero =>
      simp only [Memory.store, Option.some.injEq] at h
      rw [← h]
      funext b
      simp only [Memory.write, not_lt_zero, if_false]
  | succ n ih =>
      simp only [Memory.store] at h
      cases hma : m a with
      | none =>
          rw [hma] at h
          exact absurd h (by simp only [reduceCtorEq, not_false_eq_true])
      | some old =>
          rw [hma] at h
          rw [ih _ _ _ (by omega) h]
          funext b
          by_cases hba : b = a
          · -- The rest of the store does not come round to the first byte.
            subst hba
            have hfar : ¬ (b - (b + 1)).toNat < n := by bv_omega
            have hzero : (b - b).toNat = 0 := by bv_omega
            simp only [Memory.write, hfar, if_false, Function.update_self, hzero, byteOf, pow_zero,
              Nat.div_one, Nat.zero_lt_succ, if_true]
          · have hnext : (b - a).toNat = (b - (a + 1)).toNat + 1 := by bv_omega
            simp only [Memory.write, Function.update_of_ne hba, hnext, Nat.add_lt_add_iff_right,
              byteOf_div]

/-- A store succeeds where all is mapped. -/
theorem store_of_mapped (m : Memory) (a : Word) (n v : Nat) (hn : n < 2 ^ 64)
    (h : ∀ i < n, m (a + BitVec.ofNat 64 i) ≠ none) : m.store a n v = some (m.write a n v) := by
  suffices hsome : ∃ m', m.store a n v = some m' by
    rcases hsome with ⟨m', hm'⟩
    rw [hm', store_eq_write m a n v m' hn hm']
  induction n generalizing m a v with
  | zero => exact ⟨m, rfl⟩
  | succ n ih =>
      have hfirst := h 0 (by omega)
      rw [BitVec.add_zero] at hfirst
      simp only [Memory.store]
      cases hma : m a with
      | none => exact absurd hma hfirst
      | some old =>
          refine ih _ _ _ (by omega) (fun i hi => ?_)
          have hrest := h (i + 1) (by omega)
          rw [add_one_ofNat]
          by_cases hia : a + BitVec.ofNat 64 (i + 1) = a
          · rw [hia, Function.update_self]
            exact Option.some_ne_none _
          · rw [Function.update_of_ne hia]
            exact hrest

theorem mapped_of_store (m : Memory) (a : Word) (n v : Nat) (m' : Memory) (hn : n < 2 ^ 64)
    (h : m.store a n v = some m') (i : Nat) (hi : i < n) :
    m (a + BitVec.ofNat 64 i) ≠ none := by
  induction n generalizing m a v i with
  | zero => exact absurd hi (Nat.not_lt_zero i)
  | succ n ih =>
      simp only [Memory.store] at h
      cases hma : m a with
      | none =>
          rw [hma] at h
          exact absurd h (by simp only [reduceCtorEq, not_false_eq_true])
      | some old =>
          rw [hma] at h
          cases i with
          | zero =>
              rw [BitVec.add_zero, hma]
              exact Option.some_ne_none old
          | succ i =>
              have hrest := ih _ _ _ (by omega) h i (by omega)
              have hne : a + BitVec.ofNat 64 (i + 1) ≠ a := by bv_omega
              rw [add_one_ofNat, Function.update_of_ne hne] at hrest
              exact hrest

theorem load_congr (m m' : Memory) (a : Word) (n : Nat)
    (h : ∀ i < n, m (a + BitVec.ofNat 64 i) = m' (a + BitVec.ofNat 64 i)) :
    m.load a n = m'.load a n := by
  induction n generalizing a with
  | zero => rfl
  | succ n ih =>
      have hfirst := h 0 (by omega)
      rw [BitVec.add_zero] at hfirst
      simp only [Memory.load]
      rw [hfirst, ih (a + 1) (fun i hi => by rw [add_one_ofNat]; exact h (i + 1) (by omega))]

theorem mapped_of_load (m : Memory) (a : Word) (n v : Nat) (h : m.load a n = some v) (i : Nat)
    (hi : i < n) : m (a + BitVec.ofNat 64 i) ≠ none := by
  induction n generalizing a v i with
  | zero => exact absurd hi (Nat.not_lt_zero i)
  | succ n ih =>
      simp only [Memory.load] at h
      cases hma : m a with
      | none =>
          rw [hma] at h
          exact absurd h (by simp only [reduceCtorEq, not_false_eq_true])
      | some b =>
          cases hrest : m.load (a + 1) n with
          | none =>
              rw [hma, hrest] at h
              exact absurd h (by simp only [reduceCtorEq, not_false_eq_true])
          | some rest =>
              cases i with
              | zero =>
                  rw [BitVec.add_zero, hma]
                  exact Option.some_ne_none b
              | succ i =>
                  rw [← add_one_ofNat]
                  exact ih (a + 1) rest hrest i (by omega)

/-- Loading what is known byte by byte. -/
theorem load_of_bytes (m : Memory) (a : Word) (n v : Nat)
    (h : ∀ i < n, m (a + BitVec.ofNat 64 i) = some (byteOf v i)) :
    m.load a n = some (v % 256 ^ n) := by
  induction n generalizing a v with
  | zero => rw [Memory.load, pow_zero, Nat.mod_one]
  | succ n ih =>
      have hfirst := h 0 (by omega)
      rw [BitVec.add_zero] at hfirst
      have hrest : m.load (a + 1) n = some (v / 256 % 256 ^ n) := by
        refine ih (a + 1) (v / 256) (fun i hi => ?_)
        rw [add_one_ofNat, byteOf_div]
        exact h (i + 1) (by omega)
      have hbyte : (byteOf v 0).toNat = v % 256 := by
        rw [byteOf, pow_zero, Nat.div_one, UInt8.toNat_ofNat']
      simp only [Memory.load, hfirst, hrest, hbyte]
      rw [pow_succ', Nat.mod_mul]

/-- What a load that succeeds has found. -/
theorem bytes_of_load (m : Memory) (a : Word) (n v : Nat) (h : m.load a n = some v) :
    v < 256 ^ n ∧ ∀ i < n, m (a + BitVec.ofNat 64 i) = some (byteOf v i) := by
  induction n generalizing a v with
  | zero =>
      simp only [Memory.load, Option.some.injEq] at h
      rw [← h]
      exact ⟨Nat.one_pos, fun i hi => absurd hi (Nat.not_lt_zero i)⟩
  | succ n ih =>
      simp only [Memory.load] at h
      cases hma : m a with
      | none =>
          rw [hma] at h
          exact absurd h (by simp only [reduceCtorEq, not_false_eq_true])
      | some b =>
          cases hrest : m.load (a + 1) n with
          | none =>
              rw [hma, hrest] at h
              exact absurd h (by simp only [reduceCtorEq, not_false_eq_true])
          | some rest =>
              rw [hma, hrest] at h
              have hv : v = b.toNat + 256 * rest := (Option.some.inj h).symm
              have hb : b.toNat < 256 := b.toNat_lt
              rcases ih (a + 1) rest hrest with ⟨hlt, hbytes⟩
              refine ⟨by rw [pow_succ]; omega, fun i hi => ?_⟩
              cases i with
              | zero =>
                  have hbyte : byteOf v 0 = b := by
                    rw [byteOf, pow_zero, Nat.div_one]
                    apply UInt8.toNat_inj.mp
                    rw [UInt8.toNat_ofNat']
                    omega
                  rw [BitVec.add_zero, hma, hbyte]
              | succ i =>
                  rw [← add_one_ofNat, ← byteOf_div, show v / 256 = rest by omega]
                  exact hbytes i (by omega)

theorem load_of_mapped (m : Memory) (a : Word) (n : Nat)
    (h : ∀ i < n, m (a + BitVec.ofNat 64 i) ≠ none) : ∃ v, m.load a n = some v := by
  induction n generalizing a with
  | zero => exact ⟨0, rfl⟩
  | succ n ih =>
      have hfirst := h 0 (by omega)
      rw [BitVec.add_zero] at hfirst
      rcases ih (a + 1) (fun i hi => by rw [add_one_ofNat]; exact h (i + 1) (by omega)) with
        ⟨rest, hrest⟩
      rcases Option.ne_none_iff_exists'.mp hfirst with ⟨b, hb⟩
      exact ⟨b.toNat + 256 * rest, by simp only [Memory.load, hb, hrest]⟩

/-! ## The private part -/

/-- How far an address is below another. -/
def depth (top a : Word) : Nat := (top - a).toNat

/-- The private part of memory: what is fixed, and room for a number of words
    below the top of the stack. -/
structure Ground where
  fixed : Memory
  top : Word
  room : Nat
  small : 8 * room < 2 ^ 63
  apart : ∀ a b, fixed a = some b → ¬ (0 < depth top a ∧ depth top a ≤ 8 * room)

/-- The room for the stack. -/
def Ground.Below (g : Ground) (a : Word) : Prop := 0 < depth g.top a ∧ depth g.top a ≤ 8 * g.room

def Ground.Private (g : Ground) (a : Word) : Prop := g.fixed a ≠ none ∨ g.Below a

/-- The stack pointer over so many words. -/
def Ground.sp (g : Ground) (n : Nat) : Word := g.top - BitVec.ofNat 64 (8 * n)

/-- The words of the stack, the one on top first. -/
def StackAt (m : Memory) (top : Word) : List Word → Prop
  | [] => True
  | v :: vs => (∀ a, 8 * vs.length < depth top a → depth top a ≤ 8 * (vs.length + 1) →
      m a = some (byteOf v.toNat (8 * (vs.length + 1) - depth top a))) ∧ StackAt m top vs

theorem StackAt.congr {m m' : Memory} {top : Word} {stack : List Word} (h : StackAt m top stack)
    (hsame : ∀ a, 0 < depth top a → depth top a ≤ 8 * stack.length → m' a = m a) :
    StackAt m' top stack := by
  induction stack with
  | nil => trivial
  | cons v vs ih =>
      rw [List.length_cons] at hsame
      refine ⟨fun a hlow hhigh => ?_, ih h.2 (fun a hlow hhigh => hsame a hlow (by omega))⟩
      rw [hsame a (by omega) hhigh]
      exact h.1 a hlow hhigh

/-- Memory as the processor has it, against the program's memory and the words
    of the stack. -/
structure Holds (g : Ground) (mem : Memory) (stack : List Word) (m : Memory) : Prop where
  seen : ∀ a, ¬ g.Private a → m a = mem a
  hidden : ∀ a, g.Private a → mem a = none
  fixed : ∀ a b, g.fixed a = some b → m a = some b
  mapped : ∀ a, g.Below a → m a ≠ none
  words : StackAt m g.top stack
  fits : stack.length ≤ g.room

theorem Ground.sp_succ (g : Ground) (n : Nat) : g.sp n - 8 = g.sp (n + 1) := by
  rw [Ground.sp, Ground.sp, Nat.mul_add, BitVec.ofNat_add, BitVec.sub_sub]
  rfl

theorem Ground.sp_pred (g : Ground) (n : Nat) : g.sp (n + 1) + 8 = g.sp n := by
  rw [← Ground.sp_succ, BitVec.sub_add_cancel]

/-- The bytes of the word that is pushed next. -/
theorem Ground.depth_sp (g : Ground) (n i : Nat) (hn : n ≤ g.room) (hi : i < 8) (h : 0 < n) :
    depth g.top (g.sp n + BitVec.ofNat 64 i) = 8 * n - i := by
  have hsmall := g.small
  have hroom : 8 * n ≤ 8 * g.room := by omega
  rw [depth, Ground.sp]
  bv_omega

theorem Ground.depth_of_near (g : Ground) (n : Nat) (a : Word) (hn : n ≤ g.room) (h : 0 < n)
    (ha : (a - g.sp n).toNat < 8) : depth g.top a = 8 * n - (a - g.sp n).toNat := by
  have heq : a = g.sp n + BitVec.ofNat 64 (a - g.sp n).toNat := by
    rw [BitVec.ofNat_toNat, BitVec.setWidth_eq, BitVec.add_comm, BitVec.sub_add_cancel]
  conv_lhs => rw [heq]
  exact g.depth_sp n _ hn ha h

theorem Ground.near_of_depth (g : Ground) (n : Nat) (a : Word) (hn : n < g.room)
    (hlow : 8 * n < depth g.top a) (hhigh : depth g.top a ≤ 8 * (n + 1)) :
    (a - g.sp (n + 1)).toNat = 8 * (n + 1) - depth g.top a := by
  have hsmall := g.small
  have hroom : 8 * (n + 1) ≤ 8 * g.room := by omega
  rw [depth] at hlow hhigh ⊢
  rw [Ground.sp]
  bv_omega

/-- Pushing a word. -/
theorem Holds.push {g : Ground} {mem m : Memory} {stack : List Word} (h : Holds g mem stack m)
    (v : Word) (hroom : stack.length < g.room) :
    ∃ m', m.store (g.sp (stack.length + 1)) 8 v.toNat = some m' ∧ Holds g mem (v :: stack) m' := by
  have hsmall := g.small
  refine ⟨m.write (g.sp (stack.length + 1)) 8 v.toNat,
    store_of_mapped m _ 8 _ (by omega) (fun i hi => ?_), ?_⟩
  · have hdepth := g.depth_sp (stack.length + 1) i hroom hi (Nat.succ_pos _)
    exact h.mapped _ ⟨by omega, by omega⟩
  · have hother : ∀ a, ¬ (8 * stack.length < depth g.top a ∧
        depth g.top a ≤ 8 * (stack.length + 1)) →
        m.write (g.sp (stack.length + 1)) 8 v.toNat a = m a := by
      intro a ha
      refine if_neg (fun hnear => ha ?_)
      have hdepth := g.depth_of_near (stack.length + 1) a hroom (Nat.succ_pos _) hnear
      omega
    exact
      { seen := fun a ha => by
          rw [hother a (fun hin => ha (Or.inr ⟨by omega, by omega⟩))]
          exact h.seen a ha
        hidden := h.hidden
        fixed := fun a b hb => by
          rw [hother a (fun hin => g.apart a b hb ⟨by omega, by omega⟩)]
          exact h.fixed a b hb
        mapped := fun a ha => by
          rw [Memory.write]
          split
          · exact Option.some_ne_none _
          · exact h.mapped a ha
        words := by
          refine ⟨fun a hlow hhigh => ?_, h.words.congr (fun a _ hhigh => hother a (by omega))⟩
          have hnear := g.near_of_depth stack.length a hroom hlow hhigh
          rw [Memory.write, if_pos (by omega), hnear]
        fits := hroom }

/-- What is below the stack becomes a word of it. -/
theorem Holds.grow {g : Ground} {mem m : Memory} {stack : List Word} (h : Holds g mem stack m)
    (hroom : stack.length < g.room) : ∃ w, Holds g mem (w :: stack) m := by
  have hmapped : ∀ i < 8, m (g.sp (stack.length + 1) + BitVec.ofNat 64 i) ≠ none := by
    intro i hi
    have hdepth := g.depth_sp (stack.length + 1) i hroom hi (Nat.succ_pos _)
    exact h.mapped _ ⟨by omega, by omega⟩
  rcases load_of_mapped m _ 8 hmapped with ⟨v, hv⟩
  rcases bytes_of_load m _ 8 v hv with ⟨hlt, hbytes⟩
  refine ⟨BitVec.ofNat 64 v, { h with words := ⟨fun a hlow hhigh => ?_, h.words⟩, fits := hroom }⟩
  have hnear := g.near_of_depth stack.length a hroom hlow hhigh
  have hbyte := hbytes (a - g.sp (stack.length + 1)).toNat (by omega)
  rw [BitVec.ofNat_toNat, BitVec.setWidth_eq, BitVec.add_comm, BitVec.sub_add_cancel,
    hnear] at hbyte
  rw [hbyte, BitVec.toNat_ofNat, Nat.mod_eq_of_lt (by norm_num at hlt ⊢; exact hlt)]

theorem Holds.tail {g : Ground} {mem m : Memory} {v : Word} {stack : List Word}
    (h : Holds g mem (v :: stack) m) : Holds g mem stack m where
  seen := h.seen
  hidden := h.hidden
  fixed := h.fixed
  mapped := h.mapped
  words := h.words.2
  fits := Nat.le_of_succ_le h.fits

/-- The word on top. -/
theorem Holds.top {g : Ground} {mem m : Memory} {v : Word} {stack : List Word}
    (h : Holds g mem (v :: stack) m) : m.load (g.sp (stack.length + 1)) 8 = some v.toNat := by
  have hfits : stack.length + 1 ≤ g.room := h.fits
  have hload := load_of_bytes m (g.sp (stack.length + 1)) 8 v.toNat (fun i hi => by
    have hdepth := g.depth_sp (stack.length + 1) i hfits hi (Nat.succ_pos _)
    rw [h.words.1 _ (by omega) (by omega), hdepth]
    congr 2
    omega)
  have hword : v.toNat < 256 ^ 8 := v.isLt
  rw [hload, Nat.mod_eq_of_lt hword]

/-- A load the program may make. -/
theorem Holds.load {g : Ground} {mem m : Memory} {stack : List Word} (h : Holds g mem stack m)
    (a : Word) (n v : Nat) (hload : mem.load a n = some v) : m.load a n = some v := by
  rw [← hload]
  refine load_congr m mem a n (fun i hi => h.seen _ (fun hprivate => ?_))
  exact mapped_of_load mem a n v hload i hi (h.hidden _ hprivate)

/-- A store the program may make. -/
theorem Holds.store {g : Ground} {mem m mem' : Memory} {stack : List Word}
    (h : Holds g mem stack m) (a : Word) (n v : Nat) (hn : n < 2 ^ 64)
    (hstore : mem.store a n v = some mem') :
    ∃ m', m.store a n v = some m' ∧ Holds g mem' stack m' := by
  have hmapped := mapped_of_store mem a n v mem' hn hstore
  have hopen : ∀ b, (b - a).toNat < n → ¬ g.Private b := by
    intro b hb hprivate
    have heq : a + BitVec.ofNat 64 (b - a).toNat = b := by
      rw [BitVec.ofNat_toNat, BitVec.setWidth_eq, BitVec.add_comm, BitVec.sub_add_cancel]
    have hb' := hmapped _ hb
    rw [heq] at hb'
    exact hb' (h.hidden b hprivate)
  have hother : ∀ b, g.Private b → m.write a n v b = m b :=
    fun b hb => if_neg (fun hnear => hopen b hnear hb)
  have hmem' := store_eq_write mem a n v mem' hn hstore
  refine ⟨m.write a n v, store_of_mapped m a n v hn (fun i hi => ?_), ?_⟩
  · have hne := hmapped i hi
    rw [h.seen _ (fun hprivate => hne (h.hidden _ hprivate))]
    exact hne
  · rw [hmem']
    exact
      { seen := fun b hb => by rw [Memory.write, Memory.write, h.seen b hb]
        hidden := fun b hb => by
          rw [Memory.write, if_neg (fun hnear => hopen b hnear hb)]
          exact h.hidden b hb
        fixed := fun b c hc => by
          rw [hother b (Or.inl (by rw [hc]; exact Option.some_ne_none c))]
          exact h.fixed b c hc
        mapped := fun b hb => by
          rw [hother b (Or.inr hb)]
          exact h.mapped b hb
        words := h.words.congr (fun b hlow hhigh =>
          hother b (Or.inr ⟨hlow, le_trans hhigh (Nat.mul_le_mul_left 8 h.fits)⟩))
        fits := h.fits }

end UniBPF
