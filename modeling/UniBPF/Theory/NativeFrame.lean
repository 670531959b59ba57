import UniBPF.Theory.NativeMemory

/-!
# The Frame of Compiled Code

Compiled code saves the registers of its caller on the stack and then runs
the program below. While it runs nothing writes to these words, so they can
be counted among what is fixed. In basic mode the program's own stack comes
next, and only then the words the code pushes.

`Ground.inner` is the private part of memory as it is inside the frame. The
words of the caller become fixed, and a gap below them belongs to the
program. `Ground.trim` is what the entry and the epilogue make use of: room
for the saved words, and nothing below.

## Main definitions

* `Ground.inner`, `exposed`: The ground inside a frame, and the program's
  memory with the gap.
* `Ground.trim`, `Ground.hide`: The ground of the entry and the epilogue, and
  the memory outside it.

## Theorems

* `Holds.enter`, `Holds.leave`: Into the frame and out of it.
* `Holds.narrow`, `Holds.widen`: To the trimmed ground and back.
-/

namespace UniBPF

theorem depth_sp_iff (g : Ground) (k : Nat) (hk : k ≤ g.room) (a : Word) :
    (0 < depth (g.sp k) a ∧ depth (g.sp k) a ≤ 8 * (g.room - k)) ↔
      (8 * k < depth g.top a ∧ depth g.top a ≤ 8 * g.room) := by
  have hsmall := g.small
  have hroom : 8 * k ≤ 8 * g.room := by omega
  rw [depth, depth, Ground.sp, Nat.mul_sub]
  constructor
  · rintro ⟨hlow, hhigh⟩
    bv_omega
  · rintro ⟨hlow, hhigh⟩
    bv_omega

/-- Inside a frame of `n` words the words are fixed, and a gap below them is
    the program's. -/
def Ground.inner (g : Ground) (m : Memory) (n gap : Nat) (h : n + gap ≤ g.room) : Ground where
  fixed := fun a => if 0 < depth g.top a ∧ depth g.top a ≤ 8 * n then m a else g.fixed a
  top := g.sp (n + gap)
  room := g.room - (n + gap)
  small := by
    have hsmall := g.small
    omega
  apart := by
    intro a b hfixed hbelow
    rw [depth_sp_iff g (n + gap) h a] at hbelow
    rw [if_neg (by omega)] at hfixed
    exact g.apart a b hfixed ⟨by omega, hbelow.2⟩

/-- The program's memory with the gap in it. -/
def exposed (g : Ground) (m : Memory) (n gap : Nat) (mem : Memory) : Memory := fun a =>
  if 8 * n < depth g.top a ∧ depth g.top a ≤ 8 * (n + gap) then m a else mem a

theorem Ground.inner_below (g : Ground) (m : Memory) (n gap : Nat) (h : n + gap ≤ g.room)
    (a : Word) : (g.inner m n gap h).Below a ↔
      (8 * (n + gap) < depth g.top a ∧ depth g.top a ≤ 8 * g.room) :=
  depth_sp_iff g (n + gap) h a

section Frame

variable {g : Ground} {mem m : Memory} {saved : List Word}

theorem Holds.mapped_saved (h : Holds g mem saved m) (a : Word) (hlow : 0 < depth g.top a)
    (hhigh : depth g.top a ≤ 8 * saved.length) : m a ≠ none := by
  have hfits := h.fits
  exact h.mapped a ⟨hlow, by omega⟩

/-- Entering a frame. -/
theorem Holds.enter (h : Holds g mem saved m) (gap : Nat)
    (hroom : saved.length + gap ≤ g.room) :
    Holds (g.inner m saved.length gap hroom) (exposed g m saved.length gap mem) [] m where
  seen := by
    intro a ha
    by_cases hgap : 8 * saved.length < depth g.top a ∧ depth g.top a ≤ 8 * (saved.length + gap)
    · rw [exposed, if_pos hgap]
    · rw [exposed, if_neg hgap]
      -- What was private is private still: it is fixed now or below the gap.
      refine h.seen a (fun hprivate => ha ?_)
      rcases hprivate with hfixed | hbelow
      · left
        by_cases hsaved : 0 < depth g.top a ∧ depth g.top a ≤ 8 * saved.length
        · simp only [Ground.inner, hsaved, and_self, if_true]
          exact h.mapped_saved a hsaved.1 hsaved.2
        · simp only [Ground.inner, hsaved, if_false]
          exact hfixed
      · by_cases hsaved : depth g.top a ≤ 8 * saved.length
        · left
          simp only [Ground.inner, hbelow.1, hsaved, and_self, if_true]
          exact h.mapped_saved a hbelow.1 hsaved
        · right
          rw [Ground.inner_below]
          exact ⟨by omega, hbelow.2⟩
  hidden := by
    intro a ha
    have hbelow : g.Below a → ¬ (8 * saved.length < depth g.top a ∧
        depth g.top a ≤ 8 * (saved.length + gap)) →
        exposed g m saved.length gap mem a = none := by
      intro hbelow hgap
      rw [exposed, if_neg hgap]
      exact h.hidden a (Or.inr hbelow)
    -- Saved words and what is below the gap were below the top before.
    rcases ha with hfixed | hinner
    · by_cases hsaved : 0 < depth g.top a ∧ depth g.top a ≤ 8 * saved.length
      · exact hbelow ⟨hsaved.1, by omega⟩ (by omega)
      · simp only [Ground.inner, hsaved, if_false] at hfixed
        rcases Option.ne_none_iff_exists'.mp hfixed with ⟨b, hb⟩
        have hapart := g.apart a b hb
        rw [exposed, if_neg (by omega)]
        exact h.hidden a (Or.inl hfixed)
    · rw [Ground.inner_below] at hinner
      exact hbelow ⟨by omega, hinner.2⟩ (by omega)
  fixed := by
    intro a b hb
    by_cases hsaved : 0 < depth g.top a ∧ depth g.top a ≤ 8 * saved.length
    · simp only [Ground.inner, hsaved, and_self, if_true] at hb
      exact hb
    · simp only [Ground.inner, hsaved, if_false] at hb
      exact h.fixed a b hb
  mapped := by
    intro a ha
    rw [Ground.inner_below] at ha
    exact h.mapped a ⟨by omega, ha.2⟩
  words := trivial
  fits := Nat.zero_le _

/-! ## The two ends of the frame -/

/-- The private part with no more room than a frame of `n` words. -/
def Ground.trim (g : Ground) (n : Nat) (h : n ≤ g.room) : Ground where
  fixed := g.fixed
  top := g.top
  room := n
  small := by
    have hsmall := g.small
    omega
  apart := fun a b hb hbelow => g.apart a b hb ⟨hbelow.1, by omega⟩

instance (g : Ground) (a : Word) : Decidable (g.Private a) :=
  inferInstanceAs (Decidable (g.fixed a ≠ none ∨ (0 < depth g.top a ∧ depth g.top a ≤ 8 * g.room)))

/-- What a memory holds outside the private part. -/
def Ground.hide (g : Ground) (m : Memory) : Memory := fun a => if g.Private a then none else m a

/-- Seen from the trimmed ground, everything below is the program's. -/
theorem Holds.narrow (h : Holds g mem saved m) (n : Nat) (hn : n ≤ g.room)
    (hlen : saved.length ≤ n) : Holds (g.trim n hn) ((g.trim n hn).hide m) saved m where
  seen := fun _ ha => (if_neg ha).symm
  hidden := fun _ ha => if_pos ha
  fixed := h.fixed
  mapped := fun a ha => h.mapped a ⟨ha.1, le_trans ha.2 (Nat.mul_le_mul_left 8 hn)⟩
  words := h.words
  fits := hlen

/-- Back from the trimmed ground. Nothing has changed below it. -/
theorem Holds.widen {stack : List Word} {m' : Memory} {n : Nat} (hn : n ≤ g.room)
    (h : Holds g mem stack m) (h' : Holds (g.trim n hn) ((g.trim n hn).hide m) saved m') :
    Holds g mem saved m' ∧ ∀ a, 8 * n < depth g.top a → depth g.top a ≤ 8 * g.room →
      m' a = m a := by
  have hsame : ∀ a, ¬ (g.trim n hn).Private a → m' a = m a := by
    intro a ha
    rw [h'.seen a ha]
    exact if_neg ha
  have hsub : ∀ a, (g.trim n hn).Private a → g.Private a := by
    intro a ha
    rcases ha with hfixed | hbelow
    · exact Or.inl hfixed
    · exact Or.inr ⟨hbelow.1, le_trans hbelow.2 (Nat.mul_le_mul_left 8 hn)⟩
  have hopen : ∀ a, 8 * n < depth g.top a → depth g.top a ≤ 8 * g.room →
      ¬ (g.trim n hn).Private a := by
    intro a hlow hhigh hprivate
    rcases hprivate with hfixed | hbelow
    · rcases Option.ne_none_iff_exists'.mp hfixed with ⟨b, hb⟩
      exact g.apart a b hb ⟨by omega, hhigh⟩
    · have htop : depth g.top a ≤ 8 * n := hbelow.2
      omega
  refine ⟨⟨fun a ha => ?_, h.hidden, h'.fixed, fun a ha => ?_, h'.words, le_trans h'.fits hn⟩,
    fun a hlow hhigh => hsame a (hopen a hlow hhigh)⟩
  · rw [hsame a (fun hprivate => ha (hsub a hprivate))]
    exact h.seen a ha
  · by_cases hdeep : 8 * n < depth g.top a
    · rw [hsame a (hopen a hdeep ha.2)]
      exact h.mapped a ha
    · exact h'.mapped a ⟨ha.1, by simp only [Ground.trim]; omega⟩

/-- Coming back to the words of the caller. -/
theorem Holds.leave (h : Holds g mem saved m) {gap : Nat} (hroom : saved.length + gap ≤ g.room)
    {mem' m' : Memory} {stack : List Word}
    (h' : Holds (g.inner m saved.length gap hroom) mem' stack m') :
    Holds (g.trim saved.length h.fits) ((g.trim saved.length h.fits).hide m') saved m' ∧
      ∀ a, ¬ g.Private a → m' a = mem' a := by
  have hfits := h.fits
  have hkept : ∀ a, 0 < depth g.top a → depth g.top a ≤ 8 * saved.length → m' a = m a := by
    intro a hlow hhigh
    rcases Option.ne_none_iff_exists'.mp (h.mapped_saved a hlow hhigh) with ⟨b, hb⟩
    rw [hb]
    refine h'.fixed a b ?_
    simp only [Ground.inner, hlow, hhigh, and_self, if_true]
    exact hb
  refine ⟨⟨fun a ha => (if_neg ha).symm, fun a ha => if_pos ha, fun a b hb => ?_, fun a ha => ?_,
    h.words.congr hkept, le_refl _⟩, fun a ha => h'.seen a (fun hprivate => ha ?_)⟩
  · refine h'.fixed a b ?_
    have hapart := g.apart a b hb
    simp only [Ground.inner]
    rw [if_neg (by omega)]
    exact hb
  · rw [hkept a ha.1 ha.2]
    exact h.mapped_saved a ha.1 ha.2
  · rcases hprivate with hfixed | hbelow
    · by_cases hsaved : 0 < depth g.top a ∧ depth g.top a ≤ 8 * saved.length
      · exact Or.inr ⟨hsaved.1, by omega⟩
      · simp only [Ground.inner, hsaved, if_false] at hfixed
        exact Or.inl hfixed
    · rw [Ground.inner_below] at hbelow
      exact Or.inr ⟨by omega, hbelow.2⟩

end Frame

end UniBPF
