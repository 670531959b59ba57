import UniBPF.Core.TracePrintk
import UniBPF.Lib.PrintfFormat

/-!
# The Arguments of a Trace

`bpf_trace_printk` takes as many values from its caller as it counts percent
signs, and `printf` takes as many as the format has conversions and asterisks.
The two are not the same. An escape is two percent signs and no value, so the
helper dereferences two pointers that nobody passed. An asterisk is a value
without a percent sign. From five percent signs on no pointer is dereferenced at
all. They agree, with up to four percent signs, exactly if there are two
asterisks for each escape.

The loop also looks at the byte behind the format, unless it finds a zero byte
before, which the strings this helper was written for do not have.

## Main definitions

* `ConsumesWhatItCounts`: What a call of the helper ought to do.
* `Matched`: The formats for which it holds.

## Theorems

* `countPercents_count`, `countPercents_looked`: The loop.
* `trace_printk_iff`: When the values are those the format takes.
-/

namespace UniBPF

/-- Only bytes of the format are looked at, and `printf` gets the arguments it
    takes. -/
def ConsumesWhatItCounts (f : TraceFormat) : Prop :=
  ∃ call, bpfTracePrintk f = some call ∧ (∀ i ∈ call.inspected, i < f.fmtSize) ∧
    PrintfFormat.args call.format = some call.dereferenced

/-- The text of the format, up to a zero byte. -/
def TraceFormat.text (f : TraceFormat) : Bytes :=
  untilZero f.bytes

/-- There is room for a copy and a zero byte among the bytes, and the format can
    be read. Up to four percent signs, it has two asterisks for each escape; with
    more, it has nothing but escapes. -/
def Matched (f : TraceFormat) : Prop :=
  f.fmtSize + 1 < 2 ^ 31 ∧ (∃ i, i < f.fmtSize ∧ f.fmt i = 0) ∧
    ∃ r, PrintfFormat.Reads f.text r ∧
      ((r.conversions + 2 * r.escapes ≤ 4 ∧ r.stars = 2 * r.escapes) ∨
        (4 < r.conversions + 2 * r.escapes ∧ r.conversions = 0))

theorem dereferenced_eq (n : Nat) : dereferenced n = if n ≤ 4 then n else 0 := by
  match n with
  | 0 | 1 | 2 | 3 | 4 => rfl
  | n + 5 => exact (if_neg (by omega)).symm

/-- What the loop counts are the percent signs up to the first zero byte. -/
theorem countPercents_count (fmt : Nat → UInt8) (n : Nat) : ∀ (i varArgs : Nat),
    (countPercents fmt n i varArgs).1 =
      varArgs + (untilZero ((List.range' i n).map fmt)).count 37 := by
  induction n with
  | zero =>
      intro i varArgs
      rfl
  | succ n ih =>
      intro i varArgs
      rw [countPercents, List.range'_succ, List.map_cons, untilZero]
      by_cases hzero : fmt i = 0
      · rw [if_pos hzero, List.takeWhile_cons_of_neg (by simp only [hzero, ne_eq, not_true_eq_false,
          decide_false, Bool.false_eq_true, not_false_eq_true]), List.count_nil, Nat.add_zero]
      · rw [if_neg hzero, List.takeWhile_cons_of_pos (by simp only [ne_eq, hzero, not_false_eq_true,
          decide_true])]
        rw [List.count_cons]
        simp only [beq_iff_eq]
        rw [ih, untilZero]
        omega

/-- The loop stays among the bytes exactly if it meets a zero there. -/
theorem countPercents_looked (fmt : Nat → UInt8) (n : Nat) : ∀ (i varArgs : Nat),
    (∀ k ∈ (countPercents fmt n i varArgs).2, k < i + n) ↔
      ∃ k, i ≤ k ∧ k < i + n ∧ fmt k = 0 := by
  induction n with
  | zero =>
      intro i varArgs
      constructor
      · intro h
        -- The byte at the end is looked at before the index is.
        exact absurd (h i (List.mem_singleton.mpr rfl)) (Nat.lt_irrefl _)
      · rintro ⟨k, hle, hlt, -⟩
        omega
  | succ n ih =>
      intro i varArgs
      rw [countPercents]
      by_cases hzero : fmt i = 0
      · rw [if_pos hzero]
        refine ⟨fun _ => ⟨i, Nat.le_refl i, by omega, hzero⟩, fun _ k hk => ?_⟩
        rw [List.mem_singleton.mp hk]
        omega
      · rw [if_neg hzero]
        have hrest := ih (i + 1) (varArgs + if fmt i = 37 then 1 else 0)
        constructor
        · intro h
          rcases hrest.mp (fun k hk => by
            have := h k (List.mem_cons_of_mem i hk)
            omega) with ⟨k, hle, hlt, hk⟩
          exact ⟨k, by omega, by omega, hk⟩
        · rintro ⟨k, hle, hlt, hk⟩ j hj
          rcases List.mem_cons.mp hj with hj | hj
          · omega
          · have hne : k ≠ i := by
              intro hki
              exact hzero (by rw [← hki]; exact hk)
            have := hrest.mpr ⟨k, by omega, by omega, hk⟩ j hj
            omega

/-- The zero byte behind the copy changes nothing of its text. -/
theorem untilZero_append_zero (bytes : Bytes) : untilZero (bytes ++ [0]) = untilZero bytes := by
  unfold untilZero
  rw [List.takeWhile_append]
  by_cases hall : (bytes.takeWhile (· ≠ 0)).length = bytes.length
  · have hwhole : bytes.takeWhile (· ≠ 0) = bytes :=
      (List.takeWhile_prefix _).eq_of_length hall
    rw [if_pos hall, hwhole]
    exact List.append_nil bytes
  · rw [if_neg hall]

/-- The call of `printf`, in terms of the format. -/
theorem bpfTracePrintk_eq (f : TraceFormat) :
    bpfTracePrintk f = if f.fmtSize + 1 < 2 ^ 31 then
      some ⟨(countPercents f.fmt f.fmtSize 0 0).2 ++ List.range f.fmtSize, f.text,
        dereferenced (f.text.count 37)⟩
    else none := by
  have hcount : (countPercents f.fmt f.fmtSize 0 0).1 = f.text.count 37 := by
    rw [countPercents_count, Nat.zero_add, ← List.range_eq_range']
    rfl
  have htext : untilZero (f.bytes ++ [0]) = f.text := untilZero_append_zero f.bytes
  rw [← hcount, ← htext]
  rfl

/-- The count is right exactly if the escapes make up for the asterisks, or there
    is nothing to count. -/
theorem dereferenced_eq_args_iff (format : Bytes) (r : PrintfFormat.Reading)
    (h : PrintfFormat.Reads format r) :
    r.conversions + r.stars = dereferenced (format.count 37) ↔
      (r.conversions + 2 * r.escapes ≤ 4 ∧ r.stars = 2 * r.escapes) ∨
        (4 < r.conversions + 2 * r.escapes ∧ r.conversions = 0) := by
  have hstars := PrintfFormat.stars_of_reads format r h
  rw [PrintfFormat.percents_of_reads format r h, dereferenced_eq]
  by_cases hfew : r.conversions + 2 * r.escapes ≤ 4
  · rw [if_pos hfew]
    omega
  · rw [if_neg hfew]
    omega

/-- The helper looks only at the format, and dereferences as many pointers as
    `printf` takes arguments, exactly for these formats. -/
theorem trace_printk_iff (f : TraceFormat) : ConsumesWhatItCounts f ↔ Matched f := by
  have hlooked := countPercents_looked f.fmt f.fmtSize 0 0
  rw [Nat.zero_add] at hlooked
  constructor
  · rintro ⟨call, hcall, hinside, hargs⟩
    rw [bpfTracePrintk_eq] at hcall
    have hsize : f.fmtSize + 1 < 2 ^ 31 := by
      by_contra hbig
      rw [if_neg hbig] at hcall
      exact absurd hcall (by simp only [reduceCtorEq, not_false_eq_true])
    rw [if_pos hsize, Option.some.injEq] at hcall
    rw [← hcall] at hinside hargs
    -- The copy looks at no other bytes, so it is the loop that needs a zero byte.
    rcases hlooked.mp fun i hi => hinside i (List.mem_append_left _ hi) with ⟨i, -, hi, hzero⟩
    rcases (PrintfFormat.args_eq_some_iff _ _).mp hargs with ⟨r, hr, heq⟩
    exact ⟨hsize, ⟨i, hi, hzero⟩, r, hr, (dereferenced_eq_args_iff f.text r hr).mp heq⟩
  · rintro ⟨hsize, ⟨i, hi, hzero⟩, r, hr, hmatched⟩
    refine ⟨_, (bpfTracePrintk_eq f).trans (if_pos hsize), ?_, ?_⟩
    · intro k hk
      rcases List.mem_append.mp hk with hk | hk
      · exact hlooked.mpr ⟨i, Nat.zero_le i, hi, hzero⟩ k hk
      · exact List.mem_range.mp hk
    · exact (PrintfFormat.args_eq_some_iff _ _).mpr
        ⟨r, hr, (dereferenced_eq_args_iff f.text r hr).mpr hmatched⟩

/-- A format of one escape, and a byte behind it. -/
def escapeFormat : TraceFormat where
  fmt i := if i < 2 then 37 else 120
  fmtSize := 2
  isInt := by decide

/-- The byte behind the format is looked at, and two pointers are dereferenced for
    a format that takes no argument. -/
theorem escape_counted_twice :
    bpfTracePrintk escapeFormat = some ⟨[0, 1, 2, 0, 1], [37, 37], 2⟩ ∧
      PrintfFormat.args [37, 37] = some 0 ∧ ¬ ConsumesWhatItCounts escapeFormat := by
  have hcall : bpfTracePrintk escapeFormat = some ⟨[0, 1, 2, 0, 1], [37, 37], 2⟩ := by
    decide +kernel
  refine ⟨hcall, by decide +kernel, ?_⟩
  rintro ⟨call, hcall', hinside, -⟩
  rw [hcall, Option.some.injEq] at hcall'
  rw [← hcall'] at hinside
  exact absurd (hinside 2 (by decide)) (by decide)

end UniBPF
