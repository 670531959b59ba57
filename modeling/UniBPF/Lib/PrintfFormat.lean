import UniBPF.Lib.Steps

/-!
# The Format of `printf`

What the C standard has `printf` do with its format, as far as the arguments go.
The bytes of the format are text up to a percent sign. Behind it stand flags, a
width, a precision and a length modifier, each of which may be missing, and then
the byte that names the conversion. A conversion takes one argument, and one
more for each asterisk that stands for its width or its precision. A percent
sign right behind a percent sign is an escape, and takes none.

`printf` reads this from left to right, so the format is modelled by a reader
that takes one byte at a time. Where a byte cannot stand where it does, or where
the format ends inside a conversion, the standard leaves the behaviour undefined
and the reader has no result. A flag or a precision that a conversion has no use
for takes no argument, and is passed over.

A percent sign either begins a conversion or is half of an escape. That is the
relation between the bytes and what was read (`percents_of_reads`), and a program
that counts percent signs to know how many arguments there are is to be held
against it.

## Main definitions

* `Length`, `Place`, `Reading`: Where the reader is, and what it has found.
* `Reading.step`: One byte.
* `Reads`: The format is read to its end.
* `args`: The arguments a format takes.

## Theorems

* `step_cases`: What a byte can do.
* `percents_of_reads`: Where the percent signs are.
* `stars_of_reads`: An asterisk is part of a conversion.
-/

namespace PrintfFormat

/-- The length modifiers. -/
inductive Length where
  | hh
  | h
  | l
  | ll
  | j
  | z
  | t
  | L
deriving DecidableEq, Repr

/-- What the last byte was. -/
inductive Place where
  | text
  | percent
  | flag
  | width
  | widthStar
  | point
  | precision
  | precisionStar
  | length (m : Length)
deriving DecidableEq, Repr

/-- Where the reader is, and how many escapes, asterisks and conversions it has
    read. -/
structure Reading where
  place : Place
  escapes : Nat
  stars : Nat
  conversions : Nat
deriving DecidableEq, Repr

/-- At the first byte. -/
def Reading.start : Reading := ⟨.text, 0, 0, 0⟩

/-- One of `-+ #0`. -/
def isFlag (b : UInt8) : Bool :=
  b = 45 || b = 43 || b = 32 || b = 35 || b = 48

def isDigit (b : UInt8) : Bool :=
  48 ≤ b && b ≤ 57

/-- One of `diouxX`. -/
def isInteger (b : UInt8) : Bool :=
  b = 100 || b = 105 || b = 111 || b = 117 || b = 120 || b = 88

/-- One of `fFeEgGaA`. -/
def isFloat (b : UInt8) : Bool :=
  b = 102 || b = 70 || b = 101 || b = 69 || b = 103 || b = 71 || b = 97 || b = 65

/-- The conversions, and the length modifiers they take. The last ones are `n`,
    `c`, `s` and `p`. -/
def isConversion (m : Option Length) (b : UInt8) : Bool :=
  match m with
  | none => isInteger b || isFloat b || b = 110 || b = 99 || b = 115 || b = 112
  | some .l => isInteger b || isFloat b || b = 110 || b = 99 || b = 115
  | some .L => isFloat b
  | some _ => isInteger b || b = 110

/-- The length modifier that begins with this byte. -/
def lengthOf (b : UInt8) : Option Length :=
  if b = 104 then some .h
  else if b = 108 then some .l
  else if b = 106 then some .j
  else if b = 122 then some .z
  else if b = 116 then some .t
  else if b = 76 then some .L
  else none

namespace Reading

/-- The end of a conversion. -/
def atConversion (r : Reading) (m : Option Length) (b : UInt8) : Option Reading :=
  if isConversion m b then some { r with place := .text, conversions := r.conversions + 1 }
  else none

/-- Behind a length modifier. Two of them may stand twice. -/
def behindLength (r : Reading) (m : Length) (b : UInt8) : Option Reading :=
  if m = .h ∧ b = 104 then some { r with place := .length .hh }
  else if m = .l ∧ b = 108 then some { r with place := .length .ll }
  else r.atConversion (some m) b

/-- Where a length modifier may stand. -/
def atLength (r : Reading) (b : UInt8) : Option Reading :=
  match lengthOf b with
  | some m => some { r with place := .length m }
  | none => r.atConversion none b

/-- Where a precision may stand. -/
def atPrecision (r : Reading) (b : UInt8) : Option Reading :=
  if b = 46 then some { r with place := .point }
  else r.atLength b

/-- Where a flag or a width may stand. -/
def atFlags (r : Reading) (b : UInt8) : Option Reading :=
  if isFlag b then some { r with place := .flag }
  else if b = 42 then some { r with place := .widthStar, stars := r.stars + 1 }
  else if isDigit b then some { r with place := .width }
  else r.atPrecision b

/-- The reader takes a byte. -/
def step (r : Reading) (b : UInt8) : Option Reading :=
  match r.place with
  | .text => if b = 37 then some { r with place := .percent } else some r
  | .percent =>
    if b = 37 then some { r with place := .text, escapes := r.escapes + 1 }
    else r.atFlags b
  | .flag => r.atFlags b
  | .width => if isDigit b then some r else r.atPrecision b
  | .widthStar => r.atPrecision b
  | .point =>
    if b = 42 then some { r with place := .precisionStar, stars := r.stars + 1 }
    else if isDigit b then some { r with place := .precision }
    else r.atLength b
  | .precision => if isDigit b then some r else r.atLength b
  | .precisionStar => r.atLength b
  | .length m => r.behindLength m b

/-- The percent signs that what was read accounts for. -/
def percents (r : Reading) : Nat :=
  r.conversions + 2 * r.escapes + if r.place = .text then 0 else 1

end Reading

/-- The format is read to its end, and no conversion is left open. -/
def Reads (format : List UInt8) (r : Reading) : Prop :=
  Steps.run Reading.step .start format = some r ∧ r.place = .text

/-- The arguments that `printf` takes for a format. -/
def args (format : List UInt8) : Option Nat :=
  match Steps.run Reading.step .start format with
  | none => none
  | some r => if r.place = .text then some (r.conversions + r.stars) else none

section Steps

variable {r r' : Reading} {b : UInt8}

/-- What a byte inside a conversion does. It is no percent sign, and it ends the
    conversion or the conversion goes on. -/
def Inside (r : Reading) (b : UInt8) (r' : Reading) : Prop :=
  b ≠ 37 ∧ r'.escapes = r.escapes ∧
    ((r'.place = .text ∧ r'.conversions = r.conversions + 1) ∨
      (r'.place ≠ .text ∧ r'.place ≠ .percent ∧ r'.conversions = r.conversions))

theorem not_percent (P : UInt8 → Bool) (hP : P 37 = false) (h : P b = true) : b ≠ 37 := by
  intro hb
  rw [hb, hP] at h
  exact Bool.false_ne_true h

theorem isConversion_percent (m : Option Length) : isConversion m 37 = false := by
  cases m with
  | none => rfl
  | some m => cases m <;> rfl

theorem atConversion_inside (m : Option Length) (h : r.atConversion m b = some r') :
    Inside r b r' := by
  unfold Reading.atConversion at h
  by_cases hb : isConversion m b = true
  · rw [if_pos hb, Option.some.injEq] at h
    rw [← h]
    exact ⟨not_percent _ (isConversion_percent m) hb, rfl, .inl ⟨rfl, rfl⟩⟩
  · rw [if_neg hb] at h
    exact absurd h (by simp only [reduceCtorEq, not_false_eq_true])

theorem atLength_inside (h : r.atLength b = some r') : Inside r b r' := by
  unfold Reading.atLength at h
  cases hm : lengthOf b with
  | none =>
      rw [hm] at h
      exact atConversion_inside none h
  | some m =>
      rw [hm] at h
      simp only [Option.some.injEq] at h
      rw [← h]
      refine ⟨not_percent (fun b => (lengthOf b).isSome) rfl (by rw [hm]; rfl), rfl, .inr ?_⟩
      exact ⟨by simp only [ne_eq, reduceCtorEq, not_false_eq_true],
        by simp only [ne_eq, reduceCtorEq, not_false_eq_true], rfl⟩

/-- A byte that takes the reader on to a place inside. -/
theorem inside_of_place (P : UInt8 → Bool) (hP : P 37 = false) (p : Place) (stars : Nat)
    (hp : p ≠ .text ∧ p ≠ .percent) (hb : P b = true)
    (h : some { r with place := p, stars := stars } = some r') : Inside r b r' := by
  rw [← Option.some.inj h]
  exact ⟨not_percent P hP hb, rfl, .inr ⟨hp.1, hp.2, rfl⟩⟩

theorem atPrecision_inside (h : r.atPrecision b = some r') : Inside r b r' := by
  unfold Reading.atPrecision at h
  by_cases hb : b = 46
  · rw [if_pos hb] at h
    exact inside_of_place (· = 46) rfl .point r.stars (by decide) (decide_eq_true hb) h
  · rw [if_neg hb] at h
    exact atLength_inside h

theorem atFlags_inside (h : r.atFlags b = some r') : Inside r b r' := by
  unfold Reading.atFlags at h
  by_cases hflag : isFlag b = true
  · rw [if_pos hflag] at h
    exact inside_of_place isFlag rfl .flag r.stars (by decide) hflag h
  · rw [if_neg hflag] at h
    by_cases hstar : b = 42
    · rw [if_pos hstar] at h
      exact inside_of_place (· = 42) rfl .widthStar _ (by decide) (decide_eq_true hstar) h
    · rw [if_neg hstar] at h
      by_cases hdigit : isDigit b = true
      · rw [if_pos hdigit] at h
        exact inside_of_place isDigit rfl .width r.stars (by decide) hdigit h
      · rw [if_neg hdigit] at h
        exact atPrecision_inside h

theorem behindLength_inside (m : Length) (h : r.behindLength m b = some r') : Inside r b r' := by
  unfold Reading.behindLength at h
  by_cases hh : m = .h ∧ b = 104
  · rw [if_pos hh] at h
    exact inside_of_place (· = 104) rfl (.length .hh) r.stars (by decide) (decide_eq_true hh.2) h
  · rw [if_neg hh] at h
    by_cases hl : m = .l ∧ b = 108
    · rw [if_pos hl] at h
      exact inside_of_place (· = 108) rfl (.length .ll) r.stars (by decide) (decide_eq_true hl.2) h
    · rw [if_neg hl] at h
      exact atConversion_inside (some m) h

/-- A byte is text, begins a conversion, ends an escape, or stands inside a
    conversion. -/
theorem step_cases (h : r.step b = some r') :
    (r.place = .text ∧ b ≠ 37 ∧ r' = r) ∨
    (r.place = .text ∧ b = 37 ∧ r' = { r with place := .percent }) ∨
    (r.place = .percent ∧ b = 37 ∧ r' = { r with place := .text, escapes := r.escapes + 1 }) ∨
    (r.place ≠ .text ∧ Inside r b r') := by
  unfold Reading.step at h
  -- The byte is text or part of an escape only in the first two places.
  cases hplace : r.place with
  | text =>
      simp only [hplace] at h
      by_cases hb : b = 37
      · simp only [if_pos hb, Option.some.injEq] at h
        exact .inr (.inl ⟨rfl, hb, h.symm⟩)
      · simp only [if_neg hb, Option.some.injEq] at h
        exact .inl ⟨rfl, hb, h.symm⟩
  | percent =>
      simp only [hplace] at h
      by_cases hb : b = 37
      · simp only [if_pos hb, Option.some.injEq] at h
        exact .inr (.inr (.inl ⟨rfl, hb, h.symm⟩))
      · simp only [if_neg hb] at h
        exact .inr (.inr (.inr ⟨by decide, atFlags_inside h⟩))
  | flag =>
      simp only [hplace] at h
      exact .inr (.inr (.inr ⟨by decide, atFlags_inside h⟩))
  | width =>
      simp only [hplace] at h
      refine .inr (.inr (.inr ⟨by decide, ?_⟩))
      by_cases hb : isDigit b = true
      · rw [if_pos hb] at h
        exact inside_of_place isDigit rfl .width r.stars (by decide) hb (by rw [← hplace]; exact h)
      · simp only [if_neg hb] at h
        exact atPrecision_inside h
  | widthStar =>
      simp only [hplace] at h
      exact .inr (.inr (.inr ⟨by decide, atPrecision_inside h⟩))
  | point =>
      simp only [hplace] at h
      refine .inr (.inr (.inr ⟨by decide, ?_⟩))
      by_cases hstar : b = 42
      · simp only [if_pos hstar] at h
        exact inside_of_place (· = 42) rfl .precisionStar _ (by decide) (decide_eq_true hstar) h
      · simp only [if_neg hstar] at h
        by_cases hb : isDigit b = true
        · rw [if_pos hb] at h
          exact inside_of_place isDigit rfl .precision r.stars (by decide) hb h
        · rw [if_neg hb] at h
          exact atLength_inside h
  | precision =>
      simp only [hplace] at h
      refine .inr (.inr (.inr ⟨by decide, ?_⟩))
      by_cases hb : isDigit b = true
      · rw [if_pos hb] at h
        exact inside_of_place isDigit rfl .precision r.stars (by decide) hb
          (by rw [← hplace]; exact h)
      · simp only [if_neg hb] at h
        exact atLength_inside h
  | precisionStar =>
      simp only [hplace] at h
      exact .inr (.inr (.inr ⟨by decide, atLength_inside h⟩))
  | length m =>
      simp only [hplace] at h
      refine .inr (.inr (.inr ⟨by simp only [ne_eq, reduceCtorEq, not_false_eq_true], ?_⟩))
      exact behindLength_inside m h

/-- A percent sign is accounted for when it is read. -/
theorem step_percents (h : r.step b = some r') :
    r'.percents = r.percents + if b = 37 then 1 else 0 := by
  unfold Reading.percents
  rcases step_cases h with ⟨hplace, hb, hr'⟩ | ⟨hplace, hb, hr'⟩ | ⟨hplace, hb, hr'⟩ |
    ⟨hplace, hb, hesc, hor⟩
  · rw [hr', if_neg hb, Nat.add_zero]
  · rw [hr', if_pos hb, hplace]
    rfl
  · rw [hr', if_pos hb, hplace]
    simp only [if_true, reduceCtorEq, if_false]
    omega
  · rw [if_neg hb, if_neg hplace, hesc]
    rcases hor with ⟨htext, hconv⟩ | ⟨hin, -, hconv⟩
    · rw [if_pos htext, hconv]
      omega
    · rw [if_neg hin, hconv]

/-- An asterisk that was read is part of a conversion that was read, or of the
    one the reader is in. -/
def StarsPlaced (r : Reading) : Prop :=
  r.conversions = 0 → r.place = .text ∨ r.place = .percent → r.stars = 0

theorem step_starsPlaced (hs : StarsPlaced r) (h : r.step b = some r') : StarsPlaced r' := by
  intro hnone hplace'
  rcases step_cases h with ⟨-, -, hr'⟩ | ⟨hplace, -, hr'⟩ | ⟨hplace, -, hr'⟩ |
    ⟨-, -, -, ⟨-, hconv⟩ | ⟨htext, hpercent, -⟩⟩
  · rw [hr'] at hnone hplace' ⊢
    exact hs hnone hplace'
  · rw [hr'] at hnone ⊢
    exact hs hnone (.inl hplace)
  · rw [hr'] at hnone ⊢
    exact hs hnone (.inr hplace)
  · omega
  · rcases hplace' with hplace' | hplace'
    · exact absurd hplace' htext
    · exact absurd hplace' hpercent

end Steps

theorem run_percents (format : List UInt8) : ∀ (r r' : Reading),
    Steps.run Reading.step r format = some r' → r'.percents = r.percents + format.count 37 := by
  induction format with
  | nil =>
      intro r r' h
      simp only [Steps.run, Option.some.injEq] at h
      rw [h, List.count_nil, Nat.add_zero]
  | cons b bs ih =>
      intro r r' h
      rcases Steps.run_cons_some _ r r' b bs h with ⟨mid, hstep, hrest⟩
      rw [ih mid r' hrest, step_percents hstep, List.count_cons]
      simp only [beq_iff_eq]
      omega

/-- A percent sign begins a conversion or is half of an escape. -/
theorem percents_of_reads (format : List UInt8) (r : Reading) (h : Reads format r) :
    format.count 37 = r.conversions + 2 * r.escapes := by
  have hrun := run_percents format .start r h.1
  unfold Reading.percents at hrun
  rw [h.2, if_pos rfl] at hrun
  simp only [Reading.start, if_true] at hrun
  omega

/-- Without conversions there are no asterisks to take an argument. -/
theorem stars_of_reads (format : List UInt8) (r : Reading) (h : Reads format r)
    (hnone : r.conversions = 0) : r.stars = 0 := by
  have hplaced : StarsPlaced r :=
    Steps.run_invariant Reading.step StarsPlaced (fun _ _ _ hs hstep => step_starsPlaced hs hstep)
      format .start r (fun _ _ => rfl) h.1
  exact hplaced hnone (.inl h.2)

theorem args_eq_some_iff (format : List UInt8) (n : Nat) :
    args format = some n ↔ ∃ r, Reads format r ∧ r.conversions + r.stars = n := by
  unfold args Reads
  cases Steps.run Reading.step .start format with
  | none => simp only [reduceCtorEq, false_and, exists_false]
  | some r =>
      constructor
      · intro h
        by_cases htext : r.place = .text
        · simp only [htext, if_true, Option.some.injEq] at h
          exact ⟨r, ⟨rfl, htext⟩, h⟩
        · simp only [htext, if_false, reduceCtorEq] at h
      · rintro ⟨r', ⟨hr, htext⟩, hn⟩
        rw [Option.some.inj hr]
        simp only [htext, if_true, hn]

end PrintfFormat
