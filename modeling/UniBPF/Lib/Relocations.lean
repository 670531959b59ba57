import Mathlib.Data.List.Basic

/-!
# Code with Fields to Fill In

A code generator that writes its output in one go has to leave out the
distances it does not know yet. It writes something of the right size in
their place, keeps the place in a table, and goes over the tables at the end.
There may be several tables, for several kinds of fields.

`Piece` is a stretch of such output: fixed bytes, and after them a field if
there is one. `layout` is the output as a byte string and `tableOf` the table
of one kind. The generator never sees pieces, it only sees the byte string
and the tables, and overwrites the former as the latter say. `foldl_patchAt`
is what that amounts to: the byte string of the pieces with that kind of field
filled in. What is already filled in stays, so the tables can be gone through
one after another.

## Main definitions

* `patchAt`: Writing into the middle of a byte string.
* `Field`, `Piece`, `layout`: Output with fields.
* `tableOf`: The table of one kind of field.
* `fill`: The pieces with some kinds of field filled in.
* `Fits`: What is filled in has the size of the field.

## Theorems

* `patchAt_middle`: Overwriting a stretch of the same size.
* `length_layout_fill`: Filling in moves nothing.
* `tableOf_between`: A field lies within its piece.
* `foldl_patchAt`: Going through a table fills in its fields.
-/

namespace Relocations

variable {κ τ : Type*}

/-- Write into a byte string. What would go past its end is not kept. -/
def patchAt (buf : List UInt8) (off : Nat) (data : List UInt8) : List UInt8 :=
  (buf.take off ++ (data ++ buf.drop (off + data.length))).take buf.length

/-- A field: the table it is noted in and what it refers to. -/
structure Field (κ τ : Type*) where
  table : κ
  target : τ

/-- Fixed bytes, and the bytes of a field if there is one. -/
structure Piece (κ τ : Type*) where
  head : List UInt8
  field : Option (Field κ τ)
  content : List UInt8

def Piece.bytes (p : Piece κ τ) : List UInt8 := p.head ++ p.content

def layout (ps : List (Piece κ τ)) : List UInt8 := ps.flatMap Piece.bytes

@[simp] theorem layout_nil : layout ([] : List (Piece κ τ)) = [] := rfl

@[simp] theorem layout_cons (p : Piece κ τ) (ps : List (Piece κ τ)) :
    layout (p :: ps) = p.bytes ++ layout ps := rfl

@[simp] theorem layout_append (ps qs : List (Piece κ τ)) :
    layout (ps ++ qs) = layout ps ++ layout qs := List.flatMap_append

variable [DecidableEq κ]

/-- The entry of one piece, which starts at `base`. -/
def Piece.entry (k : κ) (base : Nat) (p : Piece κ τ) : List (Nat × τ) :=
  match p.field with
  | some field => if field.table = k then [(base + p.head.length, field.target)] else []
  | none => []

/-- The table of one kind: where a field is, and what it refers to. -/
def tableOf (k : κ) : Nat → List (Piece κ τ) → List (Nat × τ)
  | _, [] => []
  | base, p :: ps => p.entry k base ++ tableOf k (base + p.bytes.length) ps

@[simp] theorem tableOf_nil (k : κ) (base : Nat) : tableOf (τ := τ) k base [] = [] := rfl

theorem tableOf_append (k : κ) (base : Nat) (ps qs : List (Piece κ τ)) :
    tableOf k base (ps ++ qs) = tableOf k base ps ++ tableOf k (base + (layout ps).length) qs := by
  induction ps generalizing base with
  | nil => simp only [List.nil_append, tableOf_nil, layout_nil, List.length_nil, Nat.add_zero]
  | cons p ps ih =>
      simp only [List.cons_append, tableOf, ih, List.append_assoc, layout_cons,
        List.length_append, Nat.add_assoc]

/-- A field lies within its piece. -/
theorem tableOf_between (k : κ) (base : Nat) (ps : List (Piece κ τ)) (e : Nat × τ)
    (h : e ∈ tableOf k base ps) : base ≤ e.1 ∧ e.1 ≤ base + (layout ps).length := by
  induction ps generalizing base with
  | nil => exact absurd h (by simp only [tableOf_nil, List.not_mem_nil, not_false_eq_true])
  | cons p ps ih =>
      rw [layout_cons, List.length_append]
      rw [tableOf, List.mem_append] at h
      rcases h with h | h
      · rw [Piece.entry] at h
        split at h
        next =>
          split at h
          next =>
            rw [List.mem_singleton] at h
            rw [h, Piece.bytes, List.length_append]
            omega
          next => exact absurd h List.not_mem_nil
        next => exact absurd h List.not_mem_nil
      · have := ih _ h
        omega

variable (f : κ → Nat → τ → List UInt8)

/-- One piece with its field filled in, if its kind is among those done. -/
def Piece.fillAt (done : κ → Bool) (base : Nat) (p : Piece κ τ) : Piece κ τ :=
  match p.field with
  | some field =>
    if done field.table then
      { p with content := f field.table (base + p.head.length) field.target }
    else p
  | none => p

def fill (done : κ → Bool) : Nat → List (Piece κ τ) → List (Piece κ τ)
  | _, [] => []
  | base, p :: ps => p.fillAt f done base :: fill done (base + p.bytes.length) ps

/-- What is filled in has the size of what was there. -/
def Fits (ps : List (Piece κ τ)) : Prop :=
  ∀ p ∈ ps, ∀ field, p.field = some field →
    ∀ loc, (f field.table loc field.target).length = p.content.length

theorem patchAt_middle (a b c d : List UInt8) (h : d.length = b.length) :
    patchAt (a ++ (b ++ c)) a.length d = a ++ (d ++ c) := by
  have hlen : (a ++ (b ++ c)).length = (a ++ (d ++ c)).length := by
    simp only [List.length_append, h]
  rw [patchAt, List.take_left, hlen, h, List.drop_length_add_append, List.drop_left,
    List.take_length]

omit [DecidableEq κ] in
theorem Piece.length_fillAt (done : κ → Bool) (base : Nat) (p : Piece κ τ)
    (h : ∀ field, p.field = some field →
      ∀ loc, (f field.table loc field.target).length = p.content.length) :
    (p.fillAt f done base).bytes.length = p.bytes.length := by
  cases hfield : p.field with
  | none => simp only [Piece.fillAt, hfield]
  | some field =>
      simp only [Piece.fillAt, hfield]
      by_cases hdone : done field.table = true
      · simp only [hdone, if_true, Piece.bytes, List.length_append, h field hfield]
      · simp only [hdone, Bool.false_eq_true, if_false]

omit [DecidableEq κ] in
theorem Piece.head_fillAt (done : κ → Bool) (base : Nat) (p : Piece κ τ) :
    (p.fillAt f done base).head = p.head := by
  cases hfield : p.field with
  | none => simp only [Piece.fillAt, hfield]
  | some field =>
      simp only [Piece.fillAt, hfield]
      by_cases hdone : done field.table = true
      · simp only [hdone, if_true]
      · simp only [hdone, Bool.false_eq_true, if_false]

omit [DecidableEq κ] in
theorem Fits.tail {p : Piece κ τ} {ps : List (Piece κ τ)} (h : Fits f (p :: ps)) : Fits f ps :=
  fun q hq => h q (List.mem_cons_of_mem p hq)

omit [DecidableEq κ] in
/-- Filling in moves nothing. -/
theorem length_layout_fill (done : κ → Bool) (base : Nat) (ps : List (Piece κ τ))
    (h : Fits f ps) : (layout (fill f done base ps)).length = (layout ps).length := by
  induction ps generalizing base with
  | nil => rfl
  | cons p ps ih =>
      rw [fill, layout_cons, layout_cons, List.length_append, List.length_append,
        Piece.length_fillAt f done base p (h p List.mem_cons_self), ih _ h.tail]

omit [DecidableEq κ] in
theorem fill_append (done : κ → Bool) (base : Nat) (ps qs : List (Piece κ τ)) :
    fill f done base (ps ++ qs) =
      fill f done base ps ++ fill f done (base + (layout ps).length) qs := by
  induction ps generalizing base with
  | nil => simp only [List.nil_append, fill, layout_nil, List.length_nil, Nat.add_zero]
  | cons p ps ih =>
      simp only [List.cons_append, fill, ih, layout_cons, List.length_append, Nat.add_assoc]

omit [DecidableEq κ] in
theorem fill_none (base : Nat) (ps : List (Piece κ τ)) : fill f (fun _ => false) base ps = ps := by
  induction ps generalizing base with
  | nil => rfl
  | cons p ps ih =>
      rw [fill, ih]
      cases hfield : p.field with
      | none => simp only [Piece.fillAt, hfield]
      | some field => simp only [Piece.fillAt, hfield, Bool.false_eq_true, if_false]

/-- Also fill in one more kind. -/
def andTable (done : κ → Bool) (k : κ) : κ → Bool := fun k' => done k' || decide (k' = k)

/-- A piece whose field is of another kind stays. -/
theorem Piece.fillAt_andTable (done : κ → Bool) (k : κ) (base : Nat) (p : Piece κ τ)
    (h : p.entry k base = []) : p.fillAt f (andTable done k) base = p.fillAt f done base := by
  cases hfield : p.field with
  | none => simp only [Piece.fillAt, hfield]
  | some field =>
      have hne : field.table ≠ k := by
        intro heq
        simp only [Piece.entry, hfield, heq, if_true, List.cons_ne_nil] at h
      simp only [Piece.fillAt, hfield, andTable, hne, decide_false, Bool.or_false]

/-- Going through one table overwrites its fields and nothing else. -/
theorem foldl_patchAt (done : κ → Bool) (k : κ) (ps : List (Piece κ τ)) (h : Fits f ps) :
    ∀ pre post : List UInt8,
      (tableOf k pre.length ps).foldl (fun buf e => patchAt buf e.1 (f k e.1 e.2))
        (pre ++ (layout (fill f done pre.length ps) ++ post)) =
      pre ++ (layout (fill f (andTable done k) pre.length ps) ++ post) := by
  induction ps with
  | nil => intro pre post; rfl
  | cons p ps ih =>
      intro pre post
      have hp := h p List.mem_cons_self
      have hlen := Piece.length_fillAt f (andTable done k) pre.length p hp
      -- The rest of the pieces, once this one has been dealt with.
      have hrest := ih h.tail (pre ++ (p.fillAt f (andTable done k) pre.length).bytes) post
      rw [List.length_append, hlen, List.append_assoc, List.append_assoc] at hrest
      rw [tableOf, fill, fill, layout_cons, layout_cons, List.foldl_append, List.append_assoc,
        List.append_assoc, ← hrest]
      congr 1
      cases hentry : p.entry k pre.length with
      | nil => rw [List.foldl_nil, Piece.fillAt_andTable f done k pre.length p hentry]
      | cons e es =>
          cases hfield : p.field with
          | none => simp only [Piece.entry, hfield, List.nil_eq, reduceCtorEq] at hentry
          | some field =>
              simp only [Piece.entry, hfield] at hentry
              split at hentry
              next htable =>
                rw [List.cons.injEq] at hentry
                rcases hentry with ⟨rfl, rfl⟩
                have hcontent : (p.fillAt f done pre.length).content.length = p.content.length := by
                  have hlen' := Piece.length_fillAt f done pre.length p hp
                  rw [Piece.bytes, Piece.bytes, List.length_append, List.length_append,
                    Piece.head_fillAt] at hlen'
                  omega
                have hbytes : (p.fillAt f (andTable done k) pre.length).bytes =
                    p.head ++ f k (pre.length + p.head.length) field.target := by
                  simp only [Piece.fillAt, hfield, andTable, htable, decide_true, Bool.or_true,
                    if_true, Piece.bytes]
                have hmiddle := patchAt_middle (pre ++ p.head) (p.fillAt f done pre.length).content
                  (layout (fill f done (pre.length + p.bytes.length) ps) ++ post)
                  (f k (pre.length + p.head.length) field.target)
                  ((htable ▸ hp field hfield (pre.length + p.head.length)).trans hcontent.symm)
                rw [List.length_append] at hmiddle
                rw [List.foldl_cons, List.foldl_nil, hbytes, Piece.bytes, Piece.head_fillAt,
                  List.append_assoc, List.append_assoc, ← List.append_assoc pre,
                  ← List.append_assoc pre]
                exact hmiddle
              next => exact absurd hentry (by simp only [reduceCtorEq, not_false_eq_true])

end Relocations
