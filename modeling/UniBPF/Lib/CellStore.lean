import Mathlib.Data.List.Basic
import Mathlib.Logic.Function.Basic

/-!
# Cells Reached Through Handles

A finite map whose values are cells: a client looks a key up once, keeps the
handle it is given, and reads and writes the cell through it later. A handle
stays good while its key is in the map, whatever is stored under the key in
the meantime, and is dead for good once the key has been erased.

Handles are numbered in the order in which they were handed out. The store
remembers for each the key it stands for, and forgets it when the key goes.

## Main definitions

* `CellStore`: Cells by key, and the keys of the handles.
* `CellStore.put`, `CellStore.erase`, `CellStore.point`: The operations.
* `CellStore.target`: The key a handle stands for.

## Theorems

* `target_erase`: Erasing a key kills its handles and no other.
* `target_point`: A new handle, and the old ones.
-/

/-- Cells by key, and for each handle the key it stands for. -/
structure CellStore (κ ν : Type*) where
  cells : κ → Option ν
  handles : List (Option κ)

namespace CellStore

variable {κ ν : Type*}

/-- No cells and no handles. -/
def empty : CellStore κ ν := ⟨fun _ => none, []⟩

/-- Store a value under a key. Handles of the key keep leading to its cell. -/
def put [DecidableEq κ] (s : CellStore κ ν) (k : κ) (v : ν) : CellStore κ ν :=
  ⟨Function.update s.cells k (some v), s.handles⟩

/-- Remove a key. Its handles are dead from here on. -/
def erase [DecidableEq κ] (s : CellStore κ ν) (k : κ) : CellStore κ ν :=
  ⟨Function.update s.cells k none, s.handles.map (fun h => if h = some k then none else h)⟩

/-- Look a key up: one more handle, a dead one if the key is absent. -/
def point (s : CellStore κ ν) (k : κ) : CellStore κ ν :=
  ⟨s.cells, s.handles ++ [if (s.cells k).isSome then some k else none]⟩

/-- The key a handle stands for. -/
def target (s : CellStore κ ν) (j : Nat) : Option κ :=
  (s.handles[j]?).join

theorem target_erase [DecidableEq κ] (s : CellStore κ ν) (k k' : κ) (j : Nat) :
    (s.erase k).target j = some k' ↔ s.target j = some k' ∧ k' ≠ k := by
  unfold target erase
  rw [List.getElem?_map]
  cases s.handles[j]? with
  | none => simp only [Option.map_none, Option.join_none, reduceCtorEq, false_and]
  | some h =>
      simp only [Option.map_some, Option.join_some]
      by_cases hk : h = some k
      · simp only [hk, ↓reduceIte, reduceCtorEq, Option.some.injEq, false_iff, not_and, ne_eq,
          not_not, eq_comm, imp_self]
      · simp only [hk, ↓reduceIte]
        constructor
        · intro heq
          refine ⟨heq, ?_⟩
          rintro rfl
          exact hk heq
        · exact fun heq => heq.1

theorem target_point (s : CellStore κ ν) (k k' : κ) (j : Nat) :
    (s.point k).target j = some k' ↔
      s.target j = some k' ∨ (j = s.handles.length ∧ k' = k ∧ (s.cells k).isSome) := by
  unfold target point
  rcases Nat.lt_trichotomy j s.handles.length with hlt | heq | hgt
  · rw [List.getElem?_append_left hlt]
    simp only [Nat.ne_of_lt hlt, false_and, or_false]
  · rw [heq, List.getElem?_concat_length, List.getElem?_eq_none (Nat.le_refl _)]
    by_cases hcell : (s.cells k).isSome
    · simp only [hcell, ↓reduceIte, Option.join_some, Option.some.injEq, Option.join_none,
        reduceCtorEq, true_and, and_true, false_or, eq_comm]
    · simp only [hcell, Bool.false_eq_true, ↓reduceIte, Option.join_some, reduceCtorEq,
        Option.join_none, and_false, or_false]
  · rw [List.getElem?_eq_none (by rw [List.length_append, List.length_singleton]; omega),
      List.getElem?_eq_none (by omega)]
    simp only [Option.join_none, reduceCtorEq, Nat.ne_of_gt hgt, false_and, or_self]

end CellStore
