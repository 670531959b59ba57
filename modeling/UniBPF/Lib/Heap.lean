import Mathlib.Logic.Function.Basic
import Mathlib.Algebra.Group.Nat.Defs
import Mathlib.Data.List.Basic

/-!
# Objects at Addresses

A heap as a partial function from addresses to objects, and what a program
may assume of the allocator it calls. An address that holds nothing is free;
an allocator hands out a free, non-null address that fits a machine word, or
fails. Nothing else is fixed about the choice, so a statement made for every
`Allocator` holds for every reuse policy.

The three assumptions are fields of `Allocator` rather than hypotheses of the
theorems that need them. `scan` is one allocator, first fit over an
interval, which shows that the assumptions can be met.

## Main definitions

* `Addr`: A machine address.
* `Heap`: Objects by address.
* `Allocator`: A choice of free addresses.
* `scan`: First fit over an interval of addresses.

## Theorems

* `update_of_free`: Filling a free cell leaves every other as it is.
* `scan_spec`: What first fit returns is free and inside its interval.
-/

/-- A machine address. -/
abbrev Addr := Nat

/-- Objects by address; `none` where nothing is allocated. -/
abbrev Heap (α : Type*) := Addr → Option α

/-- A choice of where the next object goes. `none` is an allocation that
    fails. -/
structure Allocator (α : Type*) where
  alloc : Heap α → Option Addr
  alloc_free : ∀ h a, alloc h = some a → h a = none
  alloc_pos : ∀ h a, alloc h = some a → 0 < a
  alloc_lt : ∀ h a, alloc h = some a → a < 2 ^ 64

/-- A binding added where there was none disturbs no other: filling a free
    cell leaves every object where it is, and a new key every old one. -/
theorem update_of_free {κ α : Type*} [DecidableEq κ] (f : κ → Option α) (k k' : κ) (x y : α)
    (hfree : f k = none) (hk' : f k' = some y) : Function.update f k (some x) k' = some y := by
  have hne : k' ≠ k := by
    intro heq
    rw [heq, hfree] at hk'
    exact absurd hk' (by simp only [reduceCtorEq, not_false_eq_true])
  rw [Function.update_of_ne hne, hk']

namespace Heap

variable {α : Type*}

/-- The first free address in `[lo, lo + n)`. -/
def scan (lo n : Nat) (h : Heap α) : Option Addr :=
  ((List.range n).map (fun i => lo + i)).find? (fun a => (h a).isNone)

theorem scan_spec (lo n : Nat) (h : Heap α) (a : Addr) (ha : scan lo n h = some a) :
    h a = none ∧ lo ≤ a ∧ a < lo + n := by
  have hmem := List.mem_of_find?_eq_some ha
  have hfree := List.find?_some ha
  rcases List.mem_map.mp hmem with ⟨i, hi, rfl⟩
  rw [List.mem_range] at hi
  exact ⟨Option.isNone_iff_eq_none.mp hfree, Nat.le_add_right lo i,
    Nat.add_lt_add_left hi lo⟩

/-- First fit as an allocator, for an interval of non-null machine words. -/
def firstFit (lo n : Nat) (hlo : 0 < lo) (hn : lo + n ≤ 2 ^ 64) : Allocator α where
  alloc := scan lo n
  alloc_free h a ha := (scan_spec lo n h a ha).1
  alloc_pos h a ha := Nat.lt_of_lt_of_le hlo (scan_spec lo n h a ha).2.1
  alloc_lt h a ha := Nat.lt_of_lt_of_le (scan_spec lo n h a ha).2.2 hn

/-- The page at `0x10000` may be handed out. -/
theorem page_pos : 0 < 0x10000 := by
  decide

theorem page_le : 0x10000 + 0x1000 ≤ 2 ^ 64 := by
  decide

end Heap
