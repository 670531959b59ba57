import Mathlib.Data.List.Nodup
import Mathlib.Data.List.Basic

/-!
# Order of First Appearance

Systems that give out numbers on demand give the next one to every key they
have not met before. What a key gets then depends on its place among the
distinct keys, in the order in which they first appear.

`order` lists the distinct keys of a sequence that way, behind those already
known. A key keeps its place when more keys come in, so a number given out
once can be computed from the whole sequence.

## Main definitions

* `addNew`: One more key.
* `order`: The distinct keys of a sequence, by first appearance.

## Theorems

* `mem_order`: The keys of the order are those known and those met.
* `idxOf_order_of_mem`: A known key keeps its place.
* `idxOf_addNew_self`: A new key comes last.
* `order_of_nodup`: Different keys that are all new are ordered as they come.
-/

namespace FirstSeen

variable {κ : Type*} [DecidableEq κ]

/-- One more key, behind the known ones if it is not among them. -/
def addNew (known : List κ) (k : κ) : List κ :=
  if k ∈ known then known else known ++ [k]

/-- The known keys and the distinct keys of a sequence, by first
    appearance. -/
def order (known : List κ) (ks : List κ) : List κ :=
  ks.foldl addNew known

theorem order_cons (known : List κ) (k : κ) (ks : List κ) :
    order known (k :: ks) = order (addNew known k) ks := rfl

theorem mem_addNew (known : List κ) (k x : κ) : x ∈ addNew known k ↔ x ∈ known ∨ x = k := by
  unfold addNew
  split
  · rename_i hk
    constructor
    · exact .inl
    · rintro (hx | rfl)
      · exact hx
      · exact hk
  · rw [List.mem_append, List.mem_singleton]

theorem mem_order (known ks : List κ) (x : κ) : x ∈ order known ks ↔ x ∈ known ∨ x ∈ ks := by
  induction ks generalizing known with
  | nil => simp only [order, List.foldl_nil, List.not_mem_nil, or_false]
  | cons k ks ih => rw [order_cons, ih, mem_addNew, List.mem_cons, or_assoc]

theorem idxOf_addNew_of_mem (known : List κ) (k x : κ) (hx : x ∈ known) :
    (addNew known k).idxOf x = known.idxOf x := by
  unfold addNew
  split
  · rfl
  · exact List.idxOf_append_of_mem hx

theorem idxOf_addNew_self (known : List κ) (k : κ) (hk : k ∉ known) :
    (addNew known k).idxOf k = known.length := by
  rw [addNew, if_neg hk, List.idxOf_append_of_notMem hk, List.idxOf_cons_self, Nat.add_zero]

theorem length_addNew_of_notMem (known : List κ) (k : κ) (hk : k ∉ known) :
    (addNew known k).length = known.length + 1 := by
  rw [addNew, if_neg hk, List.length_append, List.length_singleton]

/-- A known key keeps its place. -/
theorem idxOf_order_of_mem (known ks : List κ) (x : κ) (hx : x ∈ known) :
    (order known ks).idxOf x = known.idxOf x := by
  induction ks generalizing known with
  | nil => rfl
  | cons k ks ih =>
      rw [order_cons, ih (addNew known k) ((mem_addNew known k x).mpr (.inl hx)),
        idxOf_addNew_of_mem known k x hx]

/-- Different keys that are all new are ordered as they come. -/
theorem order_of_nodup (known ks : List κ) (hnodup : ks.Nodup) (hnew : ∀ k ∈ ks, k ∉ known) :
    order known ks = known ++ ks := by
  induction ks generalizing known with
  | nil => rw [List.append_nil]; rfl
  | cons k ks ih =>
      rw [List.nodup_cons] at hnodup
      have hk := hnew k (List.mem_cons_self ..)
      rw [order_cons, addNew, if_neg hk, ih (known ++ [k]) hnodup.2, List.append_assoc,
        List.singleton_append]
      intro x hx
      rw [List.mem_append, List.mem_singleton, not_or]
      refine ⟨hnew x (List.mem_cons_of_mem _ hx), ?_⟩
      intro heq
      exact hnodup.1 (heq ▸ hx)

end FirstSeen
