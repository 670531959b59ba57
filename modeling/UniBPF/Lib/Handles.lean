import UniBPF.Lib.Steps

/-!
# Handles That Are Held Once

A holder has one resource and knows it by a handle. It may work on the
resource, trade it in for another one, or give it away, after which it has
nothing. Every act names the handle it is meant for, so a program that keeps
an old handle around can name one it no longer holds.

`own` is the ledger: the handle that is held, if any, and no way on from an
act on any other. A list of acts is `Linear` when it is legal to its end and
nothing is held then. `linear_iff` says the same in terms of what can be seen
of the acts alone: they are legal, and one of them gives.

## Main definitions

* `Act`: What is done with a handle.
* `own`: The handle that is held after an act.
* `Legal`, `Linear`: Only what is held is acted on, and in the end it is gone.
* `gives`: How often something is given away.

## Theorems

* `run_own_gives`: What is held, and what was given away, add up.
* `linear_iff`: Linear acts are the legal ones that give once.
-/

namespace Handles

variable {H O : Type*}

/-- What is done with a handle. -/
inductive Act (H O : Type*) where
  | touch (h : H)
  | trade (h h' : H)
  | give (h : H) (o : O)

/-- Whether the act gives the handle away for good. -/
def Act.isGive : Act H O → Bool
  | .give .. => true
  | .touch _ | .trade .. => false

/-- How often something is given away. -/
def gives (acts : List (Act H O)) : Nat :=
  acts.countP Act.isGive

/-- One for a handle that is held. -/
def held : Option H → Nat
  | some _ => 1
  | none => 0

section Ledger

variable [DecidableEq H]

/-- The handle that is held after an act. An act on any other than the one
    that is held is not legal. -/
def own : Option H → Act H O → Option (Option H)
  | some mine, .touch h => if h = mine then some (some mine) else none
  | some mine, .trade h h' => if h = mine then some (some h') else none
  | some mine, .give h _ => if h = mine then some none else none
  | none, _ => none

/-- Every act is on the handle that is held at that point. -/
def Legal (h : H) (acts : List (Act H O)) : Prop :=
  (Steps.run own (some h) acts).isSome

/-- The acts are legal, and nothing is held after them. -/
def Linear (h : H) (acts : List (Act H O)) : Prop :=
  Steps.run own (some h) acts = some none

theorem run_own_touch (h : H) (acts : List (Act H O)) :
    Steps.run own (some h) (.touch h :: acts) = Steps.run own (some h) acts :=
  Steps.run_cons own _ _ _ _ (by rw [own, if_pos rfl])

theorem run_own_trade (h h' : H) (acts : List (Act H O)) :
    Steps.run own (some h) (.trade h h' :: acts) = Steps.run own (some h') acts :=
  Steps.run_cons own _ _ _ _ (by rw [own, if_pos rfl])

/-- Giving is the right last act for the handle that is held, and for no
    other. -/
theorem linear_give_iff (mine h : H) (o : O) : Linear mine [.give h o] ↔ h = mine := by
  by_cases hmine : h = mine
  · refine iff_of_true ?_ hmine
    show Steps.run own (some mine) [Act.give h o] = some none
    rw [Steps.run_cons own _ none _ _ (by rw [own, if_pos hmine])]
    rfl
  · refine iff_of_false ?_ hmine
    intro hlinear
    rcases Steps.run_cons_some own _ _ _ _ hlinear with ⟨after, hstep, -⟩
    rw [own, if_neg hmine] at hstep
    exact absurd hstep (by simp only [reduceCtorEq, not_false_eq_true])

theorem own_gives (before after : Option H) (a : Act H O) (h : own before a = some after) :
    held before = gives [a] + held after := by
  cases before with
  | none => exact absurd h (by simp only [own, reduceCtorEq, not_false_eq_true])
  | some mine =>
      cases a with
      | touch h' =>
          simp only [own, Option.ite_none_right_eq_some, Option.some.injEq] at h
          rw [← h.2]
          rfl
      | trade h' h'' =>
          simp only [own, Option.ite_none_right_eq_some, Option.some.injEq] at h
          rw [← h.2]
          rfl
      | give h' o =>
          simp only [own, Option.ite_none_right_eq_some, Option.some.injEq] at h
          rw [← h.2]
          rfl

/-- What is held in the end and how often something was given away add up to
    what was held in the beginning. -/
theorem run_own_gives (acts : List (Act H O)) (before after : Option H)
    (h : Steps.run own before acts = some after) : held before = gives acts + held after := by
  induction acts generalizing before with
  | nil =>
      simp only [Steps.run, Option.some.injEq] at h
      rw [h]
      exact (Nat.zero_add _).symm
  | cons a acts ih =>
      rcases Steps.run_cons_some own before after a acts h with ⟨mid, hstep, hrest⟩
      have hone := own_gives before mid a hstep
      have hall := ih mid hrest
      have hsplit : gives ([a] ++ acts) = gives [a] + gives acts := List.countP_append
      rw [List.singleton_append] at hsplit
      omega

/-- Linear acts are the legal ones that give something away exactly once. -/
theorem linear_iff (h : H) (acts : List (Act H O)) :
    Linear h acts ↔ Legal h acts ∧ gives acts = 1 := by
  constructor
  · intro hlinear
    have hsum := run_own_gives acts (some h) none hlinear
    refine ⟨?_, hsum.symm⟩
    rw [Legal, hlinear]
    rfl
  · rintro ⟨hlegal, hone⟩
    rcases Option.isSome_iff_exists.mp hlegal with ⟨after, hafter⟩
    have hsum := run_own_gives acts (some h) after hafter
    cases after with
    | none => exact hafter
    | some mine =>
        -- Both the giving and the handle that is left would have to come
        -- from the one handle there was.
        have : 1 = 1 + 1 := by rw [hone] at hsum; exact hsum
        omega

end Ledger

end Handles
