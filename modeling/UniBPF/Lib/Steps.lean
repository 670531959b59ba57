import Mathlib.Logic.Basic

/-!
# Runs of a Partial Step Function

A system that takes events one after another, where an event may have no
outcome at all. The step function is `σ → ε → Option σ`: `none` stands for an
event the system does not complete, and a run stops at the first of those.

Two kinds of statement are made about runs. `run_invariant` and
`Reachable.invariant` carry an invariant from the first state to the last,
which is the usual induction and is packaged here once.

`Along` is the other kind. It says that a property of a state and the event
taken there holds at every step of a run, and `along_iff` compares two such
properties. The point of that rule is what it does *not* ask: the invariant
only has to survive a step at which the first property held, so it can be
the very thing the first violation destroys. After that violation both sides
are false and nothing more is needed of the run.

## Main definitions

* `run`: The state after a list of events, if each one completes.
* `Along`: A property holds at every step of a run.
* `Reachable`: Some list of events leads to the state.

## Theorems

* `run_append`, `run_append_some`: A run over a concatenation is one run after
  the other.
* `run_invariant`: An invariant holds at the end of a run.
* `Reachable.invariant`: An invariant holds in every reachable state.
* `along_of_invariant`: A property every invariant state gives holds along
  every run.
* `along_iff`: Two properties that agree where the invariant holds agree
  along every run.
* `run_along_invariant`: An invariant kept by the good steps holds at the end
  of a run of good steps.
* `prefixes_iff`: A property of every state a run passes through, as a
  property of its steps.
-/

namespace Steps

variable {σ ε : Type*}

/-- The state after the events, or `none` from the first one that does not
    complete. -/
def run (step : σ → ε → Option σ) : σ → List ε → Option σ
  | s, [] => some s
  | s, e :: es => match step s e with
    | none => none
    | some s' => run step s' es

/-- `P` holds at every step: of the state a step is taken in and the event
    taken there. -/
def Along (step : σ → ε → Option σ) (P : σ → ε → Prop) : σ → List ε → Prop
  | _, [] => True
  | s, e :: es => P s e ∧ ∀ s', step s e = some s' → Along step P s' es

/-- Some list of events leads from the initial state to this one. -/
def Reachable (step : σ → ε → Option σ) (init s : σ) : Prop :=
  ∃ es, run step init es = some s

theorem run_cons (step : σ → ε → Option σ) (s s' : σ) (e : ε) (es : List ε)
    (h : step s e = some s') : run step s (e :: es) = run step s' es := by
  simp only [run, h]

/-- A run that completes completes its first step. -/
theorem run_cons_some (step : σ → ε → Option σ) (s t : σ) (e : ε) (es : List ε)
    (h : run step s (e :: es) = some t) : ∃ s', step s e = some s' ∧ run step s' es = some t := by
  simp only [run] at h
  cases hstep : step s e with
  | none =>
      rw [hstep] at h
      exact absurd h (by simp only [reduceCtorEq, not_false_eq_true])
  | some s' =>
      rw [hstep] at h
      exact ⟨s', rfl, h⟩

theorem run_append (step : σ → ε → Option σ) (s t : σ) (es fs : List ε)
    (h : run step s es = some t) : run step s (es ++ fs) = run step t fs := by
  induction es generalizing s with
  | nil =>
      simp only [run, Option.some.injEq] at h
      rw [h, List.nil_append]
  | cons e es ih =>
      rcases run_cons_some step s t e es h with ⟨s', hstep, hrest⟩
      rw [List.cons_append, run_cons step s s' e _ hstep]
      exact ih s' hrest

/-- A run over a concatenation that completes passes through the state
    between the two parts. -/
theorem run_append_some (step : σ → ε → Option σ) (s t : σ) (es fs : List ε)
    (h : run step s (es ++ fs) = some t) :
    ∃ mid, run step s es = some mid ∧ run step mid fs = some t := by
  induction es generalizing s with
  | nil => exact ⟨s, rfl, h⟩
  | cons e es ih =>
      rcases run_cons_some step s t e (es ++ fs) h with ⟨s', hstep, hrest⟩
      rcases ih s' hrest with ⟨mid, hes, hfs⟩
      exact ⟨mid, (run_cons step s s' e es hstep).trans hes, hfs⟩

/-- An invariant kept by every step at which `P` holds is there at the end of
    a run along which `P` holds. -/
theorem run_along_invariant (step : σ → ε → Option σ) (P : σ → ε → Prop) (Inv : σ → Prop)
    (hstep : ∀ s e s', Inv s → P s e → step s e = some s' → Inv s') :
    ∀ (es : List ε) (s t : σ), Inv s → Along step P s es → run step s es = some t → Inv t := by
  intro es
  induction es with
  | nil =>
      intro s t hs _ h
      simp only [run, Option.some.injEq] at h
      rwa [← h]
  | cons e es ih =>
      intro s t hs hP h
      rcases run_cons_some step s t e es h with ⟨s', hse, hrest⟩
      exact ih s' t (hstep s e s' hs hP.1 hse) (hP.2 s' hse) hrest

/-- A property that every state satisfying the invariant gives, for every
    event, holds along every run. -/
theorem along_of_invariant (step : σ → ε → Option σ) (P : σ → ε → Prop) (Inv : σ → Prop)
    (hP : ∀ s e, Inv s → P s e)
    (hstep : ∀ s e s', Inv s → step s e = some s' → Inv s') :
    ∀ (es : List ε) (s : σ), Inv s → Along step P s es := by
  intro es
  induction es with
  | nil => intro s _; exact trivial
  | cons e es ih =>
      intro s hs
      exact ⟨hP s e hs, fun s' hse => ih s' (hstep s e s' hs hse)⟩

theorem run_invariant (step : σ → ε → Option σ) (Inv : σ → Prop)
    (hstep : ∀ s e s', Inv s → step s e = some s' → Inv s')
    (es : List ε) (s t : σ) (hs : Inv s) (h : run step s es = some t) : Inv t := by
  have htriv : Along step (fun _ _ => True) s es :=
    along_of_invariant step _ (fun _ => True) (fun _ _ _ => trivial)
      (fun _ _ _ _ _ => trivial) es s trivial
  exact run_along_invariant step (fun _ _ => True) Inv
    (fun s e s' hs _ hse => hstep s e s' hs hse) es s t hs htriv h

theorem Reachable.invariant {step : σ → ε → Option σ} {init s : σ} (h : Reachable step init s)
    (Inv : σ → Prop) (h0 : Inv init)
    (hstep : ∀ s e s', Inv s → step s e = some s' → Inv s') : Inv s := by
  rcases h with ⟨es, hes⟩
  exact run_invariant step Inv hstep es init s h0 hes

/-- Two step properties that agree wherever the invariant holds agree along
    every run. The invariant is only asked to survive the steps at which the
    first property held: past the first step where it failed, both sides are
    already false. -/
theorem along_iff (step : σ → ε → Option σ) (P Q : σ → ε → Prop) (Inv : σ → Prop)
    (hPQ : ∀ s e, Inv s → (P s e ↔ Q s e))
    (hstep : ∀ s e s', Inv s → P s e → step s e = some s' → Inv s') :
    ∀ (es : List ε) (s : σ), Inv s → (Along step P s es ↔ Along step Q s es) := by
  intro es
  induction es with
  | nil => intro s _; exact Iff.rfl
  | cons e es ih =>
      intro s hs
      constructor
      · rintro ⟨hP, hrest⟩
        exact ⟨(hPQ s e hs).mp hP, fun s' hse =>
          (ih s' (hstep s e s' hs hP hse)).mp (hrest s' hse)⟩
      · rintro ⟨hQ, hrest⟩
        -- The invariant survives on `P`, so `P` is had back before the tail.
        have hP := (hPQ s e hs).mpr hQ
        exact ⟨hP, fun s' hse => (ih s' (hstep s e s' hs hP hse)).mpr (hrest s' hse)⟩

/-- A property holds of every state a run passes through exactly when it
    holds at the start and every step leads to a state that has it. -/
theorem prefixes_iff (step : σ → ε → Option σ) (I : σ → Prop) :
    ∀ (es : List ε) (s : σ), (∀ k t, run step s (es.take k) = some t → I t) ↔
      I s ∧ Along step (fun s e => ∀ s', step s e = some s' → I s') s es := by
  intro es
  induction es with
  | nil =>
      intro s
      constructor
      · intro h
        exact ⟨h 0 s rfl, trivial⟩
      · rintro ⟨hs, -⟩ k t ht
        simp only [List.take_nil, run, Option.some.injEq] at ht
        rwa [← ht]
  | cons e es ih =>
      intro s
      constructor
      · intro h
        refine ⟨h 0 s rfl, ?_, ?_⟩
        -- One event leads to the state after the first step.
        · intro s' hse
          exact h 1 s' (by simp only [List.take_succ_cons, List.take_zero, run, hse])
        · intro s' hse
          refine ((ih s').mp ?_).2
          intro k t ht
          exact h (k + 1) t (by rw [List.take_succ_cons, run_cons step s s' e _ hse, ht])
      · rintro ⟨hs, hstep, hrest⟩ k t ht
        cases k with
        | zero =>
            simp only [List.take_zero, run, Option.some.injEq] at ht
            rwa [← ht]
        | succ k =>
            rw [List.take_succ_cons] at ht
            rcases run_cons_some step s t e _ ht with ⟨s', hse, htail⟩
            exact (ih s').mpr ⟨hstep s' hse, hrest s' hse⟩ k t htail

end Steps
