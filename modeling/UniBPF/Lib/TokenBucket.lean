import Mathlib.Data.List.Basic
import Mathlib.Order.Lattice

/-!
# Token Buckets

A limiter that lets one request through for each token it has. Tokens come
with time, one for each unit that has passed since the last time some were
granted, up to a capacity. The first request finds a bucket with some tokens
in it.

The number of requests let through up to a time is bounded by the tokens in
the bucket and the time that is left: what a request takes out of one it does
not find in the other (`count_until`). The capacity makes the bound
independent of what came before, so it holds of every window of time
(`count_window`).

Requests at different times are all let through, since each finds a token
that was granted after the last one (`serve_of_increasing`).

## Main definitions

* `Bucket`: The tokens, and when some were last granted.
* `grant`, `arrive`: A request.
* `serve`: A sequence of requests, with the answers.
* `inWindow`: A request in a window of time that was let through.

## Theorems

* `arrive_tokens`, `arrive_last`: What a request does to the bucket.
* `count_until`, `count_window`: How many requests are let through.
* `serve_of_increasing`: Requests that are all let through.
-/

namespace TokenBucket

/-- The tokens, and when some were last granted. -/
structure Bucket where
  tokens : Nat
  last : Nat
deriving DecidableEq, Repr

variable (cap init : Nat)

/-- One token for each unit of time that has passed. -/
def grant (b : Bucket) (now : Nat) : Bucket :=
  if b.last < now then ⟨min (b.tokens + (now - b.last)) cap, now⟩ else b

/-- Take a token, if there is one. -/
def spend (b : Bucket) : Bucket × Bool :=
  if 0 < b.tokens then (⟨b.tokens - 1, b.last⟩, true) else (b, false)

/-- A request. The first one is answered from a new bucket. -/
def arrive (b : Option Bucket) (now : Nat) : Bucket × Bool :=
  match b with
  | none => spend ⟨init, now⟩
  | some b => spend (grant cap b now)

/-- Requests at these times, with the answers. -/
def serve : Option Bucket → List Nat → List (Nat × Bool)
  | _, [] => []
  | b, now :: rest =>
    (now, (arrive cap init b now).2) :: serve (some (arrive cap init b now).1) rest

/-- A request in a window of time that was let through. -/
def inWindow (s t : Nat) (x : Nat × Bool) : Bool :=
  decide (s ≤ x.1) && decide (x.1 ≤ t) && x.2

/-- How many tokens a request takes. -/
def taken (passed : Bool) : Nat :=
  if passed then 1 else 0

section Step

variable (b : Bucket) (now : Nat)

theorem spend_spec : (spend b).1.tokens + taken (spend b).2 = b.tokens ∧
    (spend b).1.last = b.last := by
  unfold spend taken
  by_cases h : 0 < b.tokens
  · rw [if_pos h]
    exact ⟨Nat.sub_add_cancel h, rfl⟩
  · rw [if_neg h]
    exact ⟨rfl, rfl⟩

/-- A request takes a token out of what was there and what was granted, and
    there is never more than the capacity. -/
theorem arrive_tokens (hb : b.tokens ≤ cap) :
    (arrive cap init (some b) now).1.tokens + taken (arrive cap init (some b) now).2
      ≤ min cap (b.tokens + (now - b.last)) := by
  simp only [arrive]
  rw [(spend_spec (grant cap b now)).1, grant]
  by_cases h : b.last < now
  · rw [if_pos h]
    exact le_of_eq (min_comm _ _)
  · rw [if_neg h]
    exact le_min hb (Nat.le_add_right _ _)

/-- The time of the last grant is that of the last request. -/
theorem arrive_last (hnow : b.last ≤ now) : (arrive cap init (some b) now).1.last = now := by
  simp only [arrive]
  rw [(spend_spec (grant cap b now)).2, grant]
  by_cases h : b.last < now
  · rw [if_pos h]
  · rw [if_neg h]
    omega

theorem arrive_first :
    (arrive cap init none now).1.tokens + taken (arrive cap init none now).2 = init ∧
    (arrive cap init none now).1.last = now :=
  spend_spec ⟨init, now⟩

/-- A request some time after the last one is let through. -/
theorem arrive_later (hcap : 0 < cap) (hnow : b.last < now) :
    (arrive cap init (some b) now).2 = true := by
  have hpos : 0 < (grant cap b now).tokens := by
    rw [grant, if_pos hnow]
    exact lt_min (by omega) hcap
  simp only [arrive, spend, if_pos hpos]

end Step

/-- The bucket is not fuller than it may be, and not ahead of time. -/
def Ready (b : Option Bucket) (now : Nat) : Prop :=
  ∀ b', b = some b' → b'.tokens ≤ cap ∧ b'.last ≤ now

/-- After a request the bucket is as it should be at any later time. -/
theorem ready_arrive (b : Option Bucket) (now later : Nat) (hinit : init ≤ cap)
    (hb : Ready cap b now) (hlater : now ≤ later) :
    Ready cap (some (arrive cap init b now).1) later := by
  intro b' hb'
  rw [← Option.some.inj hb']
  cases b with
  | none =>
      rcases arrive_first cap init now with ⟨htokens, hlast⟩
      exact ⟨by omega, by omega⟩
  | some b =>
      rcases hb b rfl with ⟨hle, hnow⟩
      have htokens := arrive_tokens cap init b now hle
      have hlast := arrive_last cap init b now hnow
      have hcap := Nat.min_le_left cap (b.tokens + (now - b.last))
      exact ⟨by omega, by omega⟩

theorem countP_serve_cons (P : Nat × Bool → Bool) (b : Option Bucket) (now : Nat)
    (rest : List Nat) :
    (serve cap init b (now :: rest)).countP P
      = (serve cap init (some (arrive cap init b now).1) rest).countP P
      + if P (now, (arrive cap init b now).2) then 1 else 0 := by
  rw [serve, List.countP_cons]

/-- What a request adds to the count is at most what it takes. -/
theorem inWindow_le (s t now : Nat) (passed : Bool) :
    (if inWindow s t (now, passed) then 1 else 0) ≤ taken passed := by
  unfold inWindow taken
  cases passed with
  | true =>
      simp only [if_true]
      split <;> omega
  | false => simp only [Bool.and_false, Bool.false_eq_true, if_false, le_refl]

/-- No request of a sequence that starts after the window is in it. -/
theorem count_after (s t : Nat) (times : List Nat) (hafter : ∀ now ∈ times, t < now) :
    ∀ b, (serve cap init b times).countP (inWindow s t) = 0 := by
  induction times with
  | nil =>
      intro b
      rfl
  | cons now rest ih =>
      intro b
      have hnow := hafter now List.mem_cons_self
      have hnot : inWindow s t (now, (arrive cap init b now).2) = false := by
        unfold inWindow
        rw [decide_eq_false (Nat.not_le.mpr hnow), Bool.and_false, Bool.false_and]
      rw [countP_serve_cons, ih (fun x hx => hafter x (List.mem_cons_of_mem now hx)), hnot]
      rfl

/-- Up to a time no more requests are let through than there are tokens in the
    bucket and units of time left. -/
theorem count_until (s t : Nat) (times : List Nat) :
    ∀ b : Bucket, b.tokens ≤ cap → times.Pairwise (· ≤ ·) → (∀ now ∈ times, b.last ≤ now) →
      (serve cap init (some b) times).countP (inWindow s t) ≤ b.tokens + (t - b.last) := by
  induction times with
  | nil =>
      intro b _ _ _
      exact Nat.zero_le _
  | cons now rest ih =>
      intro b hb hsorted hlast
      rcases List.pairwise_cons.mp hsorted with ⟨hfirst, hrest⟩
      have hnow := hlast now List.mem_cons_self
      by_cases hwindow : now ≤ t
      · have htokens := arrive_tokens cap init b now hb
        have hlast' := arrive_last cap init b now hnow
        have hmin := Nat.min_le_right cap (b.tokens + (now - b.last))
        have hcap := Nat.min_le_left cap (b.tokens + (now - b.last))
        have htail := ih (arrive cap init (some b) now).1 (by omega) hrest
          (fun x hx => by rw [hlast']; exact hfirst x hx)
        have hone := inWindow_le s t now (arrive cap init (some b) now).2
        rw [countP_serve_cons]
        omega
      -- This request is past the window, and so are all that follow.
      · rw [count_after]
        · exact Nat.zero_le _
        · intro x hx
          rcases List.mem_cons.mp hx with heq | hmem
          · omega
          · have hle := hfirst x hmem
            omega

/-- In a window of time no more requests are let through than the capacity
    and the units of time in it. -/
theorem count_window (s t : Nat) (hinit : init ≤ cap) (times : List Nat) :
    ∀ b : Option Bucket, times.Pairwise (· ≤ ·) → (∀ now ∈ times, Ready cap b now) →
      (serve cap init b times).countP (inWindow s t) ≤ cap + (t - s) := by
  induction times with
  | nil =>
      intro b _ _
      exact Nat.zero_le _
  | cons now rest ih =>
      intro b hsorted hready
      rcases List.pairwise_cons.mp hsorted with ⟨hfirst, hrest⟩
      have hb := hready now List.mem_cons_self
      by_cases hbefore : now < s
      -- A request before the window is not in it.
      · have hnot : inWindow s t (now, (arrive cap init b now).2) = false := by
          unfold inWindow
          rw [decide_eq_false (Nat.not_le.mpr hbefore), Bool.false_and, Bool.false_and]
        rw [countP_serve_cons, hnot]
        exact ih _ hrest (fun x hx => ready_arrive cap init b now x hinit hb (hfirst x hx))
      -- From the first request in the window on, the capacity is what counts.
      · have hstep : (arrive cap init b now).1.tokens + taken (arrive cap init b now).2 ≤ cap ∧
            (arrive cap init b now).1.last = now := by
          cases b with
          | none =>
              rcases arrive_first cap init now with ⟨htokens, hlast⟩
              exact ⟨by omega, hlast⟩
          | some b =>
              rcases hb b rfl with ⟨hle, hnow⟩
              exact ⟨le_trans (arrive_tokens cap init b now hle) (Nat.min_le_left _ _),
                arrive_last cap init b now hnow⟩
        rcases hstep with ⟨htokens, hlast⟩
        have htail := count_until cap init s t rest (arrive cap init b now).1 (by omega) hrest
          (fun x hx => by rw [hlast]; exact hfirst x hx)
        have hone := inWindow_le s t now (arrive cap init b now).2
        rw [countP_serve_cons]
        omega

/-- Requests at different times are all let through. -/
theorem serve_of_increasing (hinit : 0 < init) (hcap : 0 < cap) (times : List Nat) :
    ∀ b : Option Bucket, times.Pairwise (· < ·) →
      (∀ b', b = some b' → ∀ now ∈ times, b'.last < now) →
      ∀ x ∈ serve cap init b times, x.2 = true := by
  induction times with
  | nil =>
      intro b _ _ x hx
      exact absurd hx List.not_mem_nil
  | cons now rest ih =>
      intro b hsorted hlater x hx
      rcases List.pairwise_cons.mp hsorted with ⟨hfirst, hrest⟩
      have hstep : (arrive cap init b now).2 = true ∧ (arrive cap init b now).1.last = now := by
        cases b with
        | none =>
            refine ⟨?_, (arrive_first cap init now).2⟩
            simp only [arrive, spend, if_pos hinit]
        | some b =>
            have hnow := hlater b rfl now List.mem_cons_self
            exact ⟨arrive_later cap init b now hcap hnow, arrive_last cap init b now (by omega)⟩
      rw [serve] at hx
      rcases List.mem_cons.mp hx with heq | hmem
      · rw [heq]
        exact hstep.1
      · refine ih (some (arrive cap init b now).1) hrest ?_ x hmem
        intro b' hb' y hy
        rw [← Option.some.inj hb', hstep.2]
        exact hfirst y hy

end TokenBucket
