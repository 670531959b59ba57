import UniBPF.Core.ToDevice
import UniBPF.Lib.Steps
import Mathlib.Algebra.GroupWithZero.Nat

/-!
# What the Device Gets

Every packet that `ToDevice` pulls is to be handed to the device. In a run of
its task all but one are: the loop always has the next packet in hand, and
when it comes to its limit of 128 it ends, and that packet is in no queue any
more and with no device. Nothing frees it either.

A run that finds its queue empty before the limit has nothing in hand at the
end. So packets are lost exactly in the runs whose 129 pulls all find a packet
(`to_device_iff`), one in each; the others keep the order and send nothing
twice, however often the device was not ready.

## Main definitions

* `ToDevice.Lossless`: The device got what was pulled.
* `arrivedBy`, `Drains`: The input runs dry before the limit.

## Theorems

* `burstLoop_spec`: The loop.
* `runTask_spec`: A run of the task.
* `to_device_iff`: When no packet is lost.
-/

namespace UniBPF

variable {α : Type}

/-- The device got the packets that were pulled, in their order. -/
def ToDevice.Lossless (s : ToDevice α) : Prop :=
  s.handed = s.pulled

/-- How many packets arrive before the pulls from number `k` on, `i` pulls
    further. -/
def arrivedBy (t : Task α) (k i : Nat) : Nat :=
  ((List.range (i + 1)).map fun j => (t.arrivals (k + j)).length).sum

/-- With so many packets waiting, one of the next `n` pulls finds none. -/
def RunsDry (t : Task α) (k n waiting : Nat) : Prop :=
  ∃ i, i < n ∧ waiting + arrivedBy t k i ≤ i

/-- The input runs dry before the limit: by some pull, the packets that were
    there and those that arrived are no more than the pulls before it. -/
def Drains (t : Task α) (queue : List α) : Prop :=
  RunsDry t 0 (burstSize + 1) queue.length

theorem arrivedBy_zero (t : Task α) (k : Nat) : arrivedBy t k 0 = (t.arrivals k).length := by
  simp only [arrivedBy, Nat.zero_add, List.range_one, List.map_cons, List.map_nil, List.sum_cons,
    List.sum_nil, Nat.add_zero]

theorem arrivedBy_succ (t : Task α) (k i : Nat) :
    arrivedBy t k (i + 1) = (t.arrivals k).length + arrivedBy t (k + 1) i := by
  have hshift : (List.range (i + 1)).map ((fun j => (t.arrivals (k + j)).length) ∘ Nat.succ) =
      (List.range (i + 1)).map fun j => (t.arrivals (k + 1 + j)).length := by
    refine List.map_congr_left fun j _ => ?_
    rw [Function.comp_apply, Nat.succ_eq_add_one, Nat.add_right_comm, Nat.add_assoc]
  rw [arrivedBy, List.range_succ_eq_map, List.map_cons, List.sum_cons, List.map_map, hshift,
    Nat.add_zero, arrivedBy]

/-- The next pull finds nothing, or it takes one packet and the others come
    after it. -/
theorem runsDry_succ (t : Task α) (k n waiting : Nat) :
    RunsDry t k (n + 1) waiting ↔ waiting + (t.arrivals k).length = 0 ∨
      (0 < waiting + (t.arrivals k).length ∧
        RunsDry t (k + 1) n (waiting + (t.arrivals k).length - 1)) := by
  constructor
  · rintro ⟨i, hi, hle⟩
    by_cases hdry : waiting + (t.arrivals k).length = 0
    · exact .inl hdry
    · refine .inr ⟨by omega, ?_⟩
      cases i with
      | zero =>
          rw [arrivedBy_zero] at hle
          omega
      | succ i =>
          rw [arrivedBy_succ] at hle
          exact ⟨i, by omega, by omega⟩
  · intro hor
    rcases hor with hdry | ⟨hpos, i, hi, hle⟩
    · refine ⟨0, by omega, ?_⟩
      rw [arrivedBy_zero]
      omega
    · refine ⟨i + 1, by omega, ?_⟩
      rw [arrivedBy_succ]
      omega

/-- Without arrivals the input runs dry if the queue is no longer than the
    limit. -/
theorem drains_iff_of_no_arrivals (t : Task α) (queue : List α) (h : ∀ k, t.arrivals k = []) :
    Drains t queue ↔ queue.length ≤ burstSize := by
  have hnone : ∀ i k, arrivedBy t k i = 0 := by
    intro i
    induction i with
    | zero =>
        intro k
        rw [arrivedBy_zero, h, List.length_nil]
    | succ i ih =>
        intro k
        rw [arrivedBy_succ, ih, h, List.length_nil]
  constructor
  · rintro ⟨i, hi, hle⟩
    rw [hnone] at hle
    omega
  · intro hle
    refine ⟨queue.length, by omega, ?_⟩
    rw [hnone]
    omega

section Loop

variable (t : Task α) (ht : t.Buffered)

/-- However often the device is not ready, it takes the packet once. -/
theorem taken_txLoop (p : α) (n : Nat) :
    ((txLoop p n).filter fun call => call.2 == .taken).map Prod.fst = [p] := by
  induction n with
  | zero => rfl
  | succ n ih =>
      rw [txLoop, List.filter_cons_of_neg
        (by simp only [beq_iff_eq, reduceCtorEq, not_false_eq_true])]
      exact ih

include ht

theorem push_handed (s : ToDevice α) (k : Nat) (p : α) :
    (s.push t k p).handed = s.handed ++ [p] ∧ (s.push t k p).pulled = s.pulled ∧
      (s.push t k p).queue = s.queue := by
  unfold ToDevice.push
  rw [ht k]
  refine ⟨?_, rfl, rfl⟩
  simp only [Bool.not_true, Bool.false_eq_true, if_false, ToDevice.handed, List.filter_append,
    List.map_append, taken_txLoop]

omit ht in
/-- A pull finds the first packet that waits, or there is none. -/
theorem pull_cases (s : ToDevice α) (k : Nat) :
    (s.queue.length + (t.arrivals k).length = 0 ∧ s.pull t k = (none, { s with queue := [] })) ∨
      ∃ p rest, s.queue.length + (t.arrivals k).length = rest.length + 1 ∧
        s.pull t k = (some p, { s with queue := rest, pulled := s.pulled ++ [p] }) := by
  unfold ToDevice.pull
  rw [← List.length_append]
  cases s.queue ++ t.arrivals k with
  | nil => exact .inl ⟨rfl, rfl⟩
  | cons p rest => exact .inr ⟨p, rest, rfl, rfl⟩

/-- The loop. Going in, all that was pulled has been handed on but the packet
    in hand; coming out, that is so again, and there is a packet in hand only
    if no pull came back empty. -/
theorem burstLoop_spec (n : Nat) : ∀ (k : Nat) (inHand : Option α) (s : ToDevice α),
    s.handed ++ inHand.toList = s.pulled →
    ∃ left : Option α, (burstLoop t n k inHand s).handed ++ left.toList
      = (burstLoop t n k inHand s).pulled ∧
      (left = none ↔ inHand = none ∨ RunsDry t (k + 1) n s.queue.length) := by
  induction n with
  | zero =>
      intro k inHand s h
      refine ⟨inHand, h, fun hnone => .inl hnone, fun hor => ?_⟩
      rcases hor with hnone | ⟨i, hi, -⟩
      · exact hnone
      · omega
  | succ n ih =>
      intro k inHand s h
      cases inHand with
      | none => exact ⟨none, h, fun _ => .inl rfl, fun _ => rfl⟩
      | some p =>
          -- The packet in hand goes to the device first, and nothing is outstanding.
          rcases push_handed t ht s k p with ⟨hhanded, hpulled, hqueue⟩
          have hsent : (s.push t k p).handed = (s.push t k p).pulled := by
            rw [hhanded, hpulled, ← h, Option.toList_some]
          rw [runsDry_succ, ← hqueue]
          unfold burstLoop
          rcases pull_cases t (s.push t k p) (k + 1) with ⟨hdry, hpull⟩ | ⟨q, rest, hlen, hpull⟩
          -- Nothing waits, and the next round ends the loop.
          · rw [hpull]
            rcases ih (k + 1) none { s.push t k p with queue := [] }
              (by rw [Option.toList_none, List.append_nil]; exact hsent) with ⟨left, hleft, hiff⟩
            exact ⟨left, hleft, fun _ => .inr (.inl hdry), fun _ => hiff.mpr (.inl rfl)⟩
          · rw [hpull]
            rcases ih (k + 1) (some q)
              { s.push t k p with queue := rest, pulled := (s.push t k p).pulled ++ [q] }
              (by rw [Option.toList_some, ← hsent]; rfl) with ⟨left, hleft, hiff⟩
            refine ⟨left, hleft, hiff.trans ?_⟩
            have hrest : (s.push t k p).queue.length + (t.arrivals (k + 1)).length - 1
                = rest.length := by
              omega
            rw [hrest]
            constructor
            · intro hor
              rcases hor with hnone | hlater
              · exact absurd hnone (by simp only [reduceCtorEq, not_false_eq_true])
              · exact .inr (.inr ⟨by omega, hlater⟩)
            · intro hor
              rcases hor with hnone | hdry | ⟨-, hlater⟩
              · exact absurd hnone (by simp only [reduceCtorEq, not_false_eq_true])
              · omega
              · exact .inr hlater

/-- A run of the task, from a state in which nothing was lost: one packet is
    lost if the input does not run dry. -/
theorem runTask_spec (s : ToDevice α) (h : s.Lossless) :
    ∃ left : Option α, (s.runTask t).1.handed ++ left.toList = (s.runTask t).1.pulled ∧
      (left = none ↔ Drains t s.queue) := by
  unfold ToDevice.Lossless at h
  unfold ToDevice.runTask Drains
  -- The first pull is made before the loop.
  rw [runsDry_succ]
  rcases pull_cases t s 0 with ⟨hdry, hpull⟩ | ⟨p, rest, hlen, hpull⟩
  · rw [hpull]
    rcases burstLoop_spec t ht burstSize 0 none { s with queue := [] }
      (by rw [Option.toList_none, List.append_nil]; exact h) with ⟨left, hleft, hiff⟩
    exact ⟨left, hleft, fun _ => .inl hdry, fun _ => hiff.mpr (.inl rfl)⟩
  · rw [hpull]
    rcases burstLoop_spec t ht burstSize 0 (some p)
      { s with queue := rest, pulled := s.pulled ++ [p] }
      (by rw [Option.toList_some, ← h]; rfl) with ⟨left, hleft, hiff⟩
    refine ⟨left, hleft, hiff.trans ?_⟩
    have hrest : s.queue.length + (t.arrivals 0).length - 1 = rest.length := by omega
    rw [hrest]
    constructor
    · intro hor
      rcases hor with hnone | hlater
      · exact absurd hnone (by simp only [reduceCtorEq, not_false_eq_true])
      · exact .inr ⟨by omega, hlater⟩
    · intro hor
      rcases hor with hdry | ⟨-, hlater⟩
      · omega
      · exact .inr hlater

/-- So nothing is lost in a run exactly if the input runs dry. -/
theorem runTask_lossless_iff (s : ToDevice α) (h : s.Lossless) :
    (s.runTask t).1.Lossless ↔ Drains t s.queue := by
  rcases runTask_spec t ht s h with ⟨left, hleft, hiff⟩
  rw [← hiff]
  unfold ToDevice.Lossless
  cases left with
  | none =>
      rw [Option.toList_none, List.append_nil] at hleft
      exact ⟨fun _ => rfl, fun _ => hleft⟩
  | some p =>
      refine ⟨fun hsame => ?_, fun hnone => ?_⟩
      · rw [hsame] at hleft
        exact absurd hleft (by simp only [Option.toList_some, List.append_right_eq_self,
          List.cons_ne_self, not_false_eq_true])
      · exact absurd hnone (by simp only [reduceCtorEq, not_false_eq_true])

end Loop

/-- A run of the task, with buffers, as a step. -/
def taskStep (s : ToDevice α) (t : { t : Task α // t.Buffered }) : Option (ToDevice α) :=
  some (s.runTask t.1).1

/-- In every sequence of runs, from every queue, the device always has what was
    pulled, exactly if in each run the input runs dry before the limit. -/
theorem to_device_iff (queue : List α) (tasks : List { t : Task α // t.Buffered }) :
    (∀ k s, Steps.run taskStep (.start queue) (tasks.take k) = some s → s.Lossless) ↔
      Steps.Along taskStep (fun s t => Drains t.1 s.queue) (.start queue) tasks := by
  have hstart : (ToDevice.start queue).Lossless := rfl
  rw [Steps.prefixes_iff]
  -- While nothing was lost, a run loses nothing exactly if the input runs dry in it.
  have hstep : ∀ (s : ToDevice α) (t : { t : Task α // t.Buffered }), s.Lossless →
      ((∀ s', taskStep s t = some s' → s'.Lossless) ↔ Drains t.1 s.queue) := by
    intro s t h
    rw [← runTask_lossless_iff t.1 t.2 s h]
    refine ⟨fun hall => hall _ rfl, fun hlossless s' hs' => ?_⟩
    rw [← Option.some.inj hs']
    exact hlossless
  rw [← Steps.along_iff taskStep _ _ ToDevice.Lossless hstep (fun s t s' _ hall hs' => hall s' hs')
    tasks (.start queue) hstart]
  exact ⟨fun h => h.2, fun h => ⟨hstart, h⟩⟩

/-- A run with a device that is always ready and nothing that arrives. -/
def quietTask : { t : Task Nat // t.Buffered } :=
  ⟨⟨fun _ => [], fun _ => true, fun _ => 0⟩, fun _ => rfl⟩

/-- Of 129 packets the last one is pulled and not sent. -/
theorem last_of_129_lost :
    ∃ s, Steps.run taskStep (.start (List.range 129)) [quietTask] = some s ∧ s.queue = [] ∧
      s.pulled = List.range 129 ∧ s.handed = List.range 128 ∧ ¬ s.Lossless := by
  have hpulled : ((ToDevice.start (List.range 129)).runTask quietTask.1).1.pulled
      = List.range 129 := by
    decide +kernel
  have hhanded : ((ToDevice.start (List.range 129)).runTask quietTask.1).1.handed
      = List.range 128 := by
    decide +kernel
  refine ⟨_, rfl, by decide +kernel, hpulled, hhanded, ?_⟩
  intro hlossless
  rw [ToDevice.Lossless, hpulled, hhanded] at hlossless
  have hlength := congrArg List.length hlossless
  rw [List.length_range, List.length_range] at hlength
  omega

end UniBPF
