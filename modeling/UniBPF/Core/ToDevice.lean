import Mathlib.Data.List.Basic

/-!
# Sending Packets

`unikraft/todevice.cc`: the element at the end of a path through the router.
As the end of a pull path it is run as a task. A run pulls packets from its
input and hands each one to the network device, up to a limit.

The loop pulls one packet ahead: it has the next packet in hand when it looks
at the limit. `push` copies a packet into a buffer of its own and tries until
the device takes it. The device may not be ready any number of times before
that, and a buffer may not be had at all.

What comes from outside is part of a task: the packets that arrive upstream
before each pull, whether a buffer is there for each packet, and how often the
device is not ready for it.

## Main definitions

* `Task`, `Task.Buffered`: What a run meets.
* `ToDevice`: The element, the queue before it, and what it has done.
* `ToDevice.pull`, `ToDevice.push`, `ToDevice.runTask`: The code.
-/

namespace UniBPF

variable {α : Type}

/-- What a run of the task meets, by the number of the pull: arrivals before
    it, a buffer for its packet, and answers of a device that is not ready. -/
structure Task (α : Type) where
  arrivals : Nat → List α
  buffer : Nat → Bool
  notReady : Nat → Nat

/-- There is always a buffer. -/
def Task.Buffered (t : Task α) : Prop :=
  ∀ k, t.buffer k = true

/-- The answer of `uk_netdev_tx_one`, as the loop around it sees it: any status
    but not ready ends the loop. The device is taken to report no error, so that
    it has the packet then. -/
inductive TxStatus where
  | notReady
  | taken
deriving DecidableEq, Repr

/-- The queue upstream, the packets that were pulled, the calls of the device,
    and what went on to the output. -/
structure ToDevice (α : Type) where
  queue : List α
  pulled : List α
  tx : List (α × TxStatus)
  out : List α
deriving DecidableEq, Repr

/-- Before the first task. -/
def ToDevice.start (queue : List α) : ToDevice α :=
  ⟨queue, [], [], []⟩

/-- The packets the device has taken, in order. -/
def ToDevice.handed (s : ToDevice α) : List α :=
  (s.tx.filter fun call => call.2 == .taken).map Prod.fst

/-- `input(0).pull()`. -/
def ToDevice.pull (s : ToDevice α) (t : Task α) (k : Nat) : Option α × ToDevice α :=
  match s.queue ++ t.arrivals k with
  | [] => (none, { s with queue := [] })
  | p :: rest => (some p, { s with queue := rest, pulled := s.pulled ++ [p] })

/-- The loop around `uk_netdev_tx_one`. -/
def txLoop (p : α) : Nat → List (α × TxStatus)
  | 0 => [(p, .taken)]
  | n + 1 => (p, .notReady) :: txLoop p n

/-- `ToDevice::push`. A packet without a buffer is neither sent nor passed
    on. -/
def ToDevice.push (s : ToDevice α) (t : Task α) (k : Nat) (p : α) : ToDevice α :=
  if !t.buffer k then s
  else { s with tx := s.tx ++ txLoop p (t.notReady k), out := s.out ++ [p] }

/-- The loop of `run_task`, with `n` rounds left, after pull number `k`. -/
def burstLoop (t : Task α) : Nat → Nat → Option α → ToDevice α → ToDevice α
  -- At the limit the packet in hand is let go.
  | 0, _, _, s => s
  | _ + 1, _, none, s => s
  | n + 1, k, some p, s =>
    let (next, s') := (s.push t k p).pull t (k + 1)
    burstLoop t n (k + 1) next s'

/-- The burst size. -/
def burstSize : Nat := 128

/-- `ToDevice::run_task`. The loop counts in a variable of its own, so the one
    that is looked at in the end is still zero. -/
def ToDevice.runTask (s : ToDevice α) (t : Task α) : ToDevice α × Bool :=
  let i := 0
  let (first, s') := s.pull t 0
  (burstLoop t burstSize 0 first s', decide (0 < i))

end UniBPF
