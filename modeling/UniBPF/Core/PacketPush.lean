import UniBPF.Core.Element
import UniBPF.Core.Rewriter
import UniBPF.Lib.Handles

/-!
# What an Element Does with a Packet

`push` of the three element classes once more, as far as the packet goes:
`bpfilter.cc`, `bpfclassifier.cc` and `bpfrewriter.cc`. An element that is
pushed a packet owns it, and has to push it on or kill it.

A push is the list of what it does with packet objects, in order. Objects are
numbered as they come into being. The packet that comes in is number zero,
and an object that is made in its place has the next number: the copy that
`uniqueify` makes of a packet others hold as well, and the packet `push` or
`put` come back with when they had to move it. So a number stands for one
object and is not used again, and what is done through a pointer to an object
that is gone can be told from what is done to the packet itself.

What the element finds is an input: whether others hold the packet, how many
outputs are connected, the calls of `bpf_packet_add_space` the program makes
and what the machine returns. Only the rewriter registers that helper.

## Main definitions

* `Fate`, `PacketAct`: What is done with packets.
* `PacketPush`: What an element is handed and what it finds.
* `uniqueify`, `execRet`, `checkedOutputPush`: What the three classes share.
* `spaceActs`, `handleAfterCalls`: The calls of a rewriter program.
* `bpfilterPush`, `bpfclassifierPush`, `bpfrewriterPush`: The three classes.
-/

namespace UniBPF

open Handles

/-- What becomes of a packet in the end. -/
inductive Fate where
  | output (port : Nat)
  | killed
deriving DecidableEq, Repr

/-- Something that is done with a packet object. -/
abbrev PacketAct := Act Nat Fate

/-- Whether others hold the packet, and if so whether there is memory for a
    copy. -/
inductive Sharing where
  | alone
  | shared
  | sharedNoMemory
deriving DecidableEq, Repr

/-- A push: the packet, the element, and what the machine does. `returned` is
    `none` where the machine reports an error. -/
structure PacketPush where
  sharing : Sharing
  noutputs : Nat
  calls : List SpaceCall
  returned : Option UInt64

/-- `Packet::uniqueify`: a packet no one else holds is returned as it is; of
    any other the caller's part is released and a copy is made. -/
def uniqueify (p : Nat) : Sharing → List PacketAct × Option Nat
  | .alone => ([.touch p], some p)
  | .shared => ([.trade p (p + 1)], some (p + 1))
  | .sharedNoMemory => ([.give p .killed], none)

/-- `return -1`, as the caller sees it. -/
def execFailed : UInt32 := 0xffffffff

/-- The value of `BPFElement::exec`. -/
def execRet : Option UInt64 → UInt32
  | none => execFailed
  | some ret => ret.toUInt32

/-- `Element::checked_output_push`. -/
def checkedOutputPush (noutputs : Nat) (port : UInt32) (p : Nat) : List PacketAct :=
  if port.toNat < noutputs then [.give p (.output port.toNat)] else [.give p .killed]

/-- The object that is there after one half of `bpf_packet_add_space`. -/
def handleAfter (p : Nat) (n : Int32) (room : Room) : Nat :=
  if 0 < n ∧ room.moved.isSome then p + 1 else p

/-- What one half of it does: `push` or `put`, `pull` or `take`, or
    nothing. -/
def halfActs (p : Nat) (n : Int32) (room : Room) : List PacketAct :=
  if n ≠ 0 then if 0 < n then [.trade p (handleAfter p n room)] else [.touch p] else []

/-- The object in `_current_packet` after a call. -/
def handleAfterCall (p : Nat) (c : SpaceCall) : Nat :=
  handleAfter (handleAfter p c.head c.headRoom) c.tail c.tailRoom

/-- `bpf_packet_add_space`, which ends with `_current_packet->data()`. -/
def callActs (p : Nat) (c : SpaceCall) : List PacketAct :=
  halfActs p c.head c.headRoom ++
    halfActs (handleAfter p c.head c.headRoom) c.tail c.tailRoom ++ [.touch (handleAfterCall p c)]

def handleAfterCalls (p : Nat) (calls : List SpaceCall) : Nat :=
  calls.foldl handleAfterCall p

/-- All the calls of a program, one after another. -/
def spaceActs : Nat → List SpaceCall → List PacketAct
  | _, [] => []
  | p, c :: calls => callActs p c ++ spaceActs (handleAfterCall p c) calls

/-- `XDP_ABORTED`, `XDP_DROP` and `XDP_PASS`. -/
def xdpAborted : UInt32 := 0

def xdpDrop : UInt32 := 1

def xdpPass : UInt32 := 2

/-- `BPFilter::push`. -/
def bpfilterPush (x : PacketPush) : List PacketAct :=
  let p := 0
  let ret := execRet x.returned
  .touch p ::
    if ret = xdpDrop then [.give p .killed]
    else if ret = xdpPass then [.give p (.output 0)]
    else if ret = xdpAborted then [.give p .killed]
    else [.give p .killed]

/-- `BPFClassifier::push`. -/
def bpfclassifierPush (x : PacketPush) : List PacketAct :=
  let p := 0
  match uniqueify p x.sharing with
  | (acts, none) => acts
  | (acts, some pOut) =>
    let ret := execRet x.returned
    acts ++ .touch pOut ::
      -- The failing branch kills the packet that came in.
      if ret = execFailed then [.give p .killed] else checkedOutputPush x.noutputs ret pOut

/-- `REWRITER_ABORT` and `REWRITER_SUCCESS`. -/
def rewriterAbort : UInt32 := 0

def rewriterSuccess : UInt32 := 1

/-- `BPFRewriter::push`. -/
def bpfrewriterPush (x : PacketPush) : List PacketAct :=
  let p := 0
  match uniqueify p x.sharing with
  | (acts, none) => acts
  | (acts, some pOut) =>
    let ret := execRet x.returned
    let current := handleAfterCalls pOut x.calls
    acts ++ .touch pOut :: (spaceActs pOut x.calls ++
      if ret = rewriterSuccess then [.give current (.output 0)]
      else if ret = rewriterAbort then [.give current .killed]
      -- As above: not the packet the program has worked on.
      else [.give p .killed])

/-- `push`, by class. -/
def pushActs : ElementClass → PacketPush → List PacketAct
  | .bpfilter => bpfilterPush
  | .bpfclassifier => bpfclassifierPush
  | .bpfrewriter => bpfrewriterPush

end UniBPF
