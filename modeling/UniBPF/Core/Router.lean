import Mathlib.Data.Nat.Digits.Defs
import Mathlib.Data.List.DropRight
import UniBPF.Core.Control
import UniBPF.Core.Element

/-!
# The Router Under a Control Packet

The second half of `Control::push`: once the fields of a packet are known, the
loop over the elements of the router. Every BPF element with the id of the
packet has its `config` handler written with a configuration string made by
`asprintf`, which takes the names as C strings.

The handler is Click's. It splits the string into arguments with `cp_argvec`
and hands them to `configure`, where an `Args` chain reads them. Neither is
part of this system. `argvec` stands for the first and `Platform.parseArgs`
for the second, and `ClickConf` states what their documentation says of them:
a string without quotes and comments is split at its commas and every
argument is stripped of space, and a keyword is read from an argument that
starts with it. Which of two arguments with one keyword is read is left open.

## Main definitions

* `RouterElement`: An element of the router, with its `config` handler.
* `cStr`, `decimal`, `controlConfig`: The configuration string.
* `controlWrite`, `controlLoop`: The loop of `Control::push`.
* `plainConf`, `topLevelArgs`: Splitting a string without quotes.
* `keywordValue`, `Reads`: Reading a keyword.
* `ClickConf`: What is taken from Click.
-/

namespace UniBPF

/-- An element of the router. A BPF element has a `config` handler that is
    there and writable, or not. -/
inductive RouterElement where
  | bpf (cls : ElementClass) (handler : Bool) (element : Element)
  | other (className : Bytes)

/-- `c_str`: what a C string shows of a byte string. -/
def cStr (s : Bytes) : Bytes :=
  s.takeWhile (· != 0)

/-- `%lu`. -/
def decimal (n : Nat) : Bytes :=
  if n = 0 then [48] else ((Nat.digits 10 n).map fun d => UInt8.ofNat (48 + d)).reverse

/-- `"ID %lu, FILE %s, SIGNATURE %s"`. -/
def controlConfig (f : ControlFields) : Bytes :=
  helperName "ID " ++ decimal f.bpfelementId ++ 44 :: (helperName " FILE " ++
    cStr f.programName ++ 44 :: (helperName " SIGNATURE " ++ cStr f.signature))

/-- One round of the loop: the element and the page table afterwards, and what
    the write returned if there was one. A write that does not return has no
    outcome. -/
def controlWrite (P : Platform) (argvec : Bytes → List Bytes) (f : ControlFields)
    (call : ConfigureCall) (as : AddressSpace) :
    RouterElement → Option ((RouterElement × Option Result) × AddressSpace)
  | .other className => some ((.other className, none), as)
  | .bpf cls handler e =>
    if e.id ≠ f.bpfelementId then some ((.bpf cls handler e, none), as)
    else if !handler then some ((.bpf cls handler e, none), as)
    else
      match configure P cls ⟨e, as⟩ { call with conf := argvec (controlConfig f) } with
      | some (.returned r w) => some ((.bpf cls handler w.element, some r), w.space)
      | _ => none

/-- The loop of `Control::push` over the elements. A failed write does not end
    it. -/
def controlLoop (P : Platform) (argvec : Bytes → List Bytes) (f : ControlFields)
    (call : Nat → ConfigureCall) :
    Nat → List RouterElement → AddressSpace →
      Option (List (RouterElement × Option Result) × AddressSpace)
  | _, [], as => some ([], as)
  | i, x :: xs, as =>
    match controlWrite P argvec f (call i) as x with
    | none => none
    | some (y, as') =>
      (controlLoop P argvec f call (i + 1) xs as').map fun rest => (y :: rest.1, rest.2)

/-- `isspace`. -/
def isSpace (b : UInt8) : Bool :=
  b == 32 || (9 ≤ b && b ≤ 13)

def trimSpace (s : Bytes) : Bytes :=
  (s.dropWhile isSpace).rdropWhile isSpace

/-- No quote, no backslash and no comment. -/
def plainConf : Bytes → Bool
  | [] => true
  | b :: rest =>
    b != 34 && b != 39 && b != 92 &&
      !(b == 47 && (rest.head? == some 47 || rest.head? == some 42)) && plainConf rest

/-- The arguments of a plain string: what stands between its commas, without
    the space around it. An empty argument at the end does not count. -/
def topLevelArgs (s : Bytes) : List Bytes :=
  let args := (s.splitOn 44).map trimSpace
  if args.getLast? = some [] then args.dropLast else args

/-- The value an argument gives for a keyword. -/
def keywordValue : Bytes → Bytes → Option Bytes
  | [], [] => some []
  | [], b :: rest => if isSpace b then some ((b :: rest).dropWhile isSpace) else none
  | _ :: _, [] => none
  | c :: k, b :: rest => if c = b then keywordValue k rest else none

/-- A member read from the keyword `k`: not given, or the value of an argument
    that gives it. -/
def Reads {α : Type*} (k : Bytes) (parse : Bytes → Option α) (conf : List Bytes) :
    Option α → Prop
  | none => ∀ arg ∈ conf, keywordValue k arg = none
  | some x => ∃ arg ∈ conf, ∃ v, keywordValue k arg = some v ∧ parse v = some x

/-- What is taken from Click. -/
structure ClickConf (argvec : Bytes → List Bytes) (parseArgs : List Bytes → Option ConfArgs)
    (intArg : Bytes → Option Nat) (boolArg : Bytes → Option Bool) : Prop where
  splits : ∀ s, plainConf s = true → argvec s = topLevelArgs s
  intArg_decimal : ∀ n, n < 2 ^ 64 → intArg (decimal n) = some n
  id : ∀ conf args, parseArgs conf = some args → Reads (helperName "ID") intArg conf args.id
  jit : ∀ conf args, parseArgs conf = some args → Reads (helperName "JIT") boolArg conf args.jit
  dumpJit : ∀ conf args, parseArgs conf = some args →
    Reads (helperName "DUMP_JIT") boolArg conf args.dumpJit
  file : ∀ conf args, parseArgs conf = some args →
    Reads (helperName "FILE") some conf args.file
  signature : ∀ conf args, parseArgs conf = some args →
    Reads (helperName "SIGNATURE") some conf args.signature

end UniBPF
