import UniBPF.Core.Inst

/-!
# Tracing

`bpf_trace_printk` of `helper/bpf_helpers.cc`. A program calls it with a format,
the length of the format, and pointers to the values the format is about. The
strings of a program have no zero byte at their end, so the helper makes a copy
and puts one there. How many values there are it takes from the format: it
counts the percent signs, up to the first zero byte.

The memory from the pointer on is a function of the index, since the helper may
look further than the length says. Which value meets which conversion depends on
the order in which a compiler evaluates arguments, so only their number is kept.

## Main definitions

* `TraceFormat`: What the helper is called with.
* `countPercents`: The loop.
* `bpfTracePrintk`: The helper, up to its call of `printf`.
-/

namespace UniBPF

/-- The memory behind `fmt`, and `fmt_size`, which is an `int`. -/
structure TraceFormat where
  fmt : Nat → UInt8
  fmtSize : Nat
  isInt : fmtSize < 2 ^ 31

/-- The bytes of the format. -/
def TraceFormat.bytes (f : TraceFormat) : Bytes :=
  (List.range f.fmtSize).map f.fmt

/-- A call of `printf`: the indexes of the bytes that were looked at on the way,
    the string it gets as its format, and how many pointers were dereferenced for
    its other arguments. -/
structure PrintfCall where
  inspected : List Nat
  format : Bytes
  dereferenced : Nat
deriving DecidableEq, Repr

/-- The loop that counts, with `n` bytes up to `fmt_size`: the count, and the
    indexes it looked at. A byte is looked at before its index is. -/
def countPercents (fmt : Nat → UInt8) : Nat → Nat → Nat → Nat × List Nat
  | 0, i, varArgs => (varArgs, [i])
  | n + 1, i, varArgs =>
    if fmt i = 0 then (varArgs, [i])
    else
      let (count, looked) := countPercents fmt n (i + 1) (varArgs + if fmt i = 37 then 1 else 0)
      (count, i :: looked)

/-- The `switch`: how many pointers are dereferenced for this count. -/
def dereferenced (varArgs : Nat) : Nat :=
  match varArgs with
  | 1 => 1
  | 2 => 2
  | 3 => 3
  | 4 => 4
  | _ => 0

/-- What a function of the C library takes a pointer to these bytes for. -/
def untilZero (bytes : Bytes) : Bytes :=
  bytes.takeWhile (· ≠ 0)

/-- `bpf_trace_printk`. There is no room for the copy where its size is not an
    `int` any more. -/
def bpfTracePrintk (f : TraceFormat) : Option PrintfCall :=
  let (varArgs, looked) := countPercents f.fmt f.fmtSize 0 0
  if f.fmtSize + 1 < 2 ^ 31 then
    let fmtStr := f.bytes ++ [0]
    some ⟨looked ++ List.range f.fmtSize, untilZero fmtStr, dereferenced varArgs⟩
  else none

end UniBPF
