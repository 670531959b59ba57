import UniBPF.Theory.NatPorts

/-!
# The Port Allocator

The allocator of the address translator on its own: one call after another,
from the map as it is loaded. The counter is zero at first, and the first
call sets it before it reads it a second time, so the calls hand out
50000, 50001, and so on up to 65534, and then start over.

The counter is subtracted from as an unsigned number. What is subtracted
from is never below the first port, which is the invariant that also gives
the range of the ports and that they differ.

## Main definitions

* `portOperand`: What the subtraction of `next_port` works on.
* `allocatePorts`: The ports of a number of calls.
* `Counted`: The map after a number of calls.

## Theorems

* `counted_step`: One more call.
* `allocatePorts_counted`: The ports of a number of calls.
* `port_allocator`: Every call, its range, and that the ports differ.
-/

namespace UniBPF

open LittleEndian

/-- What the subtraction of `next_port` works on: what is stored, once a
    counter that was never used has been set. -/
def portOperand (map : BpfMap) : Option UInt32 :=
  match bpfMapLookupElem map (toLE 4 0) with
  | some (some value) => some (if Bytes.u32 value 0 = 0 then portStart else Bytes.u32 value 0)
  | _ => none

/-- The ports of `n` calls of `next_port`, and the map afterwards. There is
    no result if a call has none, or returns its error. -/
def allocatePorts : Nat → BpfMap → Option (List UInt16 × BpfMap)
  | 0, map => some ([], map)
  | n + 1, map =>
    match nextPort map with
    | some (some (port, map')) =>
      (allocatePorts n map').map fun rest => (port :: rest.1, rest.2)
    | _ => none

/-- The map after `k` calls. -/
def Counted (map : BpfMap) (k : Nat) : Prop :=
  ∃ m : NatMaps, m.nextPort = map ∧ m.Sound ∧ m.port.toNat = 50000 + k % portCount

theorem counted_new : Counted NatMaps.new.nextPort 0 :=
  ⟨NatMaps.new, rfl, NatMaps.new_sound, rfl⟩

/-- The subtraction does not underflow. -/
theorem Counted.operand {map : BpfMap} {k : Nat} (h : Counted map k) :
    ∃ value, portOperand map = some value ∧ portStart ≤ value := by
  rcases h with ⟨m, rfl, hm, hport⟩
  rcases hm.nextPort with ⟨block, heq, hlen⟩
  refine ⟨m.port, ?_, ?_⟩
  · simp only [portOperand, NatMaps.port, NatMaps.counter, heq, lookup_nextPort block hlen]
  · rw [UInt32.le_iff_toNat_le, hport]
    exact Nat.le_add_right 50000 _

theorem counted_step (map : BpfMap) (k : Nat) (h : Counted map k) :
    ∃ port map', nextPort map = some (some (port, map')) ∧
      port.toNat = 50000 + k % portCount ∧ Counted map' (k + 1) := by
  rcases h with ⟨m, rfl, hm, hport⟩
  rcases nextPort_sound m hm with ⟨map', hcall, hsound, hcounter⟩
  exact ⟨m.port.toUInt16, map', hcall, port_toUInt16 m k hport, ⟨m.connections, map'⟩, rfl, hsound,
    port_advanced m _ k hport hcounter⟩

/-- From a map after `k` calls, `n` more return, and each one hands out the
    port of its number. -/
theorem allocatePorts_counted (n : Nat) : ∀ (map : BpfMap) (k : Nat), Counted map k →
    ∃ ports map', allocatePorts n map = some (ports, map') ∧ Counted map' (k + n) ∧
      ports.map UInt16.toNat = (List.range' k n).map fun j => 50000 + j % portCount := by
  induction n with
  | zero =>
      intro map k h
      exact ⟨[], map, rfl, h, rfl⟩
  | succ n ih =>
      intro map k h
      rcases counted_step map k h with ⟨port, mid, hcall, hport, hmid⟩
      rcases ih mid (k + 1) hmid with ⟨ports, map', hrest, hmap', hports⟩
      refine ⟨port :: ports, map', ?_, ?_, ?_⟩
      · simp only [allocatePorts, hcall, hrest, Option.map_some]
      · rw [show k + (n + 1) = k + 1 + n by omega]
        exact hmap'
      · rw [List.map_cons, hport, hports, List.range'_succ, List.map_cons]

/-- Two calls that are less than a round apart hand out different ports. -/
theorem place_ne (i j : Nat) (hlt : i < j) (hround : j < i + portCount) :
    50000 + i % portCount ≠ 50000 + j % portCount := by
  rw [portCount] at *
  omega

theorem port_allocator (n : Nat) :
    ∃ ports map, allocatePorts n NatMaps.new.nextPort = some (ports, map) ∧ ports.length = n ∧
      (∀ k < n, ∃ port, ports[k]? = some port ∧ port.toNat = 50000 + k % 15535) ∧
      (∀ port ∈ ports, portStart.toNat ≤ port.toNat ∧ port.toNat < portEnd.toNat) ∧
      (∃ value, portOperand map = some value ∧ portStart ≤ value) ∧
      ∀ i j, i < j → j < i + 15535 → j < n → ports[i]? ≠ ports[j]? := by
  rcases allocatePorts_counted n NatMaps.new.nextPort 0 counted_new with
    ⟨ports, map, hcalls, hmap, hports⟩
  have hlen : ports.length = n := by
    have := congrArg List.length hports
    simpa only [List.length_map, List.length_range'] using this
  -- The port of each call, from the list of all of them.
  have hnth : ∀ k < n, ∃ port, ports[k]? = some port ∧ port.toNat = 50000 + k % portCount := by
    intro k hk
    have hget := congrArg (fun l => l[k]?) hports
    rw [← hlen] at hk
    simp only [List.getElem?_map, List.getElem?_eq_getElem hk, Option.map_some] at hget
    rw [List.getElem?_range' (by rw [← hlen]; exact hk)] at hget
    simp only [Option.map_some, Option.some.injEq, Nat.zero_add, Nat.one_mul] at hget
    exact ⟨ports[k], List.getElem?_eq_getElem hk, hget⟩
  refine ⟨ports, map, hcalls, hlen, hnth, ?_, hmap.operand, ?_⟩
  · intro port hmem
    rcases List.getElem?_of_mem hmem with ⟨k, hk⟩
    have hkn : k < n := hlen ▸ (List.getElem?_eq_some_iff.mp hk).1
    rcases hnth k hkn with ⟨port', hk', hport⟩
    have hsame : port' = port := Option.some.inj (hk'.symm.trans hk)
    have hlt : k % portCount < portCount := Nat.mod_lt _ (by decide)
    rw [← hsame, hport]
    simp only [portStart, portEnd, portCount, UInt32.reduceToNat] at hlt ⊢
    omega
  · intro i j hlt hround hj heq
    rcases hnth i (by omega) with ⟨x, hx, hxport⟩
    rcases hnth j hj with ⟨y, hy, hyport⟩
    rw [hx, hy, Option.some.injEq] at heq
    exact place_ne i j hlt hround (by rw [← hxport, ← hyport, heq])

end UniBPF
