import UniBPF.Theory.Configure

/-!
# Lock Discipline

When the lock of an element is free between operations.

A push takes the lock for reading and gives it back on its only path, so
nothing but `configure` can leave the lock held. `configure` takes it in the
middle and releases it at the very end; each of the three error returns in
between keeps it. `Releases` says of a call that, if it takes the lock at
all, none of them is taken.

`lock_available_iff` lifts that to runs. The lock is free after every prefix
of a run exactly when every operation of the run releases it. The invariant
is the free lock itself, and it survives precisely the steps at which the
property still holds, which is the form `Steps.along_iff` asks for.

## Main definitions

* `Available`: The lock is free and no operation has to wait.
* `Releases`: The operation gives the lock back.

## Theorems

* `available_iff`: No operation waits for a free lock.
* `releases_iff`: One operation on an element whose lock is free.
* `lock_available_iff`: The lock over whole runs.
-/

namespace UniBPF

/-- The lock is free, so that neither a packet nor a call has to wait. -/
structure Available (P : Platform) (cls : ElementClass) (w : World) : Prop where
  free : w.element.lock = .free
  push : ∀ p, push cls w p ≠ some .waiting
  configure : ∀ call w', configure P cls w call ≠ some (.waiting w')

/-- The operation gives the lock back: a push always does, a call of
    `configure` does when it does not take the lock, or when its program
    loads, is accepted and, in JIT mode, compiles. -/
def Releases (P : Platform) (cls : ElementClass) (w : World) : Event → Prop
  | .push _ => True
  | .configure call => ∀ args loaded, Entered P w call args →
      loadedBy P cls w call args = some loaded →
      loaded.error = none ∧ signatureOk P call (commitArgs args w.element) = true ∧
        ((commitArgs args w.element).jit = true → (compiledBy P cls w call loaded).error = none)

variable (P : Platform) (cls : ElementClass)

theorem available_iff (w : World) : Available P cls w ↔ w.element.lock = .free := by
  constructor
  · exact fun h => h.free
  · intro hfree
    refine ⟨hfree, ?_, ?_⟩
    · intro p hwait
      unfold push at hwait
      split at hwait
      · exact absurd hwait (by simp only [Option.some.injEq, reduceCtorEq, not_false_eq_true])
      · simp only [hfree, RwLock.rlock, Option.map_eq_some_iff, reduceCtorEq, and_false,
          exists_false] at hwait
    · intro call w' hwait
      exact configure_waiting P cls w call w' hwait hfree

/-- A call that returns with the lock free released it. -/
theorem releases_of_free (w : World) (call : ConfigureCall)
    (h : ∀ w', step P cls w (.configure call) = some w' → w'.element.lock = .free) :
    Releases P cls w (.configure call) := by
  intro args loaded hin hload
  -- Were one of the error returns taken, the world it leaves has the lock held.
  have hnot : ∀ r w', Returns P cls w call r w' → w'.element.lock = .writing → False := by
    intro r w' hret hheld
    have hfree := h w' ((step_configure P cls w call w').mpr ⟨r, hret⟩)
    rw [hheld] at hfree
    exact absurd hfree (by simp only [reduceCtorEq, not_false_eq_true])
  have herror : loaded.error = none := by
    cases herror : loaded.error with
    | none => rfl
    | some e => exact (hnot _ _ (.loadFailed args loaded e hin hload herror) rfl).elim
  have hsig : signatureOk P call (commitArgs args w.element) = true := by
    cases hsig : signatureOk P call (commitArgs args w.element) with
    | true => rfl
    | false => exact (hnot _ _ (.rejected args loaded hin hload herror hsig) rfl).elim
  refine ⟨herror, hsig, ?_⟩
  intro hjit
  cases hcompile : (compiledBy P cls w call loaded).error with
  | none => rfl
  | some e =>
      exact (hnot _ _ (.compileFailed args loaded e hin hload herror hsig hjit hcompile) rfl).elim

/-- A call that releases the lock returns with the lock free. -/
theorem free_of_releases (w : World) (call : ConfigureCall) (hfree : w.element.lock = .free)
    (h : Releases P cls w (.configure call)) (r : Result) (w' : World)
    (hret : Returns P cls w call r w') : w'.element.lock = .free := by
  cases hret with
  | noArguments hconf => exact hfree
  | badArguments hconf hparse => exact hfree
  | unreadable args hconf hparse hfile => exact hfree
  | noVm args hconf hparse hfile hvm hcreated => exact hfree
  | loadFailed args loaded e hin hload herror =>
      have hok := (h args loaded hin hload).1
      rw [herror] at hok
      exact absurd hok (by simp only [reduceCtorEq, not_false_eq_true])
  | rejected args loaded hin hload herror hsig =>
      have hok := (h args loaded hin hload).2.1
      rw [hsig] at hok
      exact absurd hok Bool.false_ne_true
  | compileFailed args loaded e hin hload herror hsig hjit hcompile =>
      have hok := (h args loaded hin hload).2.2 hjit
      rw [hcompile] at hok
      exact absurd hok (by simp only [reduceCtorEq, not_false_eq_true])
  | interpreted args loaded hin hload herror hsig hjit => rfl
  | compiled args loaded hin hload herror hsig hjit hcompile => rfl

/-- One operation, on an element whose lock is free. -/
theorem releases_iff (w : World) (e : Event) (hfree : w.element.lock = .free) :
    (∀ w', step P cls w e = some w' → Available P cls w') ↔ Releases P cls w e := by
  simp only [available_iff]
  cases e with
  | push p =>
      refine ⟨fun _ => trivial, fun _ w' hstep => ?_⟩
      rcases step_push P cls w p w' hstep with ⟨ctx, ops, -, hw⟩
      rw [hw]
      exact hfree
  | configure call =>
      constructor
      · exact releases_of_free P cls w call
      · intro hrel w' hstep
        rcases (step_configure P cls w call w').mp hstep with ⟨r, hret⟩
        exact free_of_releases P cls w call hfree hrel r w' hret

/-- Over every run of a new element: the lock is free and nobody has to wait
    after each of its operations, exactly when each of them releases it. -/
theorem lock_available_iff (junk : Uninit) (as : AddressSpace) (es : List Event) :
    (∀ k w, Steps.run (step P cls) ⟨Element.new junk, as⟩ (es.take k) = some w →
        Available P cls w) ↔
      Steps.Along (step P cls) (Releases P cls) ⟨Element.new junk, as⟩ es := by
  have hnew : (Element.new junk).lock = .free := rfl
  -- A state of the run is the new element or what one of the steps leads to.
  rw [Steps.prefixes_iff]
  have hsteps := Steps.along_iff (step P cls)
    (fun w e => ∀ w', step P cls w e = some w' → Available P cls w') (Releases P cls)
    (fun w => w.element.lock = .free) (releases_iff P cls)
    (fun w e w' _ hstep hse => (hstep w' hse).free) es ⟨Element.new junk, as⟩ hnew
  rw [hsteps]
  exact and_iff_right ((available_iff P cls _).mpr hnew)

/-- A file that is no ELF object leaves the lock of the running sample held,
    and the next packet waits. -/
theorem lock_held_after_garbage :
    ∃ w, Steps.run (step (samplePlatform none) .bpfilter) sampleWorld
        [.configure (sampleCall ["ID 1", "JIT false", "FILE pass"]),
          .configure (sampleCall ["FILE garbage"])] = some w ∧
      push .bpfilter w ⟨true, []⟩ = some .waiting ∧
      ¬ Available (samplePlatform none) .bpfilter w := by
  have htest : Outcome.test (fun _ w => Outcome.test (fun _ w' => w'.element.lock == .writing)
      (configure (samplePlatform none) .bpfilter w (sampleCall ["FILE garbage"])))
      (configure (samplePlatform none) .bpfilter sampleWorld
        (sampleCall ["ID 1", "JIT false", "FILE pass"])) = true := by
    decide +kernel
  rcases Outcome.of_test _ _ htest with ⟨r, w, hcall, hnext⟩
  rcases Outcome.of_test _ _ hnext with ⟨r', w', hcall', hheld⟩
  rw [beq_iff_eq] at hheld
  have hwait : push .bpfilter w' ⟨true, []⟩ = some .waiting := by
    simp only [push, ElementClass.uniqueifies, Bool.false_and, Bool.false_eq_true, if_false, hheld,
      RwLock.rlock]
  exact ⟨w', by simp only [Steps.run, step, hcall, hcall'], hwait, fun h => h.push _ hwait⟩

end UniBPF
