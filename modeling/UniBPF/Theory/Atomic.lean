import UniBPF.Theory.Configure

/-!
# Failure Atomicity of Reconfiguration

What a failed call of `configure` leaves of a running element.

An element is looked at from the outside: its id and mode, what the next
packet meets, and the contents of its maps. `Unchanged` compares two worlds
by these. What the next packet meets is `service`, which is either the wait
for a lock that is held or the path `exec` takes.

A failure comes early or late. Late is after the write lock was taken: no
error return releases it, so every later packet waits and nothing about the
element is as before, whichever of the three late failures it was
(`late_failure_waits`). Early failures leave the lock and the program alone,
but an unreadable file is found out only after the arguments were committed.
So a failed call is atomic exactly when it never got to the arguments, or
could not read the file and brought no new id and no new mode.

## Main definitions

* `Service`, `service`: What the next packet meets.
* `Running`: The element runs a program.
* `Unchanged`: The element looks as before.
* `FailsHarmlessly`: The failures that change nothing.

## Theorems

* `late_failure_waits`: After a late failure every packet waits.
* `configure_atomic_iff`: A failed call changes nothing exactly when it fails
  harmlessly.
-/

namespace UniBPF

/-- What the next packet meets. -/
inductive Service where
  | waits
  | runs (path : ExecPath)
deriving DecidableEq, Repr

def service (w : World) : Service :=
  match w.element.lock.rlock with
  | none => .waits
  | some _ => .runs (execPath w)

/-- Packets are run by a program. -/
def Running (w : World) : Prop :=
  (∃ fn code, service w = .runs (.native fn code)) ∨
    ∃ program, service w = .runs (.interpreted program)

/-- The element looks as before: the same id, the same mode, the same thing
    run on every packet, and every map where and as it was. -/
structure Unchanged (w w' : World) : Prop where
  id : w'.element.id = w.element.id
  jit : w'.element.jit = w.element.jit
  service : service w' = service w
  mapByName : ∀ name a, w.element.mapCtx.mapByName name = some a →
    w'.element.mapCtx.mapByName name = some a
  maps : ∀ a map, w.element.mapCtx.mapAt a = some map → w'.element.mapCtx.mapAt a = some map

/-- The call ends before it has done anything that shows: it has no
    arguments, they are not accepted, or the file cannot be read and they
    bring neither a new id nor a new mode. -/
def FailsHarmlessly (P : Platform) (w : World) (call : ConfigureCall) : Prop :=
  call.conf = [] ∨ P.parseArgs call.conf = none ∨
    ∃ args, P.parseArgs call.conf = some args ∧ (fileOf call args w).bytes = [] ∧
      (args.id = none ∨ args.id = some w.element.id) ∧
      (args.jit = none ∨ args.jit = some w.element.jit)

theorem Unchanged.refl (w : World) : Unchanged w w :=
  ⟨rfl, rfl, rfl, fun _ _ h => h, fun _ _ h => h⟩

/-- A running element has a machine, and nobody holds its lock for
    writing. -/
theorem Running.facts (w : World) (h : Running w) :
    w.element.vm.isSome = true ∧ service w ≠ .waits := by
  have hpath : ∃ path, service w = .runs path ∧ path ≠ .wild := by
    rcases h with ⟨fn, code, hs⟩ | ⟨program, hs⟩
    · exact ⟨_, hs, by simp only [ne_eq, reduceCtorEq, not_false_eq_true]⟩
    · exact ⟨_, hs, by simp only [ne_eq, reduceCtorEq, not_false_eq_true]⟩
  rcases hpath with ⟨path, hs, hwild⟩
  refine ⟨?_, by rw [hs]; simp only [ne_eq, reduceCtorEq, not_false_eq_true]⟩
  -- Without a machine both branches of `exec` are wild.
  by_contra hnone
  rw [Option.not_isSome_iff_eq_none] at hnone
  apply hwild
  unfold service at hs
  cases hlock : w.element.lock.rlock with
  | none =>
      rw [hlock] at hs
      exact absurd hs (by simp only [reduceCtorEq, not_false_eq_true])
  | some l =>
      simp only [hlock, Service.runs.injEq] at hs
      rw [← hs]
      unfold execPath nativePath interpretedPath
      rw [hnone]
      by_cases hjit : w.element.jit = true
      · rw [if_pos hjit]
        cases w.element.jitFn <;> rfl
      · rw [if_neg hjit]

/-- Neither the lock nor the program depends on the arguments, but the branch
    of `exec` does. -/
theorem service_commitArgs (w : World) (args : ConfArgs)
    (hjit : args.jit = none ∨ args.jit = some w.element.jit) :
    service ⟨commitArgs args w.element, w.space⟩ = service w := by
  have hsame : (commitArgs args w.element).jit = w.element.jit := by
    rcases hjit with h | h <;> simp only [commitArgs, h, Option.getD_none, Option.getD_some]
  unfold service execPath
  simp only [hsame]
  rfl

/-- A result after which the lock is still held. -/
def Result.isLate : Result → Bool
  | .loadFailed _ | .rejected | .compileFailed _ => true
  | _ => false

/-- After a late failure every packet waits. -/
theorem late_failure_waits (P : Platform) (cls : ElementClass) (w : World) (call : ConfigureCall)
    (r : Result) (w' : World) (h : Returns P cls w call r w') (hlate : r.isLate = true) :
    service w' = .waits := by
  cases h with
  | loadFailed args loaded e hin hload herror => rfl
  | rejected args loaded hin hload herror hsig => rfl
  | compileFailed args loaded e hin hload herror hsig hjit hcompile => rfl
  | _ => exact absurd hlate Bool.false_ne_true

/-- A late failure has its arguments, its file and the lock. -/
theorem entered_of_late (P : Platform) (cls : ElementClass) (w : World) (call : ConfigureCall)
    (r : Result) (w' : World) (h : Returns P cls w call r w') (hlate : r.isLate = true) :
    ∃ args, Entered P w call args := by
  cases h with
  | loadFailed args loaded e hin hload herror => exact ⟨args, hin⟩
  | rejected args loaded hin hload herror hsig => exact ⟨args, hin⟩
  | compileFailed args loaded e hin hload herror hsig hjit hcompile => exact ⟨args, hin⟩
  | _ => exact absurd hlate Bool.false_ne_true

/-- A call that gets to the lock does not fail harmlessly. -/
theorem not_failsHarmlessly_of_entered (P : Platform) (w : World) (call : ConfigureCall)
    (args : ConfArgs) (hin : Entered P w call args) : ¬ FailsHarmlessly P w call := by
  rintro (hconf | hparse | ⟨args', hparse, hfile, -, -⟩)
  · exact hin.conf hconf
  · exact absurd (hin.parsed.symm.trans hparse) (by simp only [reduceCtorEq, not_false_eq_true])
  · have hargs : args = args' := Option.some.inj (hin.parsed.symm.trans hparse)
    rw [← hargs] at hfile
    exact hin.readable hfile

/-- Committing arguments shows exactly where they bring a new id or a new
    mode. -/
theorem unchanged_commitArgs_iff (w : World) (args : ConfArgs) :
    Unchanged w ⟨commitArgs args w.element, w.space⟩ ↔
      (args.id = none ∨ args.id = some w.element.id) ∧
      (args.jit = none ∨ args.jit = some w.element.jit) := by
  constructor
  -- A member that looks as before was not named, or named with its own value.
  · intro hsame
    constructor
    · have hid := hsame.id
      cases harg : args.id with
      | none => exact .inl rfl
      | some n =>
          simp only [commitArgs, harg, Option.getD_some] at hid
          exact .inr (by rw [hid])
    · have hjit := hsame.jit
      cases harg : args.jit with
      | none => exact .inl rfl
      | some b =>
          simp only [commitArgs, harg, Option.getD_some] at hjit
          exact .inr (by rw [hjit])
  · rintro ⟨hid, hjit⟩
    refine ⟨?_, ?_, service_commitArgs w args hjit, fun _ _ h => h, fun _ _ h => h⟩
    · rcases hid with h | h <;> simp only [commitArgs, h, Option.getD_none, Option.getD_some]
    · rcases hjit with h | h <;> simp only [commitArgs, h, Option.getD_none, Option.getD_some]

/-- For every running element and every call that fails: nothing has changed
    exactly when the call failed harmlessly. -/
theorem configure_atomic_iff (P : Platform) (cls : ElementClass) (w : World) (call : ConfigureCall)
    (r : Result) (w' : World) (hrun : Running w)
    (hcall : configure P cls w call = some (.returned r w')) (hfail : r ≠ .success) :
    Unchanged w w' ↔ FailsHarmlessly P w call := by
  have hret := (configure_returned P cls w call r w').mp hcall
  rcases hrun.facts with ⟨hvm, hserved⟩
  by_cases hlate : r.isLate = true
  -- Late: packets wait now and did not before, so something has changed.
  · have hwaits := late_failure_waits P cls w call r w' hret hlate
    rcases entered_of_late P cls w call r w' hret hlate with ⟨args, hin⟩
    constructor
    · intro hsame
      exact absurd (hsame.service.symm.trans hwaits) hserved
    · intro hharmless
      exact absurd hharmless (not_failsHarmlessly_of_entered P w call args hin)
  -- An early failure has changed nothing but the members the arguments name.
  · cases hret with
    | noArguments hconf => exact ⟨fun _ => .inl hconf, fun _ => .refl w⟩
    | badArguments hconf hparse => exact ⟨fun _ => .inr (.inl hparse), fun _ => .refl w⟩
    | unreadable args hconf hparse hfile =>
        rw [unchanged_commitArgs_iff]
        constructor
        · rintro ⟨hid, hjit⟩
          exact .inr (.inr ⟨args, hparse, hfile, hid, hjit⟩)
        · rintro (hnone | hbad | ⟨args', hparse', -, hid, hjit⟩)
          · exact absurd hnone hconf
          · exact absurd (hparse.symm.trans hbad) (by simp only [reduceCtorEq, not_false_eq_true])
          · have hargs : args = args' := Option.some.inj (hparse.symm.trans hparse')
            rw [hargs]
            exact ⟨hid, hjit⟩
    | noVm args hconf hparse hfile hnone hcreated =>
        -- A running element has its machine already.
        rw [hnone] at hvm
        exact absurd hvm Bool.false_ne_true
    | loadFailed args loaded e hin hload herror => exact absurd rfl hlate
    | rejected args loaded hin hload herror hsig => exact absurd rfl hlate
    | compileFailed args loaded e hin hload herror hsig hjit hcompile => exact absurd rfl hlate
    | interpreted args loaded hin hload herror hsig hjit => exact absurd rfl hfail
    | compiled args loaded hin hload herror hsig hjit hcompile => exact absurd rfl hfail

/-- The sample element once it runs the program `pass`. -/
theorem sample_running :
    ∃ w, Steps.run (step (samplePlatform none) .bpfilter) sampleWorld
        [.configure (sampleCall ["ID 1", "JIT false", "FILE pass"])] = some w ∧ Running w ∧
      Outcome.test (fun r w' => r == .loadFailed .notEnoughData && service w' == .waits)
        (configure (samplePlatform none) .bpfilter w (sampleCall ["FILE garbage"])) = true ∧
      Outcome.test (fun r _ => r == .unreadable)
        (configure (samplePlatform none) .bpfilter w (sampleCall ["FILE missing"])) = true := by
  have htest : Outcome.test (fun r w => r == .success && (match service w with
      | .runs (.interpreted _) => true
      | _ => false) &&
      Outcome.test (fun r w' => r == .loadFailed .notEnoughData && service w' == .waits)
        (configure (samplePlatform none) .bpfilter w (sampleCall ["FILE garbage"])) &&
      Outcome.test (fun r _ => r == .unreadable)
        (configure (samplePlatform none) .bpfilter w (sampleCall ["FILE missing"])))
      (configure (samplePlatform none) .bpfilter sampleWorld
        (sampleCall ["ID 1", "JIT false", "FILE pass"])) = true := by
    decide +kernel
  rcases Outcome.of_test _ _ htest with ⟨r, w, hcall, hcheck⟩
  simp only [Bool.and_eq_true] at hcheck
  rcases hcheck with ⟨⟨⟨-, hserved⟩, hgarbage⟩, hempty⟩
  refine ⟨w, by simp only [Steps.run, step, hcall], ?_, hgarbage, hempty⟩
  split at hserved
  · rename_i program hruns
    exact .inr ⟨program, hruns⟩
  · exact absurd hserved Bool.false_ne_true

/-- A call with the name of a file that is not there, and without an id or a
    mode, leaves the running sample as it is. -/
theorem configure_atomic_sample :
    ∃ w w', Running w ∧
      configure (samplePlatform none) .bpfilter w (sampleCall ["FILE missing"])
        = some (.returned .unreadable w') ∧ Unchanged w w' := by
  rcases sample_running with ⟨w, -, hrun, -, hmissing⟩
  rcases Outcome.of_test _ _ hmissing with ⟨r, w', hcall, hr⟩
  rw [beq_iff_eq] at hr
  rw [hr] at hcall
  have hargs : (samplePlatform none).parseArgs (sampleCall ["FILE missing"]).conf
      = some ⟨none, none, none, some (helperName "missing"), none⟩ := by
    decide +kernel
  have hread : (sampleBuffer (sampleRead (helperName "missing"))).bytes = [] := by
    decide +kernel
  exact ⟨w, w', hrun, hcall, (configure_atomic_iff (samplePlatform none) .bpfilter w _ _ w' hrun
    hcall (by simp only [ne_eq, reduceCtorEq, not_false_eq_true])).mpr
    (.inr (.inr ⟨_, hargs, hread, .inl rfl, .inl rfl⟩))⟩

/-- Reconfiguring the running sample with a file that is no ELF object fails
    and leaves every packet waiting. -/
theorem reconfigure_not_atomic :
    ∃ w w', Steps.Reachable (step (samplePlatform none) .bpfilter) sampleWorld w ∧ Running w ∧
      configure (samplePlatform none) .bpfilter w (sampleCall ["FILE garbage"])
        = some (.returned (.loadFailed .notEnoughData) w') ∧
      service w' = .waits ∧ ¬ Unchanged w w' := by
  rcases sample_running with ⟨w, hreach, hrun, hgarbage, -⟩
  rcases Outcome.of_test _ _ hgarbage with ⟨r, w', hcall, hcheck⟩
  simp only [Bool.and_eq_true, beq_iff_eq] at hcheck
  rw [hcheck.1] at hcall
  refine ⟨w, w', ⟨_, hreach⟩, hrun, hcall, hcheck.2, ?_⟩
  intro hsame
  exact hrun.facts.2 (hsame.service.symm.trans hcheck.2)

end UniBPF
