import UniBPF.Theory.Configure

/-!
# Several Machines, One Window

The elements of a router share the page table, and all of them compile to the
same address.

The state is one machine for each element of an arbitrary index type, beside
one page table, and the steps are the operations of `configure` on the
machine of one element: unload, load, compile, dump. A call of `configure`
is a run of these (`configure_router_run`).

Two things hold in every run. A machine that says it has compiled code has
the translation of its own program at the window, and at most one machine has
any code there (`RouterInv`). The second is the price of the first: the
window goes to whoever comes first, because mapping it again fails. So a
compilation is blocked exactly when it gets as far as mapping while another
element holds compiled code, and the run without such a compilation is the
run in which nobody is blocked (`jit_windows_iff`).

## Main definitions

* `Router`, `VmEvent`, `rstep`: Machines that share a page table.
* `HoldsCode`: The machine has compiled code of some length.
* `ReachesMap`: The compilation gets as far as mapping pages.
* `Blocked`: The mapping fails while another element holds code.
* `NoInterference`, `Alone`: The property, and when it holds.
* `RouterInv`: What holds in every run.

## Theorems

* `routerInv_rstep`: The invariant is kept.
* `blocked_iff`: When a compilation is blocked.
* `jit_windows_iff`: The property over whole runs.
* `configure_router_run`: A call of `configure` is a run of these steps.
-/

namespace UniBPF

/-- A machine for each element, and the page table. -/
structure Router (ι : Type) where
  vm : ι → Vm
  space : AddressSpace

/-- An operation on the machine of one element. -/
inductive VmEvent (ι : Type) where
  | unload (i : ι)
  | load (i : ι) (base : Addr) (code : Bytes)
  | compile (i : ι) (env : PageEnv)
  | dump (i : ι) (ok : Bool)

section Router

variable {ι : Type} [DecidableEq ι] (translate : Translate)

/-- Replace the machine of one element. -/
def Router.setVm (r : Router ι) (i : ι) (vm : Vm) (as : AddressSpace) : Router ι :=
  ⟨Function.update r.vm i vm, as⟩

/-- The router after an operation. Every operation returns. -/
def rstep (r : Router ι) : VmEvent ι → Option (Router ι)
  | .unload i =>
    some (r.setVm i (ubpfUnloadCode (r.vm i) r.space).1 (ubpfUnloadCode (r.vm i) r.space).2)
  | .load i base code => some (r.setVm i (ubpfLoad (r.vm i) base code).2 r.space)
  | .compile i env =>
    some (r.setVm i (ubpfCompile translate env (r.vm i) r.space).vm
      (ubpfCompile translate env (r.vm i) r.space).space)
  | .dump i ok => some (r.setVm i (handleJitDump (r.vm i) ok) r.space)

/-- The machine has compiled code of some length. -/
def HoldsCode (vm : Vm) : Prop :=
  vm.jitted.isSome = true ∧ 0 < vm.jittedSize

/-- The compilation gets as far as mapping pages: there is a program, it
    translates, and it is not compiled already. -/
def ReachesMap (vm : Vm) : Prop :=
  ¬ (vm.jitted.isSome = true ∧ vm.jittedResult = ⟨true, .basic⟩) ∧
    ∃ program code, vm.view = some program ∧
      translate vm.jitterBufferSize .basic program = some code

/-- There are frames, but the pages cannot be mapped, while another element
    holds compiled code. -/
def Blocked (r : Router ι) (i : ι) (env : PageEnv) : Prop :=
  env.frames = true ∧ (ubpfCompile translate env (r.vm i) r.space).error = some .pageMap ∧
    ∃ j, j ≠ i ∧ HoldsCode (r.vm j)

/-- No compilation is blocked, and afterwards every element that has compiled
    code has the translation of its own program. -/
def NoInterference (r : Router ι) (e : VmEvent ι) : Prop :=
  (∀ i env, e = .compile i env → ¬ Blocked translate r i env) ∧
    ∀ r', rstep translate r e = some r' → ∀ j, OwnsCode translate (r'.vm j) r'.space

/-- A compilation gets as far as mapping pages only while no other element
    holds compiled code. -/
def Alone (r : Router ι) (e : VmEvent ι) : Prop :=
  ∀ i env, e = .compile i env → env.frames = true → ReachesMap translate (r.vm i) →
    ∀ j, j ≠ i → ¬ HoldsCode (r.vm j)

/-- What holds in every run: compiled code is the element's own, and at most
    one element has any. -/
structure RouterInv (r : Router ι) : Prop where
  owns : ∀ j, OwnsCode translate (r.vm j) r.space
  exclusive : ∀ i j, HoldsCode (r.vm i) → HoldsCode (r.vm j) → i = j

/-- Reading no bytes succeeds anywhere. -/
theorem read_zero (as : AddressSpace) (addr : Nat) : as.read addr 0 = some [] := rfl

/-- Whether a machine owns its code is a matter of the bytes it has, so an
    empty block of code is owned in every page table. -/
theorem ownsCode_of_not_holds (vm : Vm) (as as' : AddressSpace) (h : OwnsCode translate vm as)
    (hnot : ¬ HoldsCode vm) : OwnsCode translate vm as' := by
  intro a ha
  rcases h a ha with ⟨hwindow, program, code, hview, htrans, hlen, -⟩
  have hzero : vm.jittedSize = 0 := by
    by_contra hpos
    exact hnot ⟨by rw [ha]; rfl, by omega⟩
  refine ⟨hwindow, program, code, hview, htrans, hlen, ?_⟩
  rw [hzero, read_zero]
  rw [hzero] at hlen
  rw [List.length_eq_zero_iff.mp hlen]

/-- The first page of the window is mapped while a machine holds code. -/
theorem window_mapped (vm : Vm) (as : AddressSpace) (h : OwnsCode translate vm as)
    (hholds : HoldsCode vm) : as.mapped (jitWindow / pageSize) = true := by
  rcases Option.isSome_iff_exists.mp hholds.1 with ⟨a, ha⟩
  rcases h a ha with ⟨hwindow, program, code, -, -, -, hread⟩
  unfold AddressSpace.read at hread
  split at hread
  · rename_i hall
    rw [List.all_eq_true] at hall
    have hfirst := hall 0 (List.mem_range.mpr hholds.2)
    rwa [hwindow, Nat.add_zero] at hfirst
  · exact absurd hread (by simp only [reduceCtorEq, not_false_eq_true])

/-- Unmapping no bytes unmaps no page. -/
theorem munmap_zero (as : AddressSpace) (addr : Nat) : munmap as addr 0 = as := by
  have hnone : ∀ page, inPages addr ((0 + (pageSize - 1)) / pageSize) page = false := by
    intro page
    unfold inPages pageSize
    rw [decide_eq_false_iff_not]
    omega
  simp only [munmap, hnone, Bool.not_false, Bool.true_and]

/-- Dropping compiled code of no length changes nothing in the page table. -/
theorem dropJitted_space (vm : Vm) (as : AddressSpace) (h : ¬ HoldsCode vm) :
    (dropJitted vm as).2 = as := by
  unfold dropJitted
  cases hjit : vm.jitted with
  | none => rfl
  | some a =>
      have hzero : vm.jittedSize = 0 := by
        by_contra hpos
        exact h ⟨by rw [hjit]; rfl, by omega⟩
      simp only [hzero]
      exact munmap_zero as a

omit [DecidableEq ι] in
/-- After another machine has dropped its code, the first page of the window
    is mapped still. -/
theorem window_mapped_drop (r : Router ι) (h : RouterInv translate r) (i j : ι) (hne : j ≠ i)
    (hholds : HoldsCode (r.vm j)) :
    (dropJitted (r.vm i) r.space).2.mapped (jitWindow / pageSize) = true := by
  have hnot : ¬ HoldsCode (r.vm i) := fun hi => hne (h.exclusive j i hholds hi)
  rw [dropJitted_space _ _ hnot]
  exact window_mapped translate (r.vm j) r.space (h.owns j) hholds

/-- A mapped first page keeps the window from being mapped. -/
theorem not_isFree_of_mapped (as : AddressSpace) (n : Nat)
    (h : as.mapped (jitWindow / pageSize) = true) : as.isFree jitWindow (n + 1) = false := by
  unfold AddressSpace.isFree
  rw [List.all_eq_false]
  exact ⟨0, List.mem_range.mpr (Nat.succ_pos n), by rw [Nat.add_zero, h]; exact Bool.false_ne_true⟩

omit [DecidableEq ι] in
/-- The page table after an operation is as good for the other elements. -/
theorem owns_others (r : Router ι) (h : RouterInv translate r) (i : ι) (as : AddressSpace)
    (hspace : (∃ j, j ≠ i ∧ HoldsCode (r.vm j)) → as = r.space) (j : ι) (hne : j ≠ i) :
    OwnsCode translate (r.vm j) as := by
  by_cases hholds : HoldsCode (r.vm j)
  · rw [hspace ⟨j, hne, hholds⟩]
    exact h.owns j
  · exact ownsCode_of_not_holds translate (r.vm j) r.space as (h.owns j) hholds

/-- The invariant after an operation on the machine of element `i`. -/
theorem routerInv_setVm (r : Router ι) (h : RouterInv translate r) (i : ι) (vm : Vm)
    (as : AddressSpace) (howns : OwnsCode translate vm as)
    (hspace : (∃ j, j ≠ i ∧ HoldsCode (r.vm j)) → as = r.space)
    (hholds : HoldsCode vm → ∀ j, j ≠ i → ¬ HoldsCode (r.vm j)) :
    RouterInv translate (r.setVm i vm as) := by
  refine ⟨?_, ?_⟩
  · intro j
    by_cases hj : j = i
    · simp only [Router.setVm, hj, Function.update_self]
      exact howns
    · simp only [Router.setVm, Function.update_of_ne hj]
      exact owns_others translate r h i as hspace j hj
  · intro a b ha hb
    simp only [Router.setVm] at ha hb
    -- Either is the changed machine or not, and only one of them can be.
    by_cases hai : a = i
    · by_cases hbi : b = i
      · rw [hai, hbi]
      · rw [hai, Function.update_self] at ha
        rw [Function.update_of_ne hbi] at hb
        exact absurd hb (hholds ha b hbi)
    · rw [Function.update_of_ne hai] at ha
      by_cases hbi : b = i
      · rw [hbi, Function.update_self] at hb
        exact absurd ha (hholds hb a hai)
      · rw [Function.update_of_ne hbi] at hb
        exact h.exclusive a b ha hb

/-- Unloading drops the compiled code and forgets the program. -/
theorem ubpfUnloadCode_space (vm : Vm) (as : AddressSpace) :
    (ubpfUnloadCode vm as).2 = (dropJitted vm as).2 := by
  unfold ubpfUnloadCode
  simp only []
  split <;> rfl

theorem not_holds_of_none (vm : Vm) (h : vm.jitted = none) : ¬ HoldsCode vm := by
  intro hholds
  rw [HoldsCode, h] at hholds
  exact Bool.false_ne_true hholds.1

omit [DecidableEq ι] in
/-- While another element holds code, an element that drops its own leaves the
    page table as it was. -/
theorem drop_keeps_space (r : Router ι) (h : RouterInv translate r) (i : ι)
    (hother : ∃ j, j ≠ i ∧ HoldsCode (r.vm j)) : (dropJitted (r.vm i) r.space).2 = r.space := by
  rcases hother with ⟨j, hne, hholds⟩
  exact dropJitted_space _ _ (fun hi => hne (h.exclusive j i hholds hi))

theorem routerInv_unload (r : Router ι) (h : RouterInv translate r) (i : ι) :
    RouterInv translate
      (r.setVm i (ubpfUnloadCode (r.vm i) r.space).1 (ubpfUnloadCode (r.vm i) r.space).2) := by
  have hjit := (ubpfUnloadCode_vm (r.vm i) r.space).2.1
  refine routerInv_setVm translate r h i _ _ (ownsCode_of_none translate _ _ hjit) ?_ ?_
  · intro hother
    rw [ubpfUnloadCode_space]
    exact drop_keeps_space translate r h i hother
  · exact fun hholds => absurd hholds (not_holds_of_none _ hjit)

/-- A machine with compiled code holds a program, so a load leaves it
    alone. -/
theorem ubpfLoad_jitted (vm : Vm) (as : AddressSpace) (base : Addr) (code : Bytes)
    (h : OwnsCode translate vm as) (hjit : vm.jitted ≠ none) : (ubpfLoad vm base code).2 = vm := by
  cases ha : vm.jitted with
  | none => exact absurd ha hjit
  | some a =>
      rcases h a ha with ⟨-, program, -, hview, -⟩
      have hheld : vm.insts.isSome = true := by
        cases hinsts : vm.insts with
        | some store => rfl
        | none =>
            rw [Vm.view, hinsts] at hview
            exact absurd hview (by simp only [Option.map_none, reduceCtorEq, not_false_eq_true])
      unfold ubpfLoad
      rw [if_pos hheld]

theorem routerInv_load (r : Router ι) (h : RouterInv translate r) (i : ι) (base : Addr)
    (code : Bytes) :
    RouterInv translate (r.setVm i (ubpfLoad (r.vm i) base code).2 r.space) := by
  rcases ubpfLoad_frame (r.vm i) base code with ⟨-, hjitted, hsize⟩
  have hholds : HoldsCode (ubpfLoad (r.vm i) base code).2 ↔ HoldsCode (r.vm i) := by
    unfold HoldsCode
    rw [hjitted, hsize]
  refine routerInv_setVm translate r h i _ _ ?_ (fun _ => rfl) ?_
  -- A machine with compiled code refuses the load, any other has nothing to own.
  · by_cases hjit : (r.vm i).jitted = none
    · exact ownsCode_of_none translate _ _ (hjitted.trans hjit)
    · rw [ubpfLoad_jitted translate (r.vm i) r.space base code (h.owns i) hjit]
      exact h.owns i
  · intro hnew j hne hj
    exact hne (h.exclusive j i hj (hholds.mp hnew))

/-- The machine and the page table a compilation works on once the old code is
    dropped. -/
theorem ubpfCompile_dropped (env : PageEnv) (vm : Vm) (as : AddressSpace)
    (hnot : ¬ (vm.jitted.isSome = true ∧ vm.jittedResult = ⟨true, .basic⟩)) :
    ubpfCompile translate env vm as
      = ubpfCompile translate env (dropJitted vm as).1 (dropJitted vm as).2 := by
  have hskip : ¬ (vm.jitted.isSome && vm.jittedResult.success && vm.jittedResult.jitMode == .basic)
      = true := by
    intro hdone
    simp only [Bool.and_eq_true, beq_iff_eq] at hdone
    apply hnot
    refine ⟨hdone.1.1, ?_⟩
    rcases hres : vm.jittedResult with ⟨success, mode⟩
    rw [hres] at hdone
    simp only at hdone
    rw [hdone.1.2, hdone.2]
  have hnone : (dropJitted vm as).1.jitted = none := by
    unfold dropJitted
    cases hjit : vm.jitted with
    | none => exact hjit
    | some a => rfl
  have hagain : dropJitted (dropJitted vm as).1 (dropJitted vm as).2 = dropJitted vm as := by
    generalize dropJitted vm as = d at hnone
    simp only [dropJitted, hnone]
  -- Both sides drop the code, the right one a second time and in vain.
  unfold ubpfCompile ubpfCompileEx
  rw [if_neg hskip, hagain, hnone]
  simp only [Option.isSome_none, Bool.false_and, Bool.false_eq_true, if_false]

/-- What dropping the compiled code leaves of the machine. -/
theorem dropJitted_vm (vm : Vm) (as : AddressSpace) :
    (dropJitted vm as).1.jitted = none ∧ (dropJitted vm as).1.view = vm.view ∧
      (dropJitted vm as).1.jitterBufferSize = vm.jitterBufferSize := by
  unfold dropJitted
  cases hjit : vm.jitted with
  | none => exact ⟨hjit, rfl, rfl⟩
  | some a => exact ⟨rfl, rfl, rfl⟩

/-- The page table changes in a compilation only when the mapping succeeds. -/
theorem installCode_space (env : PageEnv) (vm : Vm) (as : AddressSpace) (code : Bytes)
    (h : as.isFree jitWindow (code.length / pageSize + 1) = false) :
    installCode env vm as code = ⟨some .pageMap, vm, as⟩ := by
  simp only [installCode, ukplatPageMap, h, Bool.and_false, Bool.false_eq_true, if_false]

/-- A compilation on a mapped window leaves the page table alone, and fails if
    it gets that far. -/
theorem compile_window_taken (env : PageEnv) (vm : Vm) (as : AddressSpace)
    (hjit : vm.jitted = none) (hmapped : as.mapped (jitWindow / pageSize) = true) :
    (ubpfCompile translate env vm as).space = as ∧
      (ubpfCompile translate env vm as).vm.jitted = none ∧
      ∀ program code, vm.view = some program →
        translate vm.jitterBufferSize .basic program = some code →
        (ubpfCompile translate env vm as).error = some .pageMap := by
  cases hview : vm.view with
  | none =>
      rw [ubpfCompile_empty translate env vm as hjit hview]
      exact ⟨rfl, hjit, fun program _ hsome _ => by cases hsome⟩
  | some program =>
      rw [ubpfCompile_fresh translate env vm as program hjit hview]
      cases htrans : translate vm.jitterBufferSize .basic program with
      | none =>
          refine ⟨rfl, hjit, ?_⟩
          intro program' code hsome hcode
          rw [← Option.some.inj hsome, htrans] at hcode
          exact absurd hcode (by simp only [reduceCtorEq, not_false_eq_true])
      | some code =>
          have htaken := not_isFree_of_mapped as (code.length / pageSize) hmapped
          simp only [installCode_space env _ as code htaken]
          exact ⟨trivial, hjit, fun _ _ _ _ => trivial⟩

theorem routerInv_compile (r : Router ι) (h : RouterInv translate r) (i : ι) (env : PageEnv) :
    RouterInv translate (r.setVm i (ubpfCompile translate env (r.vm i) r.space).vm
      (ubpfCompile translate env (r.vm i) r.space).space) := by
  by_cases hdone : (r.vm i).jitted.isSome = true ∧ (r.vm i).jittedResult = ⟨true, .basic⟩
  -- Compiled already: nothing happens.
  · have hsame : ubpfCompile translate env (r.vm i) r.space = ⟨none, r.vm i, r.space⟩ := by
      simp only [ubpfCompile, ubpfCompileEx, hdone.1, hdone.2, Bool.and_self, beq_self_eq_true,
        if_true]
    rw [hsame]
    refine routerInv_setVm translate r h i _ _ (h.owns i) (fun _ => rfl) ?_
    intro hi j hne hj
    exact hne (h.exclusive j i hj hi)
  -- Otherwise the old code goes first, and the rest is a compilation without any.
  · rcases dropJitted_vm (r.vm i) r.space with ⟨hnone, -, -⟩
    rw [ubpfCompile_dropped translate env (r.vm i) r.space hdone]
    have howns := ownsCode_compile translate env (dropJitted (r.vm i) r.space).1
      (dropJitted (r.vm i) r.space).2 hnone
    refine routerInv_setVm translate r h i _ _ howns ?_ ?_
    -- While another element holds the window, the page table stays.
    · rintro ⟨j, hne, hj⟩
      have hmapped := window_mapped_drop translate r h i j hne hj
      rw [(compile_window_taken translate env _ _ hnone hmapped).1]
      exact drop_keeps_space translate r h i ⟨j, hne, hj⟩
    -- And no second element comes to hold code.
    · intro hholds j hne hj
      have hmapped := window_mapped_drop translate r h i j hne hj
      exact not_holds_of_none _ (compile_window_taken translate env _ _ hnone hmapped).2.1 hholds

/-- The invariant is kept by every operation of every element. -/
theorem routerInv_rstep (r r' : Router ι) (e : VmEvent ι) (h : RouterInv translate r)
    (hstep : rstep translate r e = some r') : RouterInv translate r' := by
  cases e with
  | unload i =>
      rw [← Option.some.inj hstep]
      exact routerInv_unload translate r h i
  | load i base code =>
      rw [← Option.some.inj hstep]
      exact routerInv_load translate r h i base code
  | compile i env =>
      rw [← Option.some.inj hstep]
      exact routerInv_compile translate r h i env
  | dump i ok =>
      rw [← Option.some.inj hstep]
      refine routerInv_setVm translate r h i _ _ (ownsCode_dump translate _ _ ok (h.owns i))
        (fun _ => rfl) ?_
      intro hi j hne hj
      exact hne (h.exclusive j i hj hi)

/-- A page cannot be mapped only where the compilation gets that far. -/
theorem reachesMap_of_pageMap (env : PageEnv) (vm : Vm) (as : AddressSpace)
    (h : (ubpfCompile translate env vm as).error = some .pageMap) : ReachesMap translate vm := by
  have hnot : ¬ (vm.jitted.isSome = true ∧ vm.jittedResult = ⟨true, .basic⟩) := by
    intro hdone
    simp only [ubpfCompile, ubpfCompileEx, hdone.1, hdone.2, Bool.and_self, beq_self_eq_true,
      if_true, reduceCtorEq] at h
  rcases dropJitted_vm vm as with ⟨hnone, hview, hsize⟩
  rw [ubpfCompile_dropped translate env vm as hnot] at h
  cases hheld : vm.view with
  | none =>
      rw [ubpfCompile_empty translate env _ _ hnone (hview.trans hheld)] at h
      exact absurd h (by simp only [Option.some.injEq, reduceCtorEq, not_false_eq_true])
  | some program =>
      rw [ubpfCompile_fresh translate env _ _ program hnone (hview.trans hheld), hsize] at h
      cases htrans : translate vm.jitterBufferSize .basic program with
      | none =>
          rw [htrans] at h
          exact absurd h (by simp only [Option.some.injEq, reduceCtorEq, not_false_eq_true])
      | some code => exact ⟨hnot, program, code, hheld, htrans⟩

omit [DecidableEq ι] in
/-- A compilation is blocked when it gets as far as mapping, with frames to
    map, while another element holds code. -/
theorem blocked_iff (r : Router ι) (h : RouterInv translate r) (i : ι) (env : PageEnv) :
    Blocked translate r i env ↔ env.frames = true ∧ ReachesMap translate (r.vm i) ∧
      ∃ j, j ≠ i ∧ HoldsCode (r.vm j) := by
  constructor
  · rintro ⟨hframes, herror, hother⟩
    exact ⟨hframes, reachesMap_of_pageMap translate env _ _ herror, hother⟩
  · rintro ⟨hframes, ⟨hnot, program, code, hview, htrans⟩, j, hne, hj⟩
    have hmapped := window_mapped_drop translate r h i j hne hj
    rcases dropJitted_vm (r.vm i) r.space with ⟨hnone, hkept, hsize⟩
    refine ⟨hframes, ?_, j, hne, hj⟩
    rw [ubpfCompile_dropped translate env (r.vm i) r.space hnot]
    exact (compile_window_taken translate env _ _ hnone hmapped).2.2 program code
      (hkept.trans hview) (by rw [hsize]; exact htrans)

/-- One operation. -/
theorem noInterference_iff (r : Router ι) (e : VmEvent ι) (h : RouterInv translate r) :
    NoInterference translate r e ↔ Alone translate r e := by
  constructor
  · rintro ⟨hfree, -⟩ i env he hframes hreach j hne hj
    exact hfree i env he ((blocked_iff translate r h i env).mpr ⟨hframes, hreach, j, hne, hj⟩)
  · intro halone
    refine ⟨?_, ?_⟩
    · intro i env he hblocked
      rcases (blocked_iff translate r h i env).mp hblocked with ⟨hframes, hreach, j, hne, hj⟩
      exact halone i env he hframes hreach j hne hj
    · intro r' hstep
      exact (routerInv_rstep translate r r' e h hstep).owns

/-- For every set of elements without compiled code, every page table and
    every sequence of operations: no compilation is blocked by another
    element's code and all compiled code is its element's own, exactly when no
    compilation gets as far as mapping while another element holds compiled
    code. -/
theorem jit_windows_iff (r : Router ι) (hnew : ∀ i, (r.vm i).jitted = none)
    (es : List (VmEvent ι)) :
    Steps.Along (rstep translate) (NoInterference translate) r es ↔
      Steps.Along (rstep translate) (Alone translate) r es := by
  have hinv : RouterInv translate r :=
    ⟨fun j => ownsCode_of_none translate _ _ (hnew j),
      fun i _ hi _ => absurd hi (not_holds_of_none _ (hnew i))⟩
  exact Steps.along_iff (rstep translate) (NoInterference translate) (Alone translate)
    (RouterInv translate) (fun r e h => noInterference_iff translate r e h)
    (fun r e r' h _ hstep => routerInv_rstep translate r r' e h hstep) es r hinv

theorem setVm_setVm (r : Router ι) (i : ι) (vm vm' : Vm) (as as' : AddressSpace) :
    (r.setVm i vm as).setVm i vm' as' = r.setVm i vm' as' := by
  simp only [Router.setVm, Function.update_idem]

theorem setVm_self (r : Router ι) (i : ι) : r.setVm i (r.vm i) r.space = r := by
  simp only [Router.setVm, Function.update_eq_self]

/-- One more step of a run that has only changed the machine of `i`. -/
theorem run_snoc (r : Router ι) (i : ι) (vm vm' : Vm) (as as' : AddressSpace)
    (es : List (VmEvent ι)) (e : VmEvent ι)
    (hrun : Steps.run (rstep translate) r es = some (r.setVm i vm as))
    (hstep : rstep translate (r.setVm i vm as) e = some ((r.setVm i vm as).setVm i vm' as')) :
    Steps.run (rstep translate) r (es ++ [e]) = some (r.setVm i vm' as') := by
  rw [Steps.run_append _ _ _ _ _ hrun, Steps.run_cons _ _ _ _ _ hstep, setVm_setVm]
  rfl

section Element

variable (P : Platform) (cls : ElementClass) (w : World) (call : ConfigureCall)

/-- The load of a call is an unload and at most one load of its machine. -/
theorem loadedBy_router_run (args : ConfArgs) (loaded : Loaded BpfMapCtx)
    (hload : loadedBy P cls w call args = some loaded) (r : Router ι) (i : ι)
    (hvm : r.vm i = machineOf cls w.element) (hspace : r.space = w.space) :
    ∃ es, Steps.run (rstep P.translate) r es
      = some (r.setVm i loaded.vm (unloaded cls w).2) := by
  have hunload : Steps.run (rstep P.translate) r [.unload i]
      = some (r.setVm i (unloaded cls w).1 (unloaded cls w).2) := by
    simp only [Steps.run, rstep, hvm, hspace, unloaded]
  rcases ubpfLoadElfEx_cases _ _ _ _ _ _ loaded hload with
    ⟨e, -, hsame, -⟩ | ⟨layout, s, stop, -, -, -, -, -, ⟨e, -, -, hsame⟩ | ⟨-, -, hnew⟩⟩
  · rw [hsame]
    exact ⟨_, hunload⟩
  · rw [hsame]
    exact ⟨_, hunload⟩
  · rw [hnew]
    refine ⟨_, run_snoc P.translate r i _ _ _ _ _ (.load i call.instsAddr s.code) hunload ?_⟩
    simp only [rstep, Router.setVm, Function.update_self]

/-- So is its compilation one more step. -/
theorem compiledBy_router_run (args : ConfArgs) (loaded : Loaded BpfMapCtx)
    (hload : loadedBy P cls w call args = some loaded) (r : Router ι) (i : ι)
    (hvm : r.vm i = machineOf cls w.element) (hspace : r.space = w.space) :
    ∃ es, Steps.run (rstep P.translate) r es
      = some (r.setVm i (compiledBy P cls w call loaded).vm
          (compiledBy P cls w call loaded).space) := by
  rcases loadedBy_router_run P cls w call args loaded hload r i hvm hspace with ⟨es, hes⟩
  refine ⟨_, run_snoc P.translate r i _ _ _ _ es (.compile i call.pages) hes ?_⟩
  simp only [rstep, Router.setVm, Function.update_self, compiledBy]

/-- And so is the dump, where there is one. -/
theorem dumped_router_run (e : Element) (vm : Vm) (as : AddressSpace) (r : Router ι) (i : ι)
    (h : ∃ es, Steps.run (rstep P.translate) r es = some (r.setVm i vm as)) :
    ∃ es, Steps.run (rstep P.translate) r es = some (r.setVm i (dumpedVm call e vm) as) := by
  unfold dumpedVm
  by_cases hdump : e.dumpJit = true
  · rw [if_pos hdump]
    rcases h with ⟨es, hes⟩
    refine ⟨_, run_snoc P.translate r i _ _ _ _ es (.dump i call.dumped) hes ?_⟩
    simp only [rstep, Router.setVm, Function.update_self]
  · rw [if_neg hdump]
    exact h

/-- A call of `configure` on one element of a router is a run of these
    operations on its machine. -/
theorem configure_router_run (result : Result) (w' : World)
    (h : Returns P cls w call result w') (r : Router ι) (i : ι)
    (hvm : r.vm i = machineOf cls w.element) (hspace : r.space = w.space) :
    ∃ es, Steps.run (rstep P.translate) r es
      = some (r.setVm i (machineOf cls w'.element) w'.space) := by
  -- A call that ends before the lock has not touched the machine.
  have hidle : ∃ es, Steps.run (rstep P.translate) r es
      = some (r.setVm i (machineOf cls w.element) w.space) := by
    refine ⟨[], ?_⟩
    rw [← hvm, ← hspace, setVm_self]
    rfl
  cases h with
  | noArguments hconf => exact hidle
  | badArguments hconf hparse => exact hidle
  | unreadable args hconf hparse hfile => exact hidle
  | noVm args hconf hparse hfile hnone hcreated => exact hidle
  | loadFailed args loaded e hin hload herror =>
      exact loadedBy_router_run P cls w call args loaded hload r i hvm hspace
  | rejected args loaded hin hload herror hsig =>
      exact loadedBy_router_run P cls w call args loaded hload r i hvm hspace
  | compileFailed args loaded e hin hload herror hsig hjit hcompile =>
      exact compiledBy_router_run P cls w call args loaded hload r i hvm hspace
  | interpreted args loaded hin hload herror hsig hjit =>
      exact dumped_router_run P call _ _ _ r i
        (loadedBy_router_run P cls w call args loaded hload r i hvm hspace)
  | compiled args loaded hin hload herror hsig hjit hcompile =>
      exact dumped_router_run P call _ _ _ r i
        (compiledBy_router_run P cls w call args loaded hload r i hvm hspace)

end Element

end Router

/-- `mov r0, 2; exit`. -/
def passCode : Bytes :=
  [0xb7, 0, 0, 0, 2, 0, 0, 0, 0x95, 0, 0, 0, 0, 0, 0, 0]

/-- Two filters of one router, as in the firewall chain. -/
def twoFilters : Router Bool :=
  ⟨fun _ => initUbpfVm .bpfilter, ⟨fun _ => false, fun _ => 0⟩⟩

theorem jit_windows_two_filters :
    (∀ i, (twoFilters.vm i).jitted = none) ∧
      (Steps.Along (rstep sampleTranslate) (NoInterference sampleTranslate) twoFilters
          [.load true 0x200000 passCode, .compile true ⟨true, true⟩] ↔
        Steps.Along (rstep sampleTranslate) (Alone sampleTranslate) twoFilters
          [.load true 0x200000 passCode, .compile true ⟨true, true⟩]) :=
  ⟨fun _ => (initUbpfVm_empty .bpfilter).2,
    jit_windows_iff sampleTranslate twoFilters (fun _ => (initUbpfVm_empty .bpfilter).2) _⟩

/-- The first filter compiles, and the second cannot because of it. -/
theorem second_filter_blocked :
    ∃ r, Steps.run (rstep sampleTranslate) twoFilters
        [.load true 0x200000 passCode, .load false 0x300000 passCode,
          .compile true ⟨true, true⟩] = some r ∧
      (ubpfCompile sampleTranslate ⟨true, true⟩ (r.vm false) r.space).error = some .pageMap ∧
      ¬ NoInterference sampleTranslate r (.compile false ⟨true, true⟩) := by
  have htest : (match Steps.run (rstep sampleTranslate) twoFilters
      [.load true 0x200000 passCode, .load false 0x300000 passCode,
        .compile true ⟨true, true⟩] with
      | some r => (ubpfCompile sampleTranslate ⟨true, true⟩ (r.vm false) r.space).error
          == some .pageMap && (r.vm true).jitted.isSome && decide (0 < (r.vm true).jittedSize)
      | none => false) = true := by
    decide +kernel
  cases hrun : Steps.run (rstep sampleTranslate) twoFilters
      [.load true 0x200000 passCode, .load false 0x300000 passCode,
        .compile true ⟨true, true⟩] with
  | none =>
      rw [hrun] at htest
      exact absurd htest Bool.false_ne_true
  | some r =>
      simp only [hrun, Bool.and_eq_true, beq_iff_eq, decide_eq_true_eq] at htest
      refine ⟨r, rfl, htest.1.1, ?_⟩
      intro hfree
      exact hfree.1 false ⟨true, true⟩ rfl ⟨rfl, htest.1.1, true,
        by simp only [ne_eq, Bool.true_eq_false, not_false_eq_true], htest.1.2, htest.2⟩

end UniBPF
