import UniBPF.Theory.JitWindow

/-!
# Pages of the JIT Window

One machine compiles and unloads over and over. The pages that are mapped in
the window ought to be those of the code it has, and none when it has none;
then a compilation never finds a page left over from an earlier one.

The two sides count differently. Mapping takes `size / 4096 + 1` pages,
unmapping the pages that cover `size` bytes, and these are the same number
except when the size is a multiple of 4096, where a page stays behind. The
other leak is the failure to make the pages executable: the pointer is
cleared before the code at the end looks at it to unmap.

A compilation may fail at every step: nothing loaded, no buffer, no
translation, no frames, no change of protection. Everything but the last of
these leaves the window as it should be.

## Main definitions

* `Jit`, `JitEvent`, `jstep`: A machine, the page table, and the operations.
* `inWindow`, `backs`: The pages of the window, and those behind the code.
* `Accounted`: The mapped pages are those behind the code.
* `PagesSound`, `PagesMatch`: The property of a step, and when it holds.

## Theorems

* `drop_clears`: Dropping the code clears the window.
* `pages_eq_iff`: When the two page counts agree.
* `installCode_accounted`: What a new mapping does to the accounts.
* `compile_sound_iff`: One compilation.
* `jit_pages_iff`: The property over whole runs.
-/

namespace UniBPF

/-- A machine and the page table. -/
structure Jit where
  vm : Vm
  space : AddressSpace

/-- An operation on the machine. A compilation comes with whether its buffer
    can be allocated. -/
inductive JitEvent where
  | load (base : Addr) (code : Bytes)
  | unload
  | compile (mode : JitMode) (buffer : Bool) (env : PageEnv)
  | dump (ok : Bool)

/-- The pages compiled code can be in: as many as a full buffer takes. -/
def inWindow (vm : Vm) (page : Nat) : Bool :=
  inPages jitWindow (vm.jitterBufferSize / pageSize + 1) page

/-- The pages that hold the compiled code. -/
def backs (vm : Vm) (page : Nat) : Bool :=
  match vm.jitted with
  | some addr => inPages addr ((vm.jittedSize + (pageSize - 1)) / pageSize) page
  | none => false

/-- The pages mapped in the window are exactly those of the compiled code. -/
def Accounted (s : Jit) : Prop :=
  ∀ page, inWindow s.vm page = true → s.space.mapped page = backs s.vm page

section

variable (translate : Translate)

/-- The state after an operation. Every operation returns. -/
def jstep (s : Jit) : JitEvent → Option Jit
  | .load base code => some ⟨(ubpfLoad s.vm base code).2, s.space⟩
  | .unload => some ⟨(ubpfUnloadCode s.vm s.space).1, (ubpfUnloadCode s.vm s.space).2⟩
  | .compile mode true env =>
    some ⟨(ubpfCompileEx translate env mode s.vm s.space).vm,
      (ubpfCompileEx translate env mode s.vm s.space).space⟩
  | .compile mode false _ =>
    some ⟨(ubpfCompileNoBuffer mode s.vm s.space).1, (ubpfCompileNoBuffer mode s.vm s.space).2⟩
  | .dump ok => some ⟨handleJitDump s.vm ok, s.space⟩

/-- The machine has code compiled in this mode, and keeps it. -/
def isCompiled (vm : Vm) (mode : JitMode) : Bool :=
  vm.jitted.isSome && vm.jittedResult.success && vm.jittedResult.jitMode == mode

/-- The compilation gets as far as mapping pages for this code. -/
def MapsCode (vm : Vm) (mode : JitMode) (code : Bytes) : Prop :=
  isCompiled vm mode = false ∧
    ∃ view, vm.view = some view ∧ translate vm.jitterBufferSize mode view = some code

/-- No compilation fails for want of unmapped pages while there are frames,
    and the accounts are right afterwards. -/
def PagesSound (s : Jit) (e : JitEvent) : Prop :=
  (∀ mode env, e = .compile mode true env → env.frames = true →
    (ubpfCompileEx translate env mode s.vm s.space).error ≠ some .pageMap) ∧
  ∀ s', jstep translate s e = some s' → Accounted s'

/-- A compilation that maps pages makes them executable, and its code does not
    end at the end of a page. -/
def PagesMatch (s : Jit) (e : JitEvent) : Prop :=
  ∀ mode env code, e = .compile mode true env → env.frames = true →
    MapsCode translate s.vm mode code → env.attrs = true ∧ code.length % pageSize ≠ 0

end

/-- Dropping compiled code clears the window. -/
theorem drop_clears (s : Jit) (h : Accounted s) (page : Nat)
    (hpage : inWindow s.vm page = true) : (dropJitted s.vm s.space).2.mapped page = false := by
  have hmapped := h page hpage
  unfold backs at hmapped
  unfold dropJitted
  cases hjit : s.vm.jitted with
  | none =>
      simp only [hjit] at hmapped
      exact hmapped
  | some a =>
      simp only [hjit] at hmapped
      simp only [munmap, hmapped, Bool.not_and_self]

/-- With nothing compiled, the accounts say that the window is clear. -/
theorem accounted_of_clear (vm vm' : Vm) (as : AddressSpace) (hjit : vm'.jitted = none)
    (hsize : vm'.jitterBufferSize = vm.jitterBufferSize)
    (hclear : ∀ page, inWindow vm page = true → as.mapped page = false) :
    Accounted ⟨vm', as⟩ := by
  intro page hpage
  have hwin : inWindow vm page = true := by
    unfold inWindow at hpage ⊢
    rw [hsize] at hpage
    exact hpage
  simp only [hclear page hwin, backs, hjit]

theorem accounted_drop (s : Jit) (h : Accounted s) :
    Accounted ⟨(dropJitted s.vm s.space).1, (dropJitted s.vm s.space).2⟩ := by
  rcases dropJitted_vm s.vm s.space with ⟨hjit, -, hsize⟩
  exact accounted_of_clear s.vm _ _ hjit hsize (drop_clears s h)

/-- Accounts depend on the machine only through its compiled code. -/
theorem accounted_congr (vm vm' : Vm) (as : AddressSpace) (hjit : vm'.jitted = vm.jitted)
    (hlen : vm'.jittedSize = vm.jittedSize) (hsize : vm'.jitterBufferSize = vm.jitterBufferSize)
    (h : Accounted ⟨vm, as⟩) : Accounted ⟨vm', as⟩ := by
  intro page hpage
  have hwin : inWindow vm page = true := by
    unfold inWindow at hpage ⊢
    rw [hsize] at hpage
    exact hpage
  have hmapped := h page hwin
  simp only [backs, hjit, hlen]
  exact hmapped

/-- The pages that are mapped for some code and those that are unmapped for it
    are as many, unless the code ends with a page. -/
theorem pages_eq_iff (len : Nat) :
    len / pageSize + 1 = (len + (pageSize - 1)) / pageSize ↔ len % pageSize ≠ 0 := by
  unfold pageSize
  omega

/-- A clear window has room for any code that fits the buffer. -/
theorem isFree_of_clear (vm : Vm) (as : AddressSpace) (len : Nat)
    (hlen : len ≤ vm.jitterBufferSize)
    (hclear : ∀ page, inWindow vm page = true → as.mapped page = false) :
    as.isFree jitWindow (len / pageSize + 1) = true := by
  unfold AddressSpace.isFree
  rw [List.all_eq_true]
  intro i hi
  rw [List.mem_range] at hi
  have hle : len / pageSize ≤ vm.jitterBufferSize / pageSize := Nat.div_le_div_right hlen
  have hwin : inWindow vm (jitWindow / pageSize + i) = true := by
    unfold inWindow inPages
    rw [decide_eq_true_eq]
    omega
  rw [hclear _ hwin]
  rfl

/-- New code in a clear window: the mapping succeeds, and the accounts are
    right exactly when the pages become executable and are all counted. -/
theorem installCode_accounted (env : PageEnv) (vm : Vm) (as : AddressSpace) (code : Bytes)
    (hframes : env.frames = true) (hjit : vm.jitted = none)
    (hlen : code.length ≤ vm.jitterBufferSize)
    (hclear : ∀ page, inWindow vm page = true → as.mapped page = false) :
    (installCode env vm as code).error ≠ some .pageMap ∧
      (Accounted ⟨(installCode env vm as code).vm, (installCode env vm as code).space⟩ ↔
        env.attrs = true ∧ code.length % pageSize ≠ 0) := by
  have hfree := isFree_of_clear vm as code.length hlen hclear
  have hle : code.length / pageSize ≤ vm.jitterBufferSize / pageSize := Nat.div_le_div_right hlen
  by_cases hattrs : env.attrs = true
  · simp only [installCode, ukplatPageMap, hframes, hfree, Bool.and_self, ↓reduceIte, hattrs,
      ne_eq, reduceCtorEq, not_false_eq_true, true_and]
    refine Iff.trans ?_ (pages_eq_iff code.length)
    constructor
    · intro h
      -- The page the mapping takes last is in the window, so it has to be counted.
      have hlast : inWindow vm (jitWindow / pageSize + code.length / pageSize) = true := by
        unfold inWindow inPages
        rw [decide_eq_true_eq]
        exact ⟨Nat.le_add_right _ _, by omega⟩
      have hpage := h _ hlast
      simp only [memcpyTo, backs, inPages, Nat.le_add_right, true_and, Nat.add_lt_add_iff_left,
        Nat.lt_succ_self, decide_true, Bool.true_or] at hpage
      have hcounted := of_decide_eq_true hpage.symm
      unfold pageSize at hcounted ⊢
      omega
    · intro hpages page hpage
      have hclean := hclear page hpage
      simp only [memcpyTo, backs, hclean, Bool.or_false, hpages]
  · simp only [installCode, ukplatPageMap, hframes, hfree, Bool.and_self, ↓reduceIte, hattrs,
      ne_eq, Option.some.injEq, reduceCtorEq, not_false_eq_true, true_and, Bool.false_eq_true,
      false_and, iff_false]
    intro h
    -- Nothing is compiled, but the first page stays mapped.
    have hfirst : inWindow vm (jitWindow / pageSize) = true := by
      unfold inWindow inPages
      rw [decide_eq_true_eq]
      exact ⟨Nat.le_refl _, Nat.lt_add_of_pos_right (Nat.succ_pos _)⟩
    have hpage := h _ hfirst
    simp only [memcpyTo, backs, hjit, inPages, Nat.le_refl, true_and] at hpage
    have hpos : jitWindow / pageSize < jitWindow / pageSize + (code.length / pageSize + 1) :=
      Nat.lt_add_of_pos_right (Nat.succ_pos _)
    simp only [hpos, decide_true, Bool.true_or, Bool.true_eq_false] at hpage

section

variable (translate : Translate)

/-- The ways a compilation goes that does not keep its old code. -/
theorem ubpfCompileEx_cases (env : PageEnv) (mode : JitMode) (vm : Vm) (as : AddressSpace)
    (hnot : isCompiled vm mode = false) :
    (vm.view = none ∧ ubpfCompileEx translate env mode vm as =
      ⟨some .notLoaded, (dropJitted vm as).1, (dropJitted vm as).2⟩) ∨
    (∃ view, vm.view = some view ∧ translate vm.jitterBufferSize mode view = none ∧
      ubpfCompileEx translate env mode vm as =
        ⟨some .translation, { (dropJitted vm as).1 with jittedResult := ⟨false, mode⟩ },
          (dropJitted vm as).2⟩) ∨
    (∃ view code, vm.view = some view ∧ translate vm.jitterBufferSize mode view = some code ∧
      ubpfCompileEx translate env mode vm as =
        installCode env { (dropJitted vm as).1 with jittedResult := ⟨true, mode⟩ }
          (dropJitted vm as).2 code) := by
  rcases dropJitted_vm vm as with ⟨-, hview, hsize⟩
  unfold isCompiled at hnot
  have hgo : ¬ (vm.jitted.isSome && vm.jittedResult.success &&
      vm.jittedResult.jitMode == mode) = true := by
    rw [hnot]
    exact Bool.false_ne_true
  cases hv : vm.view with
  | none =>
      rw [hv] at hview
      exact .inl ⟨rfl, by simp only [ubpfCompileEx, if_neg hgo, hview]⟩
  | some view =>
      rw [hv] at hview
      cases htrans : translate vm.jitterBufferSize mode view with
      | none =>
          rw [← hsize] at htrans
          exact .inr (.inl ⟨view, rfl, by rw [← hsize, htrans], by
            simp only [ubpfCompileEx, if_neg hgo, hview, htrans]⟩)
      | some code =>
          rw [← hsize] at htrans
          exact .inr (.inr ⟨view, code, rfl, by rw [← hsize, htrans], by
            simp only [ubpfCompileEx, if_neg hgo, hview, htrans]⟩)

theorem pagesSound_compile (s : Jit) (mode : JitMode) (env : PageEnv) :
    PagesSound translate s (.compile mode true env) ↔
      (env.frames = true → (ubpfCompileEx translate env mode s.vm s.space).error ≠ some .pageMap) ∧
      Accounted ⟨(ubpfCompileEx translate env mode s.vm s.space).vm,
        (ubpfCompileEx translate env mode s.vm s.space).space⟩ := by
  constructor
  · intro hsound
    exact ⟨hsound.1 mode env rfl, hsound.2 _ rfl⟩
  · intro hboth
    refine ⟨?_, ?_⟩
    · intro mode' env' heq
      cases heq
      exact hboth.1
    · intro s' hs'
      rw [← Option.some.inj hs']
      exact hboth.2

theorem pagesMatch_compile (s : Jit) (mode : JitMode) (env : PageEnv) :
    PagesMatch translate s (.compile mode true env) ↔
      (env.frames = true → ∀ code, MapsCode translate s.vm mode code →
        env.attrs = true ∧ code.length % pageSize ≠ 0) := by
  constructor
  · intro hall hframes code hcode
    exact hall mode env code rfl hframes hcode
  · intro hall mode' env' code heq hframes hcode
    cases heq
    exact hall hframes code hcode

/-- New code where the old was dropped. Without frames nothing is mapped;
    otherwise the window is clear and the code goes in. -/
theorem install_sound_iff (s : Jit) (h : Accounted s) (mode : JitMode) (env : PageEnv)
    (code : Bytes) (hlen : code.length ≤ s.vm.jitterBufferSize) :
    ((env.frames = true → (installCode env
        { (dropJitted s.vm s.space).1 with jittedResult := ⟨true, mode⟩ }
        (dropJitted s.vm s.space).2 code).error ≠ some .pageMap) ∧
      Accounted ⟨(installCode env
          { (dropJitted s.vm s.space).1 with jittedResult := ⟨true, mode⟩ }
          (dropJitted s.vm s.space).2 code).vm,
        (installCode env { (dropJitted s.vm s.space).1 with jittedResult := ⟨true, mode⟩ }
          (dropJitted s.vm s.space).2 code).space⟩) ↔
      (env.frames = true → env.attrs = true ∧ code.length % pageSize ≠ 0) := by
  rcases dropJitted_vm s.vm s.space with ⟨hjit, -, hsize⟩
  have hclear := drop_clears s h
  by_cases hframes : env.frames = true
  · have hclear' : ∀ page, inWindow { (dropJitted s.vm s.space).1 with
        jittedResult := ⟨true, mode⟩ } page = true →
        (dropJitted s.vm s.space).2.mapped page = false := by
      intro page hpage
      refine hclear page ?_
      unfold inWindow at hpage ⊢
      rw [← hsize]
      exact hpage
    -- The window is clear, so it is up to the attributes and the length.
    have hinstall := installCode_accounted env
      { (dropJitted s.vm s.space).1 with jittedResult := ⟨true, mode⟩ }
      (dropJitted s.vm s.space).2 code hframes hjit (le_of_le_of_eq hlen hsize.symm) hclear'
    constructor
    · intro hboth _
      exact hinstall.2.mp hboth.2
    · intro hcond
      exact ⟨fun _ => hinstall.1, hinstall.2.mpr (hcond hframes)⟩
  · have hnone : installCode env
        { (dropJitted s.vm s.space).1 with jittedResult := ⟨true, mode⟩ }
        (dropJitted s.vm s.space).2 code =
        ⟨some .pageMap, { (dropJitted s.vm s.space).1 with jittedResult := ⟨true, mode⟩ },
          (dropJitted s.vm s.space).2⟩ := by
      simp only [installCode, ukplatPageMap, hframes, Bool.false_and, Bool.false_eq_true,
        ↓reduceIte]
    -- Nothing was mapped, and the clear window needs no account.
    rw [hnone]
    simp only [hframes, false_implies, Bool.false_eq_true, true_and, iff_true]
    exact accounted_of_clear s.vm _ _ hjit hsize hclear

/-- A compilation leaves the accounts right, and does not find pages left
    over, exactly when it meets the condition. -/
theorem compile_sound_iff
    (hfit : ∀ n mode view code, translate n mode view = some code → code.length ≤ n)
    (s : Jit) (h : Accounted s) (mode : JitMode) (env : PageEnv) :
    PagesSound translate s (.compile mode true env) ↔
      PagesMatch translate s (.compile mode true env) := by
  rw [pagesSound_compile, pagesMatch_compile]
  cases hdone : isCompiled s.vm mode with
  | true =>
      -- The old code is kept.
      have hkept : ubpfCompileEx translate env mode s.vm s.space = ⟨none, s.vm, s.space⟩ := by
        unfold isCompiled at hdone
        rw [ubpfCompileEx, if_pos hdone]
      rw [hkept]
      simp only [ne_eq, reduceCtorEq, not_false_eq_true, implies_true, true_and, MapsCode, hdone,
        Bool.true_eq_false, false_and, false_implies, iff_true]
      exact h
  | false =>
      rcases dropJitted_vm s.vm s.space with ⟨hjit, -, hsize⟩
      have hclear := drop_clears s h
      rcases ubpfCompileEx_cases translate env mode s.vm s.space hdone with
        ⟨hview, heq⟩ | ⟨view, hview, htrans, heq⟩ | ⟨view, code, hview, htrans, heq⟩
      · rw [heq]
        simp only [ne_eq, Option.some.injEq, reduceCtorEq, not_false_eq_true, implies_true,
          true_and, MapsCode, hview, false_and, exists_false, and_false, false_implies, iff_true]
        exact accounted_of_clear s.vm _ _ hjit hsize hclear
      · rw [heq]
        simp only [ne_eq, Option.some.injEq, reduceCtorEq, not_false_eq_true, implies_true,
          true_and, MapsCode, hview, exists_eq_left', htrans, and_false, false_implies, iff_true]
        exact accounted_of_clear s.vm _ _ hjit hsize hclear
      · have hmaps : ∀ code', MapsCode translate s.vm mode code' ↔ code = code' := by
          intro code'
          simp only [MapsCode, hdone, hview, Option.some.injEq, exists_eq_left', htrans, true_and]
        simp only [hmaps, forall_eq']
        rw [heq]
        exact install_sound_iff s h mode env code (hfit _ _ _ _ htrans)

/-- The other operations leave the accounts right. -/
theorem accounted_jstep (s s' : Jit) (h : Accounted s) (e : JitEvent)
    (hother : ∀ mode env, e ≠ .compile mode true env) (hstep : jstep translate s e = some s') :
    Accounted s' := by
  cases e with
  | load base code =>
      rcases ubpfLoad_frame s.vm base code with ⟨hsetup, hjit, hlen⟩
      rw [← Option.some.inj hstep]
      exact accounted_congr s.vm _ s.space hjit hlen hsetup.jitterBufferSize h
  | unload =>
      rcases ubpfUnloadCode_vm s.vm s.space with ⟨-, hjit, hsetup, -⟩
      rw [← Option.some.inj hstep, ubpfUnloadCode_space]
      exact accounted_of_clear s.vm _ _ hjit hsetup.jitterBufferSize (drop_clears s h)
  | compile mode buffer env =>
      cases buffer with
      | true => exact absurd rfl (hother mode env)
      | false =>
          rw [← Option.some.inj hstep]
          unfold ubpfCompileNoBuffer
          split
          · exact h
          · exact accounted_drop s h
  | dump ok =>
      rw [← Option.some.inj hstep]
      exact accounted_congr s.vm _ s.space rfl rfl rfl h

/-- In every run of compilations, unloads, loads and dumps on one machine that
    starts with nothing compiled and an empty window, the pages mapped in the
    window are at all times those of the compiled code, and no compilation
    finds a page left behind, exactly when every compilation that gets to map
    pages makes them executable and has code that does not end with a page. -/
theorem jit_pages_iff
    (hfit : ∀ n mode view code, translate n mode view = some code → code.length ≤ n)
    (s : Jit) (hjit : s.vm.jitted = none)
    (hclear : ∀ page, inWindow s.vm page = true → s.space.mapped page = false)
    (es : List JitEvent) :
    Steps.Along (jstep translate) (PagesSound translate) s es ↔
      Steps.Along (jstep translate) (PagesMatch translate) s es := by
  refine Steps.along_iff (jstep translate) _ _ Accounted ?_ ?_ es s
    (accounted_of_clear s.vm s.vm s.space hjit rfl hclear)
  · intro s e h
    by_cases hcompile : ∃ mode env, e = .compile mode true env
    · rcases hcompile with ⟨mode, env, rfl⟩
      exact compile_sound_iff translate hfit s h mode env
    · have hother : ∀ mode env, e ≠ .compile mode true env := fun mode env heq =>
        hcompile ⟨mode, env, heq⟩
      constructor
      · intro _ mode env code heq
        exact absurd heq (hother mode env)
      · intro _
        exact ⟨fun mode env heq => absurd heq (hother mode env),
          fun s' hs' => accounted_jstep translate s s' h e hother hs'⟩
  · intro s e s' _ hsound hstep
    exact hsound.2 s' hstep

end

/-! ## Sample runs -/

section Sample

/-- A new filter, and nothing mapped. -/
def newFilter : Jit :=
  ⟨initUbpfVm .bpfilter, ⟨fun _ => false, fun _ => 0⟩⟩

/-- A translator whose code has this length, if the buffer is as large. -/
def translateTo (len : Nat) : Translate := fun n _ _ =>
  if len ≤ n then some (List.replicate len 0xc3) else none

theorem length_translateTo (len n : Nat) (mode : JitMode) (view : ProgramView) (code : Bytes)
    (h : translateTo len n mode view = some code) : code.length = len ∧ len ≤ n := by
  unfold translateTo at h
  split at h
  · next hle =>
      rw [← Option.some.inj h, List.length_replicate]
      exact ⟨rfl, hle⟩
  · exact absurd h (by simp only [reduceCtorEq, not_false_eq_true])

/-- Load, compile, unload, and the same once more. -/
def reloads : List JitEvent :=
  [.load 0x200000 passCode, .compile .basic true ⟨true, true⟩, .unload,
    .load 0x200000 passCode, .compile .basic true ⟨true, true⟩]

/-- Code of a hundred bytes. -/
theorem jit_pages_small_code :
    Steps.Along (jstep (translateTo 100)) (PagesSound (translateTo 100)) newFilter reloads := by
  have hmatch : ∀ s e, (∀ mode env, e = .compile mode true env → env.attrs = true) →
      PagesMatch (translateTo 100) s e := by
    intro s e hattrs mode env code heq _ hmaps
    rcases hmaps with ⟨-, view, -, htrans⟩
    refine ⟨hattrs mode env heq, ?_⟩
    rw [(length_translateTo 100 _ mode view code htrans).1]
    decide
  have hsame : ∀ s, PagesMatch (translateTo 100) s (.compile .basic true ⟨true, true⟩) := by
    intro s
    refine hmatch s _ ?_
    rintro mode env heq
    cases heq
    rfl
  have hload : ∀ s, PagesMatch (translateTo 100) s (.load 0x200000 passCode) := fun s =>
    hmatch s _ (fun _ _ heq => absurd heq (by simp only [reduceCtorEq, not_false_eq_true]))
  have hunload : ∀ s, PagesMatch (translateTo 100) s .unload := fun s =>
    hmatch s _ (fun _ _ heq => absurd heq (by simp only [reduceCtorEq, not_false_eq_true]))
  refine (jit_pages_iff (translateTo 100) ?_ newFilter (initUbpfVm_empty .bpfilter).2
    (fun _ _ => rfl) reloads).mpr ?_
  · intro n mode view code h
    have hlen := length_translateTo 100 n mode view code h
    omega
  · exact ⟨hload _, fun s _ => ⟨hsame s, fun s _ => ⟨hunload s, fun s _ => ⟨hload s,
      fun s _ => ⟨hsame s, fun _ _ => trivial⟩⟩⟩⟩⟩

/-- Code of exactly one page. Its second page is never unmapped, and the next
    compilation runs into it. -/
theorem page_left_behind :
    ¬ ∀ translate : Translate,
      (∀ n mode view code, translate n mode view = some code → code.length ≤ n) →
      ∀ s : Jit, s.vm.jitted = none →
        (∀ page, inWindow s.vm page = true → s.space.mapped page = false) →
        ∀ es, Steps.Along (jstep translate) (PagesSound translate) s es := by
  intro hclaim
  have hfit : ∀ n mode view code, translateTo 4096 n mode view = some code → code.length ≤ n := by
    intro n mode view code h
    have hlen := length_translateTo 4096 n mode view code h
    omega
  have halong := hclaim (translateTo 4096) hfit newFilter (initUbpfVm_empty .bpfilter).2
    (fun _ _ => rfl) reloads
  have htest : ((Steps.run (jstep (translateTo 4096)) newFilter (reloads.take 4)).any fun s =>
      decide ((ubpfCompileEx (translateTo 4096) ⟨true, true⟩ .basic s.vm s.space).error =
        some .pageMap)) = true := by
    decide +kernel
  rcases (Option.any_eq_true _ _).mp htest with ⟨s, hrun, herror⟩
  rcases halong with ⟨-, h1⟩
  rcases Steps.run_cons_some _ _ _ _ _ hrun with ⟨s1, hs1, hrun⟩
  rcases h1 s1 hs1 with ⟨-, h2⟩
  rcases Steps.run_cons_some _ _ _ _ _ hrun with ⟨s2, hs2, hrun⟩
  rcases h2 s2 hs2 with ⟨-, h3⟩
  rcases Steps.run_cons_some _ _ _ _ _ hrun with ⟨s3, hs3, hrun⟩
  rcases h3 s3 hs3 with ⟨-, h4⟩
  rcases Steps.run_cons_some _ _ _ _ _ hrun with ⟨s4, hs4, hrun⟩
  rcases h4 s4 hs4 with ⟨h5, -⟩
  rw [← Option.some.inj hrun] at herror
  exact h5.1 .basic ⟨true, true⟩ rfl rfl (of_decide_eq_true herror)

end Sample

end UniBPF
