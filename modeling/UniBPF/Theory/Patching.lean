import UniBPF.Theory.Image

/-!
# The Second Pass

The second pass goes through the four tables and writes a distance into each
field. `linked` is what that makes of the image: every field holds the
distance from its end to the place it refers to.

A jump refers to an instruction by its number, and the number 257 also stands
for the retpoline. The second pass asks for that number first, so a jump to
instruction 257 of a program goes to the retpoline, and a local call of it
fails an assertion. `destination` is where a field leads, with that.

## Main definitions

* `destination`, `fieldBytes`: Where a field leads, and what is written.
* `linked`: The image with its fields filled in.
* `Encoded.linkedBytes`, `Encoded.linkedInstr`: One instruction of it.
* `Listed`: A listing is in the code from an offset on.

## Theorems

* `translated_linked`: The native code is the linked image.
* `listed_linked`: Every listing of an image is in its code.
* `decode_linked`: An instruction of the code decodes as it is listed.
-/

namespace UniBPF

open LittleEndian X86 Relocations

/-- Where a field leads. -/
def destination (m : Marks) : Table → Target → Int
  | .jumps, target =>
    if target.offset ≠ 0 then target.offset
    else if target.pc = targetPcExit then m.exitLoc
    else if target.pc = targetPcRetpoline then m.retpolineLoc
    else m.pcLocs target.pc
  | .localCalls, target => m.pcLocs target.pc - m.prologSize
  | .loads, _ => m.dispatcherLoc
  | .leas, _ => m.helperTableLoc

/-- The distance from the end of a field. -/
def distance (m : Marks) (t : Table) (loc : Nat) (target : Target) : Int :=
  destination m t target - (loc + fieldWidth t target)

def fieldBytes (m : Marks) (t : Table) (loc : Nat) (target : Target) : Bytes :=
  toLE (fieldWidth t target) (u32 (distance m t loc target))

theorem length_fieldBytes (m : Marks) (t : Table) (loc : Nat) (target : Target) :
    (fieldBytes m t loc target).length = fieldWidth t target := length_toLE _ _

/-- An image with its fields filled in. -/
def linked (m : Marks) (ps : List CodePiece) : Bytes :=
  layout (fill (fieldBytes m) (fun _ => true) 0 ps)

/-- What the second pass has looked at when it wrote a field: a short distance
    is short, and a local call does not go to a number that stands for
    something else. -/
def Resolved (m : Marks) (t : Table) (loc : Nat) (target : Target) : Prop :=
  match t with
  | .jumps => target.near = true →
      -128 ≤ distance m .jumps loc target ∧ distance m .jumps loc target < 128
  | .localCalls => target.pc ≠ targetPcExit ∧ target.pc ≠ targetPcRetpoline
  | _ => True

theorem jumpTarget_destination (s : JitState) (e : Nat × Target) :
    (s.jumpTarget (toEntry e) : Int) = destination s.marks .jumps e.2 := by
  by_cases hoff : e.2.offset ≠ 0
  · rw [JitState.jumpTarget, if_pos (show (toEntry e).targetOffset ≠ 0 from hoff), destination,
      if_pos hoff]
    rfl
  · rw [JitState.jumpTarget, if_neg (show ¬ (toEntry e).targetOffset ≠ 0 from hoff), destination,
      if_neg hoff]
    by_cases hexit : e.2.pc = targetPcExit
    · rw [if_pos (show (toEntry e).targetPc = targetPcExit from hexit), if_pos hexit]
      rfl
    · rw [if_neg (show ¬ (toEntry e).targetPc = targetPcExit from hexit), if_neg hexit]
      by_cases hret : e.2.pc = targetPcRetpoline
      · rw [if_pos (show (toEntry e).targetPc = targetPcRetpoline from hret), if_pos hret]
        rfl
      · rw [if_neg (show ¬ (toEntry e).targetPc = targetPcRetpoline from hret), if_neg hret]
        rfl

theorem resolveJump_ok (s : JitState) (buf out : Bytes) (e : Nat × Target)
    (h : resolveJump s buf (toEntry e) = .ok out) :
    out = patchAt buf e.1 (fieldBytes s.marks .jumps e.1 e.2) ∧
      Resolved s.marks .jumps e.1 e.2 := by
  have hdest := jumpTarget_destination s e
  cases hnear : e.2.near with
  | true =>
      have hdist : distance s.marks .jumps e.1 e.2 =
          s.jumpTarget (toEntry e) - (e.1 + 1) := by
        rw [distance, hdest, fieldWidth, if_pos hnear]
        rfl
      simp only [resolveJump, toEntry, hnear, if_true] at h
      split at h
      next hrange =>
        rw [Except.ok.injEq] at h
        refine ⟨?_, fun _ => ?_⟩
        · rw [← h, fieldBytes, hdist, fieldWidth, if_pos hnear]
          rfl
        · rw [hdist]
          exact hrange
      next => exact absurd h (by simp only [reduceCtorEq, not_false_eq_true])
  | false =>
      have hdist : distance s.marks .jumps e.1 e.2 =
          s.jumpTarget (toEntry e) - (e.1 + 4) := by
        rw [distance, hdest, fieldWidth, if_neg (by simp only [hnear, Bool.false_eq_true,
          not_false_eq_true])]
        rfl
      simp only [resolveJump, toEntry, hnear, Bool.false_eq_true, if_false, Except.ok.injEq] at h
      refine ⟨?_, fun hn => absurd (hnear.symm.trans hn) Bool.false_ne_true⟩
      rw [← h, fieldBytes, hdist, fieldWidth, if_neg (by simp only [hnear, Bool.false_eq_true,
        not_false_eq_true]), patchRel32]
      rfl

theorem resolveLocalCall_ok (s : JitState) (buf out : Bytes) (e : Nat × Target)
    (h : resolveLocalCall s buf (toEntry e) = .ok out) :
    out = patchAt buf e.1 (fieldBytes s.marks .localCalls e.1 e.2) ∧
      Resolved s.marks .localCalls e.1 e.2 := by
  by_cases hne : (toEntry e).targetOffset ≠ 0 ∨ (toEntry e).targetPc = targetPcExit ∨
      (toEntry e).targetPc = targetPcRetpoline
  · rw [resolveLocalCall, if_pos hne] at h
    exact absurd h (by simp only [reduceCtorEq, not_false_eq_true])
  · rw [resolveLocalCall, if_neg hne, Except.ok.injEq] at h
    exact ⟨h.symm, fun h => hne (Or.inr (Or.inl h)), fun h => hne (Or.inr (Or.inr h))⟩

theorem resolveTo_ok (known loc : Nat) (buf out : Bytes) (e : Nat × Target)
    (h : resolveTo known loc buf (toEntry e) = .ok out) :
    out = patchAt buf e.1 (toLE 4 (u32 (loc - (e.1 + 4)))) := by
  by_cases hpc : (toEntry e).targetPc = known
  · rw [resolveTo, if_pos hpc] at h
    exact (Except.ok.inj h).symm
  · rw [resolveTo, if_neg hpc] at h
    exact absurd h (by simp only [reduceCtorEq, not_false_eq_true])

theorem bind_eq_ok {ε α β : Type} {x : Except ε α} {f : α → Except ε β} {r : β}
    (h : (x >>= f) = .ok r) : ∃ a, x = .ok a ∧ f a = .ok r := by
  cases x with
  | error e => exact absurd h (by simp only [bind, Except.bind, reduceCtorEq, not_false_eq_true])
  | ok a => exact ⟨a, rfl, h⟩

/-- Going through a table that may fail, when it does not. -/
theorem foldlM_overwrite (g : Bytes → PatchableRelative → Except TranslateError Bytes)
    (f : Nat → Target → Bytes) (P : Nat → Target → Prop)
    (hg : ∀ buf out e, g buf (toEntry e) = .ok out → out = patchAt buf e.1 (f e.1 e.2) ∧ P e.1 e.2)
    (es : List (Nat × Target)) (buf out : Bytes)
    (h : (es.map toEntry).foldlM g buf = .ok out) :
    out = es.foldl (fun buf e => patchAt buf e.1 (f e.1 e.2)) buf ∧ ∀ e ∈ es, P e.1 e.2 := by
  induction es generalizing buf with
  | nil => exact ⟨(Except.ok.inj h).symm, fun e he => absurd he List.not_mem_nil⟩
  | cons e es ih =>
      rw [List.map_cons, List.foldlM_cons] at h
      rcases bind_eq_ok h with ⟨mid, hfirst, h⟩
      rcases hg buf mid e hfirst with ⟨hmid, hP⟩
      rcases ih mid h with ⟨hout, hrest⟩
      refine ⟨?_, ?_⟩
      · rw [List.foldl_cons, ← hmid]
        exact hout
      · intro e' he'
        rcases List.mem_cons.mp he' with rfl | he'
        · exact hP
        · exact hrest e' he'

/-- One table of the second pass. -/
theorem foldlM_table (m : Marks) (t : Table) (done : Table → Bool) (ps : List CodePiece)
    (hfits : Fits (fieldBytes m) ps)
    (g : Bytes → PatchableRelative → Except TranslateError Bytes)
    (hg : ∀ buf out e, g buf (toEntry e) = .ok out →
      out = patchAt buf e.1 (fieldBytes m t e.1 e.2) ∧ Resolved m t e.1 e.2)
    (out : Bytes)
    (h : ((tableOf t 0 ps).map toEntry).foldlM g (layout (fill (fieldBytes m) done 0 ps)) =
      .ok out) :
    out = layout (fill (fieldBytes m) (andTable done t) 0 ps) ∧
      ∀ e ∈ tableOf t 0 ps, Resolved m t e.1 e.2 := by
  rcases foldlM_overwrite g (fieldBytes m t) (Resolved m t) hg _ _ _ h with ⟨hout, hres⟩
  have hfold := foldl_patchAt (fieldBytes m) done t ps hfits [] []
  simp only [List.length_nil, List.nil_append, List.append_nil] at hfold
  exact ⟨hout.trans hfold, hres⟩

theorem fits_pieces (m : Marks) (es : List Encoded) : Fits (fieldBytes m) (pieces es) := by
  intro p hp field hfield loc
  rcases List.mem_map.mp hp with ⟨e, -, rfl⟩
  rw [length_fieldBytes, e.sized field hfield]

theorem fits_image (m : Marks) (host : HostAddresses) (program : ProgramView) (mode : JitMode) :
    Fits (fieldBytes m) (image host program mode) := by
  intro p hp field hfield loc
  rcases List.mem_append.mp hp with hp | hp
  · exact fits_pieces m _ p hp field hfield loc
  · simp only [dataPieces, List.mem_cons, List.not_mem_nil, or_false] at hp
    rcases hp with rfl | rfl
    · exact absurd hfield (Option.some_ne_none _).symm
    · exact absurd hfield (Option.some_ne_none _).symm

/-- The second pass on a state that holds pieces and nothing else. -/
theorem resolve_linked (s : JitState) (ps : List CodePiece) (out : Bytes)
    (hbuf : s.buf = layout ps) (htable : ∀ t, s.table t = (tableOf t 0 ps).map toEntry)
    (hfits : Fits (fieldBytes s.marks) ps) (h : resolvePatchableRelatives s = .ok out) :
    out = linked s.marks ps ∧ ∀ t, ∀ e ∈ tableOf t 0 ps, Resolved s.marks t e.1 e.2 := by
  have hjumps : s.jumps = (tableOf .jumps 0 ps).map toEntry := htable .jumps
  have hcalls : s.localCalls = (tableOf .localCalls 0 ps).map toEntry := htable .localCalls
  have hloads : s.loads = (tableOf .loads 0 ps).map toEntry := htable .loads
  have hleas : s.leas = (tableOf .leas 0 ps).map toEntry := htable .leas
  have hstart : s.buf = layout (fill (fieldBytes s.marks) (fun _ => false) 0 ps) := by
    rw [hbuf, fill_none]
  rcases bind_eq_ok h with ⟨buf1, h1, h⟩
  rcases bind_eq_ok h with ⟨buf2, h2, h⟩
  rcases bind_eq_ok h with ⟨buf3, h3, h4⟩
  rw [hjumps, hstart] at h1
  rcases foldlM_table s.marks .jumps _ ps hfits _ (resolveJump_ok s) buf1 h1 with ⟨hbuf1, hres1⟩
  rw [hcalls, hbuf1] at h2
  rcases foldlM_table s.marks .localCalls _ ps hfits _ (resolveLocalCall_ok s) buf2 h2 with
    ⟨hbuf2, hres2⟩
  rw [hloads, hbuf2] at h3
  rcases foldlM_table s.marks .loads _ ps hfits _ (fun buf out e h =>
    ⟨resolveTo_ok _ _ buf out e h, trivial⟩) buf3 h3 with ⟨hbuf3, hres3⟩
  rw [hleas, hbuf3] at h4
  rcases foldlM_table s.marks .leas _ ps hfits _ (fun buf out e h =>
    ⟨resolveTo_ok _ _ buf out e h, trivial⟩) out h4 with ⟨hout, hres4⟩
  have hdone : andTable (andTable (andTable (andTable (fun _ => false) Table.jumps) .localCalls)
      .loads) .leas = fun _ => true := by
    funext t
    cases t
    all_goals rfl
  rw [hdone] at hout
  refine ⟨hout, fun t e he => ?_⟩
  cases t with
  | jumps => exact hres1 e he
  | localCalls => exact hres2 e he
  | loads => exact hres3 e he
  | leas => exact hres4 e he

/-- The native code is the linked image. -/
theorem translated_linked (host : HostAddresses) (program : ProgramView) (size : Nat)
    (mode : JitMode) (code : Bytes) (hbase : BasesOk program.insts)
    (hcomplete : Complete host program size mode)
    (h : ubpfTranslateX86 host size mode program = .ok code) :
    code = linked (imageMarks program size mode) (image host program mode) ∧
      ∀ t, ∀ e ∈ tableOf t 0 (image host program mode),
        Resolved (imageMarks program size mode) t e.1 e.2 := by
  rcases hcomplete with ⟨s, hs, hok⟩
  rcases bind_eq_ok h with ⟨s', hs', hresolve⟩
  rw [hs, Except.ok.injEq] at hs'
  subst hs'
  rcases translate_image host program size mode s hbase hs hok with ⟨hgrows, hmarks⟩
  rw [← hmarks]
  have htable : ∀ t, s.table t = (tableOf t 0 (image host program mode)).map toEntry := by
    intro t
    cases t with
    | jumps => exact hgrows.table .jumps
    | localCalls => exact hgrows.table .localCalls
    | loads => exact hgrows.table .loads
    | leas => exact hgrows.table .leas
  exact resolve_linked s _ code hgrows.buf htable (fits_image _ host program mode) hresolve

theorem translated_length (host : HostAddresses) (program : ProgramView) (size : Nat)
    (mode : JitMode) (code : Bytes) (hbase : BasesOk program.insts)
    (hcomplete : Complete host program size mode)
    (h : ubpfTranslateX86 host size mode program = .ok code) : code.length ≤ size := by
  rw [(translated_linked host program size mode code hbase hcomplete h).1, linked,
    length_layout_fill _ _ _ _ (fits_image _ host program mode)]
  exact hcomplete.fits hbase

/-! ## One instruction of the code -/

/-- What a field holds in the end. -/
def X86.Encoded.linkedContent (m : Marks) (off : Nat) (e : Encoded) : Bytes :=
  (e.piece.fillAt (fieldBytes m) (fun _ => true) off).content

def X86.Encoded.linkedBytes (m : Marks) (off : Nat) (e : Encoded) : Bytes :=
  (e.piece.fillAt (fieldBytes m) (fun _ => true) off).bytes

/-- The instruction with its distance. -/
def X86.Encoded.linkedInstr (m : Marks) (off : Nat) (e : Encoded) : Instr :=
  e.instr (signedField (e.linkedContent m off))

def X86.Encoded.size (e : Encoded) : Nat := e.piece.bytes.length

theorem X86.Encoded.length_linked (m : Marks) (off : Nat) (e : Encoded) :
    (e.linkedBytes m off).length = e.size := by
  refine Piece.length_fillAt _ _ off e.piece (fun field hfield loc => ?_)
  rw [length_fieldBytes, e.sized field hfield]

/-- An instruction of the code decodes as it is listed. -/
theorem decode_linked (m : Marks) (off : Nat) (e : Encoded) (rest : Bytes) :
    decode (e.linkedBytes m off ++ rest) = some (e.linkedInstr m off, rest) := by
  have hlen := e.length_linked m off
  rw [Encoded.linkedBytes, Piece.bytes, Piece.head_fillAt] at hlen ⊢
  rw [List.append_assoc]
  refine e.decodes _ rest ?_
  rw [Encoded.size, Piece.bytes, List.length_append, List.length_append] at hlen
  omega

/-- A listing is in the code from an offset on. -/
def Listed (m : Marks) (code : Bytes) : Nat → List Encoded → Prop
  | _, [] => True
  | off, e :: es => e.linkedBytes m off <+: code.drop off ∧ Listed m code (off + e.size) es

theorem Listed.append {m : Marks} {code : Bytes} {off : Nat} {es es' : List Encoded}
    (h : Listed m code off (es ++ es')) :
    Listed m code off es ∧ Listed m code (off + codeLength es) es' := by
  induction es generalizing off with
  | nil => exact ⟨trivial, h⟩
  | cons e es ih =>
      rcases ih h.2 with ⟨hes, hes'⟩
      refine ⟨⟨h.1, hes⟩, ?_⟩
      have hlen : off + codeLength (e :: es) = off + e.size + codeLength es := by
        rw [codeLength, pieces, List.map_cons, layout_cons, List.length_append, ← Nat.add_assoc]
        rfl
      rw [hlen]
      exact hes'

theorem listed_fill (m : Marks) (es : List Encoded) (pre post : Bytes) :
    Listed m (pre ++ (layout (fill (fieldBytes m) (fun _ => true) pre.length (pieces es)) ++ post))
      pre.length es := by
  induction es generalizing pre with
  | nil => trivial
  | cons e es ih =>
      have hlen : (pre ++ e.linkedBytes m pre.length).length = pre.length + e.size := by
        rw [List.length_append, Encoded.length_linked]
      have hrest := ih (pre ++ e.linkedBytes m pre.length)
      rw [hlen, List.append_assoc] at hrest
      rw [pieces, List.map_cons, fill, layout_cons, List.append_assoc]
      refine ⟨?_, hrest⟩
      rw [List.drop_left]
      exact List.prefix_append _ _

/-- The code of an image is its listing. -/
theorem listed_linked (m : Marks) (host : HostAddresses) (program : ProgramView) (mode : JitMode) :
    Listed m (linked m (image host program mode)) 0 (codeListing program mode) := by
  have hall := listed_fill m (codeListing program mode) []
    (layout (fill (fieldBytes m) (fun _ => true)
      (layout (pieces (codeListing program mode))).length (dataPieces host program)))
  rw [linked, image, fill_append, layout_append, Nat.zero_add]
  exact hall

end UniBPF
