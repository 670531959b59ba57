import UniBPF.Core.Verifier
import UniBPF.Theory.Configure

/-!
# The Entry Point That Was Verified

The verifier and the loader read the same object and both look for `main`.
The verifier takes the first function symbol of that name. The loader gives
every such symbol slot 0 of its table, so that the last one stays there, and
lays the program out from slot 0 on. The two also disagree on the names:
the loader looks them up in the first string table of the file, the verifier
in the one the symbol table is linked to.

`read_elf` is not part of the repository. What is assumed of it is that it
returns one raw program for each function symbol, in the order of the symbol
table.

The symbol loop is put in closed form first: what it collects is the last
symbol with the name, and the other functions in order. The function at
instruction 0 is then the first of these that is not empty.

## Main definitions

* `symbolsFrom`, `functionSymbols`: The symbols of an object.
* `isMain`, `Tables.laidOut`: The functions the loader places, in its order.
* `entryOrder`: The same where the entry point is looked up by name.
* `ReadsSymbols`: What is assumed of `read_elf`.
* `EntryPlaced`: The function at instruction 0 is where the verified one is.
* `SameEntry`: The condition, on the symbol table.

## Theorems

* `collectFunction_cases`: What one round of the symbol loop does.
* `collectFunctions_eq`: The symbol loop in closed form.
* `placeFunctions_first`: The function at the first spot.
* `parseElf_stages`, `parseElf_laidOut`, `parseElf_placed`: What a load goes
  through before it links.
* `entry_point_iff`: The verified function is the one that is executed.
-/

namespace UniBPF

open LittleEndian

/-- The symbol at an offset. -/
def symAt (elf : Bytes) (off : Nat) : Sym where
  name := readLE elf off 4
  info := readLE elf (off + 4) 1
  shndx := readLE elf (off + 6) 2
  value := readLE elf (off + 8) 8
  size := readLE elf (off + 16) 8

/-- `n` symbols from an offset on. -/
def symbolsFrom (elf : Bytes) : Nat → Nat → List Sym
  | 0, _ => []
  | n + 1, off => symAt elf off :: symbolsFrom elf n (off + sizeofSym)

/-- `STT_FUNC`. -/
def Sym.isFunc (sym : Sym) : Bool := sym.info % 16 == 2

/-- The function symbols among the first `n` of a table. -/
def functionSymbols (elf : Bytes) (symtab : Section) (n : Nat) : List Sym :=
  (symbolsFrom elf n symtab.offset).filter Sym.isFunc

/-- The string at an offset is this one. -/
def spells (elf : Bytes) (off : Nat) (name : Bytes) : Bool :=
  (elf.drop off).take (name.length + 1) == name ++ [0]

/-- What the loader records of a function symbol. -/
def relocatedFunction (sections : List Section) (strtab : StrTab) (sym : Sym) :
    RelocatedFunction where
  name := strtab.offset + sym.name
  shdr := (sections[sym.shndx]?).elim 0 Section.shdr
  nativeData := (sections[sym.shndx]?).elim 0 Section.offset + sym.value
  nativeSectionStart := sym.value
  size := sym.size
  linkedData := 0
  landed := 0

theorem parseSym_eq (elf : Bytes) (off : Nat) (sym : Sym) (h : parseSym elf off = .ok sym) :
    off + sizeofSym ≤ elf.length ∧ sym = symAt elf off := by
  unfold parseSym at h
  split at h
  · exact absurd h (by simp only [reduceCtorEq, not_false_eq_true])
  · next hin => exact ⟨Nat.le_of_not_lt hin, (Except.ok.inj h).symm⟩

theorem strEq_eq (elf : Bytes) (off : Nat) (lit : Bytes) (b : Bool)
    (h : strEq elf off lit = .ok b) : b = spells elf off lit := by
  unfold strEq at h
  by_cases hlit : (elf.drop off).take (lit.length + 1) = lit ++ [0]
  · simp only [hlit, ↓reduceIte, Except.ok.injEq] at h
    simp only [← h, spells, hlit, beq_self_eq_true]
  · have hno : spells elf off lit = false := by
      simp only [spells, beq_eq_false_iff_ne, ne_eq, hlit, not_false_eq_true]
    simp only [hlit, ↓reduceIte] at h
    split at h
    · exact absurd h (by simp only [reduceCtorEq, not_false_eq_true])
    · rw [hno, ← Except.ok.inj h]

section

variable (elf : Bytes) (sections : List Section) (strtab : StrTab) (main : Option Bytes)
  (totalSymbols : Nat)

/-- The loader takes the symbol for the entry point it looks for by name. -/
def isEntry (name : Bytes) (sym : Sym) : Bool := spells elf (strtab.offset + sym.name) name

/-- The loader takes the symbol for the entry point. -/
def isMain (sym : Sym) : Bool :=
  match sections[sym.shndx]? with
  | none => false
  | some sec => (isMainFunction elf strtab main sec sym).toOption.getD false

/-- The loader gets an answer to that question. -/
def Checked (sym : Sym) : Prop :=
  ∃ sec b, sections[sym.shndx]? = some sec ∧ isMainFunction elf strtab main sec sym = .ok b

/-- One round of the symbol loop: a symbol that is no function is skipped, the
    entry point goes to slot 0 whatever is there, and any other function to
    the end. -/
theorem collectFunction_cases (sym : Sym) (acc acc' : Functions)
    (h : collectFunction elf sections strtab main totalSymbols sym acc = .ok acc') :
    (sym.isFunc = false ∧ acc' = acc) ∨
    (sym.isFunc = true ∧ Checked elf sections strtab main sym ∧
      ((isMain elf sections strtab main sym = true ∧
        acc'.main = some (relocatedFunction sections strtab sym) ∧ acc'.others = acc.others) ∨
      (isMain elf sections strtab main sym = false ∧ acc'.main = acc.main ∧
        acc'.others = acc.others ++ [relocatedFunction sections strtab sym]))) := by
  unfold collectFunction at h
  by_cases hfunc : sym.info % 16 = 2
  · have hisFunc : sym.isFunc = true := by
      simp only [Sym.isFunc, hfunc, beq_self_eq_true]
    simp only [hfunc, ne_eq, not_true_eq_false, ↓reduceIte] at h
    -- The offset, the section and the extent are checked for every function.
    split at h
    · exact absurd h (by simp only [reduceCtorEq, not_false_eq_true])
    split at h
    · exact absurd h (by simp only [reduceCtorEq, not_false_eq_true])
    cases hsec : sections[sym.shndx]? with
    | none =>
        rw [hsec] at h
        exact absurd h (by simp only [reduceCtorEq, not_false_eq_true])
    | some sec =>
        simp only [hsec] at h
        split at h
        · exact absurd h (by simp only [reduceCtorEq, not_false_eq_true])
        cases hmain : isMainFunction elf strtab main sec sym with
        | error stop =>
            rw [hmain] at h
            exact absurd h (by simp only [reduceCtorEq, not_false_eq_true])
        | ok b =>
            have hisMain : isMain elf sections strtab main sym = b := by
              simp only [isMain, hsec, hmain, Except.toOption, Option.getD_some]
            refine .inr ⟨hisFunc, ⟨sec, b, hsec, hmain⟩, ?_⟩
            cases b with
            | true =>
                -- Slot 0 is written whatever it held.
                simp only [hmain, Except.ok.injEq] at h
                refine .inl ⟨hisMain, ?_, ?_⟩
                · rw [← h]
                  simp only [relocatedFunction, hsec, Option.elim_some]
                · rw [← h]
            | false =>
                simp only [hmain] at h
                split at h
                · exact absurd h (by simp only [reduceCtorEq, not_false_eq_true])
                · refine .inr ⟨hisMain, ?_, ?_⟩
                  · rw [← Except.ok.inj h]
                  · rw [← Except.ok.inj h]
                    simp only [relocatedFunction, hsec, Option.elim_some]
  · simp only [ne_eq, hfunc, not_false_eq_true, ↓reduceIte, Except.ok.injEq] at h
    refine .inl ⟨?_, h.symm⟩
    simp only [Sym.isFunc, beq_eq_false_iff_ne, ne_eq, hfunc, not_false_eq_true]

/-- A round of the symbol loop, and the rounds behind it. -/
theorem collectFunctions_succ (n off : Nat) (acc acc' : Functions)
    (h : collectFunctions elf sections strtab main totalSymbols (n + 1) off acc = .ok acc') :
    off + sizeofSym ≤ elf.length ∧
      ∃ mid, collectFunction elf sections strtab main totalSymbols (symAt elf off) acc = .ok mid ∧
        collectFunctions elf sections strtab main totalSymbols n (off + sizeofSym) mid =
          .ok acc' := by
  simp only [collectFunctions] at h
  cases hsym : parseSym elf off with
  | error stop =>
      rw [hsym] at h
      exact absurd h (by simp only [reduceCtorEq, not_false_eq_true])
  | ok sym =>
      simp only [hsym] at h
      rw [← (parseSym_eq elf off sym hsym).2]
      refine ⟨(parseSym_eq elf off sym hsym).1, ?_⟩
      cases hround : collectFunction elf sections strtab main totalSymbols sym acc with
      | error stop =>
          rw [hround] at h
          exact absurd h (by simp only [reduceCtorEq, not_false_eq_true])
      | ok mid =>
          simp only [hround] at h
          exact ⟨mid, rfl, h⟩

/-- The symbols the loop goes through are in the file. -/
theorem collectFunctions_inside (n : Nat) : ∀ (off : Nat) (acc acc' : Functions),
    collectFunctions elf sections strtab main totalSymbols n off acc = .ok acc' →
      n = 0 ∨ off + n * sizeofSym ≤ elf.length := by
  induction n with
  | zero => exact fun _ _ _ _ => .inl rfl
  | succ n ih =>
      intro off acc acc' h
      rcases collectFunctions_succ elf sections strtab main totalSymbols n off acc acc' h with
        ⟨hfirst, mid, -, hrest⟩
      refine .inr ?_
      rcases ih (off + sizeofSym) mid acc' hrest with hzero | hmore
      · rw [hzero]
        omega
      · rw [Nat.succ_mul]
        omega

/-- The symbol loop keeps the last entry point and every other function. -/
theorem collectFunctions_eq (n : Nat) : ∀ (off : Nat) (acc acc' : Functions),
    collectFunctions elf sections strtab main totalSymbols n off acc = .ok acc' →
    acc'.main = ((((symbolsFrom elf n off).filter Sym.isFunc).filter
      (isMain elf sections strtab main)).getLast?.map
        (relocatedFunction sections strtab)).or acc.main ∧
    acc'.others = acc.others ++ (((symbolsFrom elf n off).filter Sym.isFunc).filter
      (fun sym => !isMain elf sections strtab main sym)).map (relocatedFunction sections strtab) ∧
    ∀ sym ∈ (symbolsFrom elf n off).filter Sym.isFunc, Checked elf sections strtab main sym := by
  induction n with
  | zero =>
      intro off acc acc' h
      simp only [collectFunctions, Except.ok.injEq] at h
      rw [← h]
      simp only [symbolsFrom, List.filter_nil, List.getLast?_nil, Option.map_none, Option.none_or,
        List.map_nil, List.append_nil, List.not_mem_nil, false_implies, implies_true, and_self]
  | succ n ih =>
      intro off acc acc' h
      rcases collectFunctions_succ elf sections strtab main totalSymbols n off acc acc' h with
        ⟨-, mid, hround, hrest⟩
      rcases ih (off + sizeofSym) mid acc' hrest with ⟨hmain, hothers, hsecs⟩
      rw [symbolsFrom]
      rcases collectFunction_cases elf sections strtab main totalSymbols (symAt elf off) acc mid
        hround with ⟨hfunc, hmid⟩ | ⟨hfunc, hsec, hcase⟩
      · rw [List.filter_cons_of_neg (by rw [hfunc]; exact Bool.false_ne_true), ← hmid]
        exact ⟨hmain, hothers, hsecs⟩
      rw [List.filter_cons_of_pos hfunc]
      have hall : ∀ sym ∈ symAt elf off ::
          (symbolsFrom elf n (off + sizeofSym)).filter Sym.isFunc,
          Checked elf sections strtab main sym := by
        intro sym hmem
        rcases List.mem_cons.mp hmem with heq | hmem
        · rw [heq]
          exact hsec
        · exact hsecs sym hmem
      rcases hcase with ⟨hentry, hm, ho⟩ | ⟨hentry, hm, ho⟩
      · rw [List.filter_cons_of_pos hentry,
          List.filter_cons_of_neg (by rw [hentry]; exact Bool.false_ne_true)]
        refine ⟨?_, by rw [hothers, ho], hall⟩
        rw [hmain, hm, List.getLast?_cons]
        -- A later entry point wins over this one.
        cases (List.filter (isMain elf sections strtab main)
          (List.filter Sym.isFunc (symbolsFrom elf n (off + sizeofSym)))).getLast? <;> rfl
      · rw [List.filter_cons_of_neg (by rw [hentry]; exact Bool.false_ne_true),
          List.filter_cons_of_pos (by rw [hentry]; rfl)]
        refine ⟨by rw [hmain, hm], ?_, hall⟩
        rw [hothers, ho, List.append_assoc]
        rfl

/-- By name the two tests are one. -/
theorem isMain_eq_isEntry (name : Bytes) (sym : Sym)
    (h : Checked elf sections strtab (some name) sym) :
    isMain elf sections strtab (some name) sym = isEntry elf strtab name sym := by
  rcases h with ⟨sec, b, hsec, hmain⟩
  simp only [isMain, hsec, hmain, Except.toOption, Option.getD_some]
  exact strEq_eq elf _ name b hmain

end

/-- The functions in the order in which the loader places them: the last entry
    point, then the functions that are none. -/
def entryOrder (elf : Bytes) (strtab : StrTab) (name : Bytes) (syms : List Sym) : List Sym :=
  (syms.filter (isEntry elf strtab name)).getLast?.toList ++
    syms.filter (fun sym => !isEntry elf strtab name sym)

theorem mem_of_mem_ordered (p : Sym → Bool) (syms : List Sym) (sym : Sym)
    (h : sym ∈ (syms.filter p).getLast?.toList ++ syms.filter (fun s => !p s)) : sym ∈ syms := by
  rcases List.mem_append.mp h with hlast | hother
  · have hmem := List.mem_of_getLast? (Option.mem_toList.mp hlast)
    exact List.mem_of_mem_filter hmem
  · exact List.mem_of_mem_filter hother

/-- A function goes to the spot, and the rest behind it. -/
theorem placeFunctions_cons (elf : Bytes) (rf : RelocatedFunction) (rfs : List RelocatedFunction)
    (spot : Nat) (placed : List RelocatedFunction) (code : Bytes)
    (h : placeFunctions elf (rf :: rfs) spot = .ok (placed, code)) :
    ∃ rest, placeFunctions elf rfs (spot + rf.size) = .ok rest ∧
      placed = { rf with linkedData := spot, landed := spot / 8 } :: rest.1 ∧
      rf.nativeData + rf.size ≤ elf.length ∧
      code = (elf.drop rf.nativeData).take rf.size ++ rest.2 := by
  simp only [placeFunctions] at h
  split at h
  · exact absurd h (by simp only [reduceCtorEq, not_false_eq_true])
  rename_i hfits
  cases hrest : placeFunctions elf rfs (spot + rf.size) with
  | error stop =>
      rw [hrest] at h
      exact absurd h (by simp only [reduceCtorEq, not_false_eq_true])
  | ok rest =>
      simp only [hrest, Except.ok.injEq, Prod.mk.injEq] at h
      exact ⟨rest, rfl, h.1.symm, by omega, h.2.symm⟩

theorem placeFunctions_le (elf : Bytes) (fs : List RelocatedFunction) :
    ∀ (spot : Nat) (placed : List RelocatedFunction) (code : Bytes),
      placeFunctions elf fs spot = .ok (placed, code) → ∀ f ∈ placed, spot ≤ f.linkedData := by
  induction fs with
  | nil =>
      intro spot placed code h f hf
      simp only [placeFunctions, Except.ok.injEq, Prod.mk.injEq] at h
      rw [← h.1] at hf
      exact absurd hf (by simp only [List.not_mem_nil, not_false_eq_true])
  | cons rf rfs ih =>
      intro spot placed code h f hf
      rcases placeFunctions_cons elf rf rfs spot placed code h with ⟨rest, hrest, hplaced, -⟩
      rw [hplaced, List.mem_cons] at hf
      rcases hf with hf | hf
      · rw [hf]
      · have hle := ih (spot + rf.size) rest.1 rest.2 hrest f hf
        omega

/-- The function at the first spot is the first one that takes any room. -/
theorem placeFunctions_first (elf : Bytes) (P : Nat → Nat → Prop) (fs : List RelocatedFunction) :
    ∀ (spot : Nat) (placed : List RelocatedFunction) (code : Bytes),
      placeFunctions elf fs spot = .ok (placed, code) →
      ((∃ f ∈ placed, f.linkedData = spot ∧ 0 < f.size ∧ P f.shdr f.nativeSectionStart) ↔
        ∃ f, fs.find? (fun f => decide (0 < f.size)) = some f ∧ P f.shdr f.nativeSectionStart) := by
  induction fs with
  | nil =>
      intro spot placed code h
      simp only [placeFunctions, Except.ok.injEq, Prod.mk.injEq] at h
      rw [← h.1]
      simp only [List.not_mem_nil, false_and, exists_false, List.find?_nil, reduceCtorEq]
  | cons rf rfs ih =>
      intro spot placed code h
      rcases placeFunctions_cons elf rf rfs spot placed code h with ⟨rest, hrest, hplaced, -⟩
      rw [hplaced]
      by_cases hsize : 0 < rf.size
      -- Everything behind it lands further on.
      · rw [List.find?_cons_of_pos (by simp only [hsize, decide_true])]
        constructor
        · rintro ⟨f, hf, hspot, -, hP⟩
          rw [List.mem_cons] at hf
          rcases hf with hf | hf
          · exact ⟨rf, rfl, by rw [hf] at hP; exact hP⟩
          · have hle := placeFunctions_le elf rfs _ rest.1 rest.2 hrest f hf
            omega
        · rintro ⟨f, hf, hP⟩
          rw [Option.some.injEq] at hf
          subst hf
          exact ⟨_, List.mem_cons_self, rfl, hsize, hP⟩
      -- It takes no room, so the next one is at the same spot.
      · rw [List.find?_cons_of_neg (by simp only [hsize, decide_false, Bool.false_eq_true,
          not_false_eq_true])]
        have hzero : rf.size = 0 := by omega
        rw [hzero, Nat.add_zero] at hrest
        rw [← ih spot rest.1 rest.2 hrest]
        constructor
        · rintro ⟨f, hf, hspot, hpos, hP⟩
          rw [List.mem_cons] at hf
          rcases hf with hf | hf
          · rw [hf] at hpos
            exact absurd hpos hsize
          · exact ⟨f, hf, hspot, hpos, hP⟩
        · rintro ⟨f, hf, h⟩
          exact ⟨f, List.mem_cons_of_mem _ hf, h⟩

/-- The tables of an object, as the loader finds them. -/
structure Tables where
  sections : List Section
  strtab : StrTab
  symtab : Section
deriving DecidableEq, Repr

/-- The tables, where the headers can be read and there is one of each. -/
def tables (elf : Bytes) : Option Tables :=
  match parseEhdr elf with
  | .error _ => none
  | .ok ehdr =>
    match parseSections elf ehdr.shentsize ehdr.shnum ehdr.shoff with
    | .error _ => none
    | .ok sections =>
      match sections.find? (fun s => s.type == shtStrtab),
          sections.find? (fun s => s.type == shtSymtab) with
      | some str, some symtab => some ⟨sections, ⟨str.offset, str.size % 2 ^ 32⟩, symtab⟩
      | _, _ => none

/-- The function symbols the loader goes through. Their number is kept in an
    `int` on the way. -/
def Tables.loaded (t : Tables) (elf : Bytes) : List Sym :=
  functionSymbols elf t.symtab (intAsSize t.symtab.size / sizeofSym)

/-- All function symbols. -/
def Tables.functions (t : Tables) (elf : Bytes) : List Sym :=
  functionSymbols elf t.symtab (t.symtab.size / sizeofSym)

/-- The function symbols the loader lays out, in its order: of the entry
    points the last one, then the functions that are none. -/
def Tables.laidOut (t : Tables) (elf : Bytes) (main : Option Bytes) : List Sym :=
  ((t.loaded elf).filter (isMain elf t.sections t.strtab main)).getLast?.toList ++
    (t.loaded elf).filter (fun sym => !isMain elf t.sections t.strtab main sym)

theorem Tables.mem_loaded (t : Tables) (elf : Bytes) (main : Option Bytes) (sym : Sym)
    (h : sym ∈ t.laidOut elf main) : sym ∈ t.loaded elf :=
  mem_of_mem_ordered _ _ sym h

theorem layoutFunctions_ok (elf : Bytes) (sections : List Section) (strtab : StrTab)
    (found : Functions) (layout : Layout)
    (h : layoutFunctions elf sections strtab found = .ok layout) :
    ∃ main code, found.main = some main ∧ layout.sections = sections ∧
      placeFunctions elf (main :: found.others) 0 = .ok (layout.functions, code) ∧
      code <+: layout.code := by
  unfold layoutFunctions at h
  cases hmain : found.main with
  | none =>
      rw [hmain] at h
      exact absurd h (by simp only [reduceCtorEq, not_false_eq_true])
  | some main =>
      simp only [hmain] at h
      cases hplace : placeFunctions elf (main :: found.others) 0 with
      | error stop =>
          rw [hplace] at h
          exact absurd h (by simp only [reduceCtorEq, not_false_eq_true])
      | ok placed =>
          simp only [hplace] at h
          split at h
          · exact absurd h (by simp only [reduceCtorEq, not_false_eq_true])
          · rw [← Except.ok.inj h]
            exact ⟨main, placed.2, rfl, rfl, hplace, List.prefix_append _ _⟩

/-- The stages of the first half of a load that comes to its end: the tables
    are found, the functions of the symbol table are collected, and they are
    laid out. -/
theorem parseElf_stages (elf : Bytes) (main : Option Bytes) (layout : Layout)
    (h : parseElf elf main = .ok layout) :
    ∃ (ehdr : Ehdr) (t : Tables) (found : Functions), tables elf = some t ∧
      parseSections elf ehdr.shentsize ehdr.shnum ehdr.shoff = .ok t.sections ∧
      collectFunctions elf t.sections t.strtab main (intAsSize t.symtab.size / sizeofSym)
        (intAsSize t.symtab.size / sizeofSym) t.symtab.offset ⟨none, [], 0⟩ = .ok found ∧
      layoutFunctions elf t.sections t.strtab found = .ok layout := by
  unfold parseElf at h
  unfold tables
  cases hehdr : parseEhdr elf with
  | error stop =>
      rw [hehdr] at h
      exact absurd h (by simp only [reduceCtorEq, not_false_eq_true])
  | ok ehdr =>
      simp only [hehdr] at h ⊢
      cases hsecs : parseSections elf ehdr.shentsize ehdr.shnum ehdr.shoff with
      | error stop =>
          rw [hsecs] at h
          exact absurd h (by simp only [reduceCtorEq, not_false_eq_true])
      | ok sections =>
          simp only [hsecs] at h ⊢
          cases hstr : sections.find? (fun s => s.type == shtStrtab) with
          | none =>
              rw [hstr] at h
              exact absurd h (by simp only [reduceCtorEq, not_false_eq_true])
          | some str =>
              cases hsym : sections.find? (fun s => s.type == shtSymtab) with
              | none =>
                  rw [hstr, hsym] at h
                  exact absurd h (by simp only [reduceCtorEq, not_false_eq_true])
              | some symtab =>
                  simp only [hstr, hsym] at h ⊢
                  split at h
                  · exact absurd h (by simp only [reduceCtorEq, not_false_eq_true])
                  split at h
                  · exact absurd h (by simp only [reduceCtorEq, not_false_eq_true])
                  next found hfound => exact ⟨ehdr, _, found, rfl, hsecs, hfound, h⟩

/-- An object that is laid out has the functions of `laidOut` placed one after
    the other. -/
theorem parseElf_laidOut (elf : Bytes) (main : Option Bytes) (layout : Layout)
    (h : parseElf elf main = .ok layout) :
    ∃ t code, tables elf = some t ∧ layout.sections = t.sections ∧
      (∀ sym ∈ t.loaded elf, Checked elf t.sections t.strtab main sym) ∧
      placeFunctions elf ((t.laidOut elf main).map (relocatedFunction t.sections t.strtab)) 0 =
        .ok (layout.functions, code) ∧
      code <+: layout.code := by
  rcases parseElf_stages elf main layout h with ⟨-, t, found, htables, -, hfound, hlayout⟩
  rcases collectFunctions_eq elf t.sections _ main _ _ _ _ found hfound with ⟨hmain, hothers, hall⟩
  rcases layoutFunctions_ok elf t.sections _ found layout hlayout with
    ⟨first, code, hsome, hsections, hplace, hprefix⟩
  refine ⟨t, code, htables, hsections, hall, ?_, hprefix⟩
  -- Slot 0 holds the last entry point.
  rw [hothers, List.nil_append] at hplace
  rw [hsome, Option.or_none] at hmain
  rcases Option.map_eq_some_iff.mp hmain.symm with ⟨sym, hlast, hrf⟩
  rw [← hrf] at hplace
  simp only [Tables.laidOut, Tables.loaded, functionSymbols, hlast, Option.toList_some,
    List.singleton_append, List.map_cons]
  exact hplace

/-- An object that is laid out has its functions placed in the order of
    `entryOrder`. -/
theorem parseElf_placed (elf name : Bytes) (layout : Layout)
    (h : parseElf elf (some name) = .ok layout) :
    ∃ t code, tables elf = some t ∧ layout.sections = t.sections ∧
      (∀ sym ∈ t.loaded elf, (t.sections[sym.shndx]?).isSome) ∧
      placeFunctions elf ((entryOrder elf t.strtab name (t.loaded elf)).map
        (relocatedFunction t.sections t.strtab)) 0 = .ok (layout.functions, code) := by
  rcases parseElf_laidOut elf (some name) layout h with
    ⟨t, code, htables, hsections, hall, hplace, -⟩
  have hsame : ∀ sym ∈ t.loaded elf,
      isMain elf t.sections t.strtab (some name) sym = isEntry elf t.strtab name sym :=
    fun sym hsym => isMain_eq_isEntry elf t.sections t.strtab name sym (hall sym hsym)
  have horder : t.laidOut elf (some name) = entryOrder elf t.strtab name (t.loaded elf) := by
    rw [Tables.laidOut, entryOrder, List.filter_congr hsame,
      List.filter_congr (fun sym hsym => congrArg Bool.not (hsame sym hsym))]
  refine ⟨t, code, htables, hsections, ?_, ?_⟩
  · intro sym hsym
    rcases hall sym hsym with ⟨sec, -, hsec, -⟩
    rw [hsec, Option.isSome_some]
  · rw [← horder]
    exact hplace

/-- The name of a symbol in the string table its symbol table is linked
    to. -/
def linkedName (elf : Bytes) (names : Section) (sym : Sym) : Bytes :=
  (((elf.drop names.offset).take names.size).drop sym.name).takeWhile (· != 0)

/-- The raw program of a function symbol. -/
def rawProgram (elf : Bytes) (names : Section) (sym : Sym) : RawProgram where
  functionName := linkedName elf names sym
  sectionIndex := sym.shndx
  offset := sym.value

/-- What is assumed of `read_elf`: one raw program for each function symbol,
    in the order of the symbol table, under the name the symbol has in the
    linked string table. -/
def ReadsSymbols (readElf : Bytes → Option (List RawProgram)) : Prop :=
  ∀ elf rawPrograms t, readElf elf = some rawPrograms → tables elf = some t →
    ∃ names, t.sections[t.symtab.link]? = some names ∧
      rawPrograms = (t.functions elf).map (rawProgram elf names)

/-- The function at instruction 0 lies in the section and at the offset of the
    raw program. -/
def EntryPlaced (layout : Layout) (p : RawProgram) : Prop :=
  ∃ f ∈ layout.functions, f.linkedData = 0 ∧ 0 < f.size ∧
    (layout.sections[p.sectionIndex]?).map Section.shdr = some f.shdr ∧
    f.nativeSectionStart = p.offset

/-- The first function symbol called `main` in the linked string table lies
    where the last one called `main` in the first string table does; where the
    latter is empty, where the first function does that is neither empty nor
    called `main`. -/
def SameEntry (elf : Bytes) : Prop :=
  ∃ t names verified executed, tables elf = some t ∧ t.sections[t.symtab.link]? = some names ∧
    (t.functions elf).find? (fun sym => linkedName elf names sym == mainFunctionName) =
      some verified ∧
    (entryOrder elf t.strtab mainName (t.loaded elf)).find? (fun sym => decide (0 < sym.size)) =
      some executed ∧
    (t.sections[verified.shndx]?).map Section.shdr =
      (t.sections[executed.shndx]?).map Section.shdr ∧
    executed.value = verified.value

theorem mem_entryOrder (elf : Bytes) (strtab : StrTab) (name : Bytes) (syms : List Sym)
    (sym : Sym) (h : sym ∈ entryOrder elf strtab name syms) : sym ∈ syms :=
  mem_of_mem_ordered _ _ sym h

/-- The program `find_main_program` returns is that of the first symbol with
    the name. -/
theorem findMainProgram_symbol (readElf : Bytes → Option (List RawProgram))
    (hread : ReadsSymbols readElf) (elf : Bytes) (p : RawProgram) (t : Tables)
    (ht : tables elf = some t) (h : findMainProgram readElf elf = some p) :
    ∃ names verified, t.sections[t.symtab.link]? = some names ∧
      (t.functions elf).find? (fun sym => linkedName elf names sym == mainFunctionName) =
        some verified ∧
      p = rawProgram elf names verified := by
  unfold findMainProgram at h
  cases hprogs : readElf elf with
  | none =>
      rw [hprogs] at h
      exact absurd h (by simp only [reduceCtorEq, not_false_eq_true])
  | some rawPrograms =>
      simp only [hprogs] at h
      rcases hread elf rawPrograms t hprogs ht with ⟨names, hnames, heq⟩
      rw [heq, List.find?_map, Option.map_eq_some_iff] at h
      rcases h with ⟨verified, hfind, hp⟩
      exact ⟨names, verified, hnames, hfind, hp.symm⟩

/-- For every object in which the verifier finds a `main` and which the loader
    accepts, the function the loader places at instruction 0 is the verified
    one exactly when the symbol table meets `SameEntry`. -/
theorem entry_point_iff {σ : Type} (readElf : Bytes → Option (List RawProgram))
    (hread : ReadsSymbols readElf) (reloc : DataRelocation σ) (base : Addr) (vm : Vm) (ctx : σ)
    (buffer : FileBuffer) (p : RawProgram) (loaded : Loaded σ)
    (hmain : findMainProgram readElf buffer.bytes = some p)
    (hload : ubpfLoadElfEx reloc base vm ctx buffer (some mainName) = some loaded)
    (hok : loaded.error = none) :
    (∃ layout, parseElf buffer.bytes (some mainName) = .ok layout ∧ EntryPlaced layout p) ↔
      SameEntry buffer.bytes := by
  rcases ubpfLoadElfEx_success reloc base vm ctx buffer _ loaded hload hok with
    ⟨layout, -, hparse, -⟩
  rcases parseElf_placed buffer.bytes mainName layout hparse with
    ⟨t, code, ht, hsections, hsecs, hplace⟩
  rcases findMainProgram_symbol readElf hread buffer.bytes p t ht hmain with
    ⟨names, verified, hnames, hverified, hp⟩
  have hfirst := placeFunctions_first buffer.bytes
    (fun shdr start => (t.sections[verified.shndx]?).map Section.shdr = some shdr ∧
      start = verified.value) _ 0 layout.functions code hplace
  -- What is found among the placed functions is found among their symbols.
  rw [List.find?_map] at hfirst
  have hplaced : (∃ layout, parseElf buffer.bytes (some mainName) = .ok layout ∧
      EntryPlaced layout p) ↔ EntryPlaced layout p := by
    constructor
    · rintro ⟨layout', hparse', h⟩
      rw [hparse, Except.ok.injEq] at hparse'
      rw [hparse']
      exact h
    · exact fun h => ⟨layout, hparse, h⟩
  rw [hplaced, EntryPlaced, hsections, hp]
  refine hfirst.trans ?_
  constructor
  · rintro ⟨f, hf, hshdr, hvalue⟩
    rcases Option.map_eq_some_iff.mp hf with ⟨executed, hexecuted, rfl⟩
    have hmem := mem_entryOrder _ _ _ _ _ (List.mem_of_find?_eq_some hexecuted)
    rcases Option.isSome_iff_exists.mp (hsecs executed hmem) with ⟨sec, hsec⟩
    refine ⟨t, names, verified, executed, ht, hnames, hverified, hexecuted, ?_, hvalue⟩
    rw [hshdr, relocatedFunction, hsec]
    rfl
  · rintro ⟨t', names', verified', executed, ht', hnames', hverified', hexecuted, hshdr, hvalue⟩
    -- The object determines its tables and the symbol that is verified.
    rw [ht, Option.some.injEq] at ht'
    subst ht'
    rw [hnames, Option.some.injEq] at hnames'
    subst hnames'
    rw [hverified, Option.some.injEq] at hverified'
    subst hverified'
    have hmem := mem_entryOrder _ _ _ _ _ (List.mem_of_find?_eq_some hexecuted)
    rcases Option.isSome_iff_exists.mp (hsecs executed hmem) with ⟨sec, hsec⟩
    refine ⟨_, Option.map_eq_some_iff.mpr ⟨executed, hexecuted, rfl⟩, ?_, hvalue⟩
    rw [hshdr, relocatedFunction, hsec]
    rfl

/-! ## Sample objects -/

section Sample

/-- A reader that does what is assumed of `read_elf`. -/
def sampleReadElf (elf : Bytes) : Option (List RawProgram) :=
  match tables elf with
  | none => none
  | some t =>
    match t.sections[t.symtab.link]? with
    | none => none
    | some names => some ((t.functions elf).map (rawProgram elf names))

theorem readsSymbols_sample : ReadsSymbols sampleReadElf := by
  intro elf rawPrograms t h ht
  unfold sampleReadElf at h
  simp only [ht] at h
  cases hnames : t.sections[t.symtab.link]? with
  | none =>
      rw [hnames] at h
      exact absurd h (by simp only [reduceCtorEq, not_false_eq_true])
  | some names =>
      simp only [hnames, Option.some.injEq] at h
      exact ⟨names, rfl, h.symm⟩

/-- The load of an object into a new machine. -/
def sampleEntryLoad (elf : Bytes) : Option (Loaded BpfMapCtx) :=
  ubpfLoadElfEx (doMapRelocation (samplePlatform none).allocator) 0x200000 (initUbpfVm .bpfilter)
    .empty (sampleBuffer elf) (some mainName)

/-- An object with two functions called `main`, which return 2 and 1. The first
    symbol does not say how large its function is; if it did, the linked
    program would have that much room at its end, filled with zeros, and be
    refused. -/
def twoMains : Bytes :=
  elfHeader 3 ++ sectionHeader shtStrtab 0 256 6 0 0 ++ sectionHeader shtSymtab 0 262 48 0 0 ++
    sectionHeader shtProgbits (shfAlloc + shfExecinstr) 310 32 0 0 ++
    ([0] ++ mainName ++ [0]) ++ symbol 1 2 2 0 0 ++ symbol 1 2 2 16 16 ++
    ([0xb7, 0, 0, 0] ++ toLE 4 2 ++ [0x95, 0, 0, 0, 0, 0, 0, 0]) ++
    ([0xb7, 0, 0, 0] ++ toLE 4 1 ++ [0x95, 0, 0, 0, 0, 0, 0, 0])

/-- An object with one `main`. -/
theorem entry_point_one_main :
    ∃ layout, parseElf (sampleBuffer (filterObject 2)).bytes (some mainName) = .ok layout ∧
      EntryPlaced layout ⟨mainFunctionName, 2, 0⟩ := by
  have hends : ((sampleEntryLoad (filterObject 2)).any fun loaded =>
      decide (loaded.error = none)) = true := by
    decide +kernel
  rcases (Option.any_eq_true _ _).mp hends with ⟨loaded, hload, hok⟩
  have hsame : SameEntry (sampleBuffer (filterObject 2)).bytes := by
    refine ⟨⟨[⟨64, 0, shtStrtab, 0, 256, 6, 0, 0⟩, ⟨128, 0, shtSymtab, 0, 262, 24, 0, 0⟩,
      ⟨192, 0, shtProgbits, shfAlloc + shfExecinstr, 286, 16, 0, 0⟩], ⟨256, 6⟩,
      ⟨128, 0, shtSymtab, 0, 262, 24, 0, 0⟩⟩, ⟨64, 0, shtStrtab, 0, 256, 6, 0, 0⟩,
      ⟨1, 2, 2, 0, 16⟩, ⟨1, 2, 2, 0, 16⟩, ?_, rfl, ?_, ?_, rfl, rfl⟩
    · decide +kernel
    · decide +kernel
    · decide +kernel
  exact (entry_point_iff sampleReadElf readsSymbols_sample _ _ _ _ _ ⟨mainFunctionName, 2, 0⟩ loaded
    (by decide +kernel) hload (of_decide_eq_true hok)).mpr hsame

/-- An object with two. The verifier is given the first, and the second is
    executed. -/
theorem second_main_executed :
    ¬ ∀ (readElf : Bytes → Option (List RawProgram)), ReadsSymbols readElf →
      ∀ (reloc : DataRelocation BpfMapCtx) (base : Addr) (vm : Vm) (ctx : BpfMapCtx)
        (buffer : FileBuffer) (p : RawProgram) (loaded : Loaded BpfMapCtx),
        findMainProgram readElf buffer.bytes = some p →
        ubpfLoadElfEx reloc base vm ctx buffer (some mainName) = some loaded →
        loaded.error = none →
        ∃ layout, parseElf buffer.bytes (some mainName) = .ok layout ∧ EntryPlaced layout p := by
  intro hclaim
  have hends : ((sampleEntryLoad twoMains).any fun loaded =>
      decide (loaded.error = none)) = true := by
    decide +kernel
  rcases (Option.any_eq_true _ _).mp hends with ⟨loaded, hload, hok⟩
  rcases hclaim sampleReadElf readsSymbols_sample _ _ _ _ (sampleBuffer twoMains)
    ⟨mainFunctionName, 2, 0⟩ loaded (by decide +kernel) hload (of_decide_eq_true hok) with
    ⟨layout, hparse, f, hf, hspot, hsize, -, hstart⟩
  have hlayout : ((parseElf (sampleBuffer twoMains).bytes (some mainName)).toOption.any
      fun layout => layout.functions.all fun f =>
        decide (f.linkedData = 0 → 0 < f.size → f.nativeSectionStart = 16)) = true := by
    decide +kernel
  rw [hparse] at hlayout
  have hsecond := of_decide_eq_true (List.all_eq_true.mp hlayout f hf) hspot hsize
  rw [hstart] at hsecond
  exact absurd hsecond (by decide)

end Sample

end UniBPF
