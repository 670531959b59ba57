import Mathlib.Data.List.Nodup
import UniBPF.Core.Router

/-!
# Configuration Strings

What becomes of names that are put into a configuration string. A name goes
in as a C string and comes out as the value of its keyword, after the string
was split at its commas and every part stripped of space. The names that come
out as they went in are the clean ones.

For a string without quotes and comments there is also a converse: whatever
is read from it is clean, as its parts have neither a NUL nor a comma in
them and neither end of a value is space.

## Main definitions

* `CleanName`: A name that survives the configuration string.
* `Keyword`, `argOf`: A keyword, and the argument that gives it a value.
* `controlPairs`: The keywords of a control packet's string.
* `GivesEach`: Arguments that each give a clean value for their own keyword.

## Theorems

* `plainConf_separated`: Plainness is looked for part by part.
* `keywordValue_argOf`, `keywordValue_clean`: What an argument gives for its
  keyword.
* `keywordValue_topLevel`: What a plain string gives for a keyword is clean.
* `controlConfig_split`, `controlConfig_args`: The string of a control packet,
  between its commas and as arguments.
* `controlConfig_given`: Whatever the names are, their keywords are given.
* `reads_pair`, `reads_absent`: Reading one keyword of several.
-/

namespace UniBPF

/-- A name that survives the configuration string. -/
structure CleanName (s : Bytes) : Prop where
  plain : plainConf s = true
  noNul : 0 ∉ s
  noComma : 44 ∉ s
  noLeading : ∀ b, s.head? = some b → isSpace b = false
  noTrailing : ∀ b, s.getLast? = some b → isSpace b = false

section Strings

/-- A byte without a meaning keeps what is before it apart from what is
    after. -/
theorem plainConf_separated (xs ys : Bytes) (c : UInt8)
    (hc : c ∉ ([34, 39, 92, 47, 42] : List UInt8)) :
    plainConf (xs ++ c :: ys) = (plainConf xs && plainConf ys) := by
  simp only [List.mem_cons, List.not_mem_nil, or_false, not_or] at hc
  rcases hc with ⟨h34, h39, h92, h47, h42⟩
  have hself : plainConf (c :: ys) = plainConf ys := by
    simp only [plainConf, bne_iff_ne.mpr h34, bne_iff_ne.mpr h39, bne_iff_ne.mpr h92,
      beq_eq_false_iff_ne.mpr h47, Bool.false_and, Bool.not_false, Bool.true_and]
  induction xs with
  | nil => simp only [List.nil_append, hself, plainConf, Bool.true_and]
  | cons b rest ih =>
      simp only [List.cons_append, plainConf, ih, Bool.and_assoc]
      cases rest with
      | nil =>
          have hopen : (some c == some 47 || some c == some 42) = false := by
            simp only [Option.some_beq_some, beq_eq_false_iff_ne.mpr h47,
              beq_eq_false_iff_ne.mpr h42, Bool.or_self]
          have hnil : (([] : Bytes).head? == some 47 || ([] : Bytes).head? == some 42) = false :=
            rfl
          simp only [List.nil_append, List.head?_cons, hopen, hnil]
      | cons d rest => rfl

theorem plainConf_prefix (xs ys : Bytes) (h : plainConf (xs ++ ys) = true) :
    plainConf xs = true := by
  induction xs with
  | nil => rfl
  | cons b rest ih =>
      simp only [List.cons_append, plainConf, Bool.and_eq_true] at h ⊢
      refine ⟨⟨h.1.1, ?_⟩, ih h.2⟩
      -- A comment that opens in the shorter string opens in the longer one.
      cases rest with
      | nil => exact congrArg not (Bool.and_false (b == 47))
      | cons c rest => exact h.1.2

theorem cStr_plain (s : Bytes) (h : plainConf s = true) : plainConf (cStr s) = true := by
  rcases List.takeWhile_prefix (l := s) (· != 0) with ⟨t, ht⟩
  apply plainConf_prefix _ t
  rw [cStr, ht]
  exact h

theorem cStr_noNul (s : Bytes) : 0 ∉ cStr s := by
  intro hmem
  have hne := List.mem_takeWhile_imp hmem
  exact absurd hne (by simp only [bne_self_eq_false, Bool.false_eq_true, not_false_eq_true])

theorem cStr_eq_self (s : Bytes) (h : 0 ∉ s) : cStr s = s := by
  rw [cStr, List.takeWhile_eq_self_iff]
  intro b hb
  rw [bne_iff_ne]
  intro hzero
  exact h (hzero ▸ hb)

/-- A number is written in digits. -/
theorem decimal_digits (n : Nat) (b : UInt8) (hb : b ∈ decimal n) : 48 ≤ b ∧ b ≤ 57 := by
  unfold decimal at hb
  split at hb
  · rw [List.mem_singleton] at hb
    rw [hb]
    decide
  · rw [List.mem_reverse, List.mem_map] at hb
    rcases hb with ⟨d, hd, hbd⟩
    have hlt : d < 10 := Nat.digits_lt_base (by decide) hd
    have hval : (UInt8.ofNat (48 + d)).toNat = 48 + d := by
      rw [UInt8.toNat_ofNat']
      omega
    rw [← hbd, UInt8.le_iff_toNat_le, UInt8.le_iff_toNat_le, hval]
    exact ⟨Nat.le_add_right 48 d, by simp only [UInt8.reduceToNat]; omega⟩

theorem digits_plain (s : Bytes) (h : ∀ b ∈ s, 48 ≤ b ∧ b ≤ 57) : plainConf s = true := by
  induction s with
  | nil => rfl
  | cons b rest ih =>
      have hb := h b (List.mem_cons_self ..)
      have hne : ∀ c : UInt8, c < 48 ∨ 57 < c → b ≠ c := by
        rintro c hc rfl
        rcases hc with hc | hc
        · exact absurd hb.1 (UInt8.not_le.mpr hc)
        · exact absurd hb.2 (UInt8.not_le.mpr hc)
      simp only [plainConf, Bool.and_eq_true, bne_iff_ne]
      refine ⟨⟨⟨⟨hne 34 (by decide), hne 39 (by decide)⟩, hne 92 (by decide)⟩, ?_⟩,
        ih fun c hc => h c (List.mem_cons_of_mem _ hc)⟩
      rw [beq_eq_false_iff_ne.mpr (hne 47 (by decide)), Bool.false_and, Bool.not_false]

/-- What is left of a string when the space at its ends is gone. -/
theorem rdropWhile_append_of_keep (p : UInt8 → Bool) (xs ys : Bytes) (hne : xs ≠ [])
    (hlast : p (xs.getLast hne) = false) : (xs ++ ys).rdropWhile p = xs ++ ys.rdropWhile p := by
  induction ys using List.reverseRecOn with
  | nil =>
      rw [List.append_nil, List.rdropWhile_nil, List.append_nil, List.rdropWhile_eq_self_iff]
      intro _
      rw [hlast]
      exact Bool.false_ne_true
  | append_singleton ys b ih =>
      rw [← List.append_assoc, List.rdropWhile_concat, List.rdropWhile_concat, ih]
      split
      · rfl
      · rw [List.append_assoc]

end Strings

section Arguments

/-- The words that name an argument: not empty, and without space. -/
structure Keyword (k : Bytes) : Prop where
  ne_nil : k ≠ []
  noSpace : ∀ b ∈ k, isSpace b = false

theorem keyword_of_all (k : Bytes) (hne : k ≠ []) (h : k.all (fun b => !isSpace b) = true) :
    Keyword k := by
  refine ⟨hne, ?_⟩
  intro b hb
  have hspace := List.all_eq_true.mp h b hb
  rwa [Bool.not_eq_true'] at hspace

/-- The argument that gives the value `v` for a keyword, as it stands between
    two commas. -/
def argOf (k v : Bytes) : Bytes :=
  trimSpace (k ++ 32 :: v)

theorem trimSpace_cons_space (s : Bytes) : trimSpace (32 :: s) = trimSpace s := rfl

/-- The keyword is not stripped, so what is stripped is stripped from the
    value. -/
theorem argOf_eq (k v : Bytes) (hk : Keyword k) :
    argOf k v = k ++ (32 :: v).rdropWhile isSpace := by
  have hlead : (k ++ 32 :: v).dropWhile isSpace = k ++ 32 :: v := by
    cases k with
    | nil => exact absurd rfl hk.ne_nil
    | cons b k =>
        have hb := hk.noSpace b (List.mem_cons_self ..)
        simp only [List.cons_append, List.dropWhile_cons, hb, Bool.false_eq_true, if_false]
  rw [argOf, trimSpace, hlead]
  exact rdropWhile_append_of_keep isSpace k _ hk.ne_nil (hk.noSpace _ (List.getLast_mem hk.ne_nil))

theorem keywordValue_append (k rest : Bytes) :
    keywordValue k (k ++ rest) = keywordValue [] rest := by
  induction k with
  | nil => rfl
  | cons b k ih => simp only [List.cons_append, keywordValue, if_true, ih]

/-- An argument gives a value for its keyword: what is left without the space
    at both ends. -/
theorem keywordValue_argOf (k v : Bytes) (hk : Keyword k) :
    keywordValue k (argOf k v) = some (((32 :: v).rdropWhile isSpace).dropWhile isSpace) := by
  rw [argOf_eq k v hk, keywordValue_append]
  rcases List.rdropWhile_prefix isSpace (l := 32 :: v) with ⟨t, ht⟩
  cases hrest : (32 :: v).rdropWhile isSpace with
  | nil => rfl
  | cons b rest =>
      -- What is left still starts with the space after the keyword.
      rw [hrest, List.cons_append] at ht
      rw [(List.cons.inj ht).1]
      rfl

/-- It gives none for another keyword. -/
theorem keywordValue_other (k k' rest : Bytes) (hk : ∀ b ∈ k, isSpace b = false)
    (hk' : ∀ b ∈ k', isSpace b = false)
    (hrest : ∀ b, rest.head? = some b → isSpace b = true) (hne : k ≠ k') :
    keywordValue k (k' ++ rest) = none := by
  induction k generalizing k' with
  | nil =>
      cases k' with
      | nil => exact absurd rfl hne
      | cons b k' =>
          have hb := hk' b (List.mem_cons_self ..)
          simp only [List.cons_append, keywordValue, hb, Bool.false_eq_true, if_false]
  | cons c k ih =>
      have hc := hk c (List.mem_cons_self ..)
      cases k' with
      | nil =>
          cases rest with
          | nil => rfl
          | cons b rest =>
              have hcb : ¬ c = b := by
                intro heq
                rw [heq, hrest b rfl] at hc
                exact absurd hc (by simp only [Bool.true_eq_false, not_false_eq_true])
              simp only [List.nil_append, keywordValue, if_neg hcb]
      | cons b k' =>
          simp only [List.cons_append, keywordValue]
          split
          · rename_i heq
            refine ih k' (fun x hx => hk x (List.mem_cons_of_mem _ hx))
              (fun x hx => hk' x (List.mem_cons_of_mem _ hx)) ?_
            intro htail
            exact hne (by rw [heq, htail])
          · rfl

theorem keywordValue_argOf_other (k k' v : Bytes) (hk : Keyword k) (hk' : Keyword k')
    (hne : k ≠ k') : keywordValue k (argOf k' v) = none := by
  rw [argOf_eq k' v hk']
  refine keywordValue_other k k' _ hk.noSpace hk'.noSpace ?_ hne
  intro b hb
  rcases List.rdropWhile_prefix isSpace (l := 32 :: v) with ⟨t, ht⟩
  cases hrest : (32 :: v).rdropWhile isSpace with
  | nil =>
      rw [hrest] at hb
      exact absurd hb (by simp only [List.head?_nil, reduceCtorEq, not_false_eq_true])
  | cons c rest =>
      rw [hrest, List.cons_append] at ht
      rw [hrest, List.head?_cons, Option.some.injEq] at hb
      rw [← hb, (List.cons.inj ht).1]
      rfl

/-- A clean name comes back. -/
theorem keywordValue_clean (k v : Bytes) (hk : Keyword k) (hv : CleanName v) :
    keywordValue k (argOf k v) = some v := by
  rw [keywordValue_argOf k v hk]
  cases v with
  | nil => rfl
  | cons b rest =>
      have hlead := hv.noLeading b rfl
      have hkept : (32 :: b :: rest).rdropWhile isSpace = 32 :: b :: rest := by
        rw [List.rdropWhile_eq_self_iff]
        intro _
        have htrail := hv.noTrailing ((b :: rest).getLast (List.cons_ne_nil b rest))
          (List.getLast?_eq_some_getLast _)
        rw [List.getLast_cons (List.cons_ne_nil b rest), htrail]
        exact Bool.false_ne_true
      rw [hkept]
      simp only [List.dropWhile_cons, hlead, Bool.false_eq_true, if_false]
      rfl

/-- A value is the end of its argument, and starts with no space. -/
theorem keywordValue_suffix (k arg v : Bytes) (h : keywordValue k arg = some v) :
    v <:+ arg ∧ ∀ b, v.head? = some b → isSpace b = false := by
  induction k generalizing arg with
  | nil =>
      cases arg with
      | nil =>
          simp only [keywordValue, Option.some.injEq] at h
          rw [← h]
          exact ⟨List.suffix_refl _, fun b hb => absurd hb (by
            simp only [List.head?_nil, reduceCtorEq, not_false_eq_true])⟩
      | cons b rest =>
          simp only [keywordValue] at h
          split at h
          · rw [← Option.some.inj h]
            refine ⟨List.dropWhile_suffix _, ?_⟩
            intro c hc
            have hhead := List.head?_dropWhile_not isSpace (b :: rest)
            rw [hc] at hhead
            simpa only [Bool.not_eq_true] using hhead
          · exact absurd h (by simp only [reduceCtorEq, not_false_eq_true])
  | cons c k ih =>
      cases arg with
      | nil => exact absurd h (by simp only [keywordValue, reduceCtorEq, not_false_eq_true])
      | cons b rest =>
          simp only [keywordValue] at h
          split at h
          · rcases ih rest h with ⟨hsuffix, hhead⟩
            exact ⟨hsuffix.trans (List.suffix_cons b rest), hhead⟩
          · exact absurd h (by simp only [reduceCtorEq, not_false_eq_true])

/-- Between two commas there is no comma. -/
theorem mem_splitOn_comma (s part : Bytes) (hpart : part ∈ s.splitOn 44) (b : UInt8)
    (hb : b ∈ part) : b ∈ s ∧ b ≠ 44 := by
  induction s generalizing part with
  | nil =>
      rw [List.splitOn_nil, List.mem_singleton] at hpart
      rw [hpart] at hb
      exact absurd hb List.not_mem_nil
  | cons x xs ih =>
      rw [List.splitOn_cons_eq_if_modifyHead] at hpart
      split at hpart
      · rcases List.mem_cons.mp hpart with hnil | hpart
        · rw [hnil] at hb
          exact absurd hb List.not_mem_nil
        · rcases ih part hpart hb with ⟨hmem, hne⟩
          exact ⟨List.mem_cons_of_mem _ hmem, hne⟩
      · rename_i hx
        cases hsplit : xs.splitOn 44 with
        | nil => exact absurd hsplit (List.splitOn_ne_nil 44 xs)
        | cons first parts =>
            rw [hsplit, List.modifyHead_cons] at hpart
            rw [hsplit] at ih
            rcases List.mem_cons.mp hpart with hfirst | hpart
            · rw [hfirst] at hb
              rcases List.mem_cons.mp hb with hbx | hb
              · rw [hbx]
                exact ⟨List.mem_cons_self .., fun heq => hx (by rw [heq]; rfl)⟩
              · rcases ih first (List.mem_cons_self ..) hb with ⟨hmem, hne⟩
                exact ⟨List.mem_cons_of_mem _ hmem, hne⟩
            · rcases ih part (List.mem_cons_of_mem _ hpart) hb with ⟨hmem, hne⟩
              exact ⟨List.mem_cons_of_mem _ hmem, hne⟩

theorem mem_trimSpace (s : Bytes) (b : UInt8) (h : b ∈ trimSpace s) : b ∈ s :=
  (List.dropWhile_suffix _).subset ((List.rdropWhile_prefix _ _).subset h)

theorem trimSpace_last (s : Bytes) (b : UInt8) (h : (trimSpace s).getLast? = some b) :
    isSpace b = false := by
  rcases List.getLast?_eq_some_iff.mp h with ⟨init, hinit⟩
  have hne : trimSpace s ≠ [] := by
    rw [hinit]
    exact List.append_ne_nil_of_right_ne_nil init (List.cons_ne_nil b [])
  have hlast : ¬ isSpace ((trimSpace s).getLast hne) = true :=
    List.rdropWhile_last_not isSpace (s.dropWhile isSpace) hne
  rw [List.getLast?_eq_some_getLast hne, Option.some.injEq] at h
  rw [h, Bool.not_eq_true] at hlast
  exact hlast

theorem mem_topLevelArgs (s arg : Bytes) (h : arg ∈ topLevelArgs s) :
    ∃ part ∈ s.splitOn 44, arg = trimSpace part := by
  have hmap : arg ∈ (s.splitOn 44).map trimSpace := by
    unfold topLevelArgs at h
    simp only [] at h
    split at h
    · exact List.dropLast_subset _ h
    · exact h
  rcases List.mem_map.mp hmap with ⟨part, hpart, harg⟩
  exact ⟨part, hpart, harg.symm⟩

/-- Only an empty argument can be left out. -/
theorem topLevelArgs_of_mem (s part : Bytes) (hpart : part ∈ s.splitOn 44)
    (hne : trimSpace part ≠ []) : trimSpace part ∈ topLevelArgs s := by
  have hmap : trimSpace part ∈ (s.splitOn 44).map trimSpace := List.mem_map_of_mem hpart
  unfold topLevelArgs
  simp only []
  split
  · rename_i hlast
    rcases List.getLast?_eq_some_iff.mp hlast with ⟨init, hinit⟩
    rw [hinit, List.mem_append, List.mem_singleton] at hmap
    rw [hinit, List.dropLast_concat]
    rcases hmap with hmap | hmap
    · exact hmap
    · exact absurd hmap hne
  · exact hmap

/-- What a plain string gives for a keyword has nothing in it that was looked
    for on the way. -/
theorem keywordValue_topLevel (s k v arg : Bytes) (harg : arg ∈ topLevelArgs s)
    (h : keywordValue k arg = some v) (hplain : plainConf v = true) (hnul : 0 ∉ s) :
    CleanName v := by
  rcases mem_topLevelArgs s arg harg with ⟨part, hpart, htrim⟩
  rcases keywordValue_suffix k arg v h with ⟨hsuffix, hhead⟩
  have hmem : ∀ b ∈ v, b ∈ s ∧ b ≠ 44 := by
    intro b hb
    have hbarg := hsuffix.subset hb
    rw [htrim] at hbarg
    exact mem_splitOn_comma s part hpart b (mem_trimSpace part b hbarg)
  refine ⟨hplain, fun hzero => hnul (hmem 0 hzero).1, fun hcomma => (hmem 44 hcomma).2 rfl, hhead,
    ?_⟩
  intro b hb
  rcases hsuffix with ⟨pre, hpre⟩
  apply trimSpace_last part b
  rw [← htrim, ← hpre, List.getLast?_append, hb, Option.some_or]

/-- The first part of a string starts as the string does. -/
theorem splitOn_first (xs ys : Bytes) (h : 44 ∉ xs) : ∃ q, xs ++ q ∈ (xs ++ ys).splitOn 44 := by
  by_cases hys : 44 ∈ ys
  · rcases List.eq_append_cons_of_mem hys with ⟨q, rest, heq, hq⟩
    refine ⟨q, ?_⟩
    rw [heq, ← List.append_assoc, List.splitOn_append_cons_self, List.splitOn_eq_singleton]
    · exact List.mem_append_left _ (List.mem_singleton_self _)
    · rw [List.mem_append, not_or]
      exact ⟨h, hq⟩
  · refine ⟨ys, ?_⟩
    rw [List.splitOn_eq_singleton]
    · exact List.mem_singleton_self _
    · rw [List.mem_append, not_or]
      exact ⟨h, hys⟩

end Arguments

section Config

variable (f : ControlFields)

theorem keyword_id : Keyword (helperName "ID") := keyword_of_all _ (by decide) rfl
theorem keyword_jit : Keyword (helperName "JIT") := keyword_of_all _ (by decide) rfl
theorem keyword_dumpJit : Keyword (helperName "DUMP_JIT") := keyword_of_all _ (by decide) rfl
theorem keyword_file : Keyword (helperName "FILE") := keyword_of_all _ (by decide) rfl
theorem keyword_signature : Keyword (helperName "SIGNATURE") := keyword_of_all _ (by decide) rfl

/-- The string between its commas: the id, and what the names make of their
    parts. -/
theorem controlConfig_split : (controlConfig f).splitOn 44
    = [helperName "ID" ++ 32 :: decimal f.bpfelementId] ++
      ((32 :: (helperName "FILE" ++ [32])) ++ cStr f.programName).splitOn 44 ++
      ((32 :: (helperName "SIGNATURE" ++ [32])) ++ cStr f.signature).splitOn 44 := by
  have hid : (44 : UInt8) ∉ helperName "ID" ++ 32 :: decimal f.bpfelementId := by
    rw [List.mem_append, List.mem_cons, not_or, not_or]
    refine ⟨by decide, by decide, ?_⟩
    intro hmem
    exact absurd (decimal_digits _ _ hmem).1 (by decide)
  have hconfig : controlConfig f = (helperName "ID" ++ 32 :: decimal f.bpfelementId) ++
      44 :: (((32 :: (helperName "FILE" ++ [32])) ++ cStr f.programName) ++
        44 :: ((32 :: (helperName "SIGNATURE" ++ [32])) ++ cStr f.signature)) := rfl
  rw [hconfig, List.splitOn_append_cons_self, List.splitOn_append_cons_self,
    List.splitOn_eq_singleton hid, List.append_assoc]

/-- No NUL is in it: it is a C string. -/
theorem controlConfig_noNul : 0 ∉ controlConfig f := by
  unfold controlConfig
  simp only [List.mem_append, List.mem_cons, not_or]
  refine ⟨⟨by decide, ?_⟩, by decide, ⟨by decide, cStr_noNul _⟩, by decide, by decide, cStr_noNul _⟩
  intro hmem
  exact absurd (decimal_digits _ _ hmem).1 (by decide)

/-- It is plain if the names are. -/
theorem controlConfig_plain (hprogram : plainConf f.programName = true)
    (hsignature : plainConf f.signature = true) : plainConf (controlConfig f) = true := by
  have hconfig : controlConfig f = helperName "ID" ++ 32 :: (decimal f.bpfelementId ++
      44 :: ((32 :: helperName "FILE") ++ 32 :: (cStr f.programName ++
        44 :: ((32 :: helperName "SIGNATURE") ++ 32 :: cStr f.signature)))) := rfl
  rw [hconfig, plainConf_separated _ _ _ (by decide), plainConf_separated _ _ _ (by decide),
    plainConf_separated _ _ _ (by decide), plainConf_separated _ _ _ (by decide),
    plainConf_separated _ _ _ (by decide), digits_plain _ (decimal_digits _),
    cStr_plain _ hprogram, cStr_plain _ hsignature]
  decide

theorem decimal_clean (n : Nat) : CleanName (decimal n) := by
  have hspace : ∀ b ∈ decimal n, isSpace b = false := by
    intro b hb
    have hdigit := decimal_digits n b hb
    rw [UInt8.le_iff_toNat_le, UInt8.le_iff_toNat_le] at hdigit
    simp only [isSpace, Bool.or_eq_false_iff, beq_eq_false_iff_ne, ne_eq, ← UInt8.toNat_inj,
      Bool.and_eq_false_iff, decide_eq_false_iff_not, UInt8.le_iff_toNat_le, UInt8.reduceToNat]
      at hdigit ⊢
    omega
  refine ⟨digits_plain _ (decimal_digits n), ?_, ?_, ?_, ?_⟩
  · intro hmem
    exact absurd (decimal_digits n 0 hmem).1 (by decide)
  · intro hmem
    exact absurd (decimal_digits n 44 hmem).1 (by decide)
  · intro b hb
    exact hspace b (List.mem_of_mem_head? hb)
  · intro b hb
    exact hspace b (List.mem_of_getLast? hb)

/-- The keywords of the string and their values. -/
def controlPairs : List (Bytes × Bytes) :=
  [(helperName "ID", decimal f.bpfelementId), (helperName "FILE", f.programName),
    (helperName "SIGNATURE", f.signature)]

/-- Clean names give three arguments. -/
theorem controlConfig_args (hprogram : CleanName f.programName)
    (hsignature : CleanName f.signature) :
    topLevelArgs (controlConfig f) = (controlPairs f).map fun p => argOf p.1 p.2 := by
  have hfile : (44 : UInt8) ∉ (32 :: (helperName "FILE" ++ [32])) ++ f.programName := by
    rw [List.mem_append, not_or]
    exact ⟨by decide, hprogram.noComma⟩
  have hsig : (44 : UInt8) ∉ (32 :: (helperName "SIGNATURE" ++ [32])) ++ f.signature := by
    rw [List.mem_append, not_or]
    exact ⟨by decide, hsignature.noComma⟩
  have hparts : ((controlConfig f).splitOn 44).map trimSpace
      = (controlPairs f).map fun p => argOf p.1 p.2 := by
    rw [controlConfig_split, cStr_eq_self _ hprogram.noNul, cStr_eq_self _ hsignature.noNul,
      List.splitOn_eq_singleton hfile, List.splitOn_eq_singleton hsig]
    rfl
  have hlast : argOf (helperName "SIGNATURE") f.signature ≠ [] := by
    rw [argOf_eq _ _ keyword_signature]
    exact List.append_ne_nil_of_left_ne_nil keyword_signature.ne_nil _
  unfold topLevelArgs
  simp only [hparts]
  rw [if_neg]
  intro hempty
  exact hlast (Option.some.inj hempty)

/-- Whatever the names are, the part of a keyword starts with it. -/
theorem controlConfig_given (k name : Bytes) (hk : Keyword k) (hcomma : 44 ∉ k)
    (hpart : ∀ part ∈ ((32 :: (k ++ [32])) ++ name).splitOn 44,
      part ∈ (controlConfig f).splitOn 44) :
    ∃ v, argOf k v ∈ topLevelArgs (controlConfig f) := by
  have hfirst : (44 : UInt8) ∉ 32 :: (k ++ [32]) := by
    simp only [List.mem_cons, List.mem_append, List.not_mem_nil, or_false, not_or]
    exact ⟨by decide, hcomma, by decide⟩
  rcases splitOn_first (32 :: (k ++ [32])) name hfirst with ⟨v, hv⟩
  have harg : trimSpace ((32 :: (k ++ [32])) ++ v) = argOf k v := by
    rw [List.cons_append, trimSpace_cons_space, List.append_assoc]
    rfl
  refine ⟨v, ?_⟩
  rw [← harg]
  refine topLevelArgs_of_mem (controlConfig f) _ (hpart _ hv) ?_
  rw [harg, argOf_eq k v hk]
  exact List.append_ne_nil_of_left_ne_nil hk.ne_nil _

end Config

section Reading

variable {α : Type*} (k : Bytes) (parse : Bytes → Option α) (conf : List Bytes) (member : Option α)

theorem reads_none (h : Reads k parse conf member)
    (hnone : ∀ arg ∈ conf, keywordValue k arg = none) : member = none := by
  cases member with
  | none => rfl
  | some x =>
      rcases h with ⟨arg, hmem, v, hv, -⟩
      rw [hnone arg hmem] at hv
      exact absurd hv (by simp only [reduceCtorEq, not_false_eq_true])

/-- A keyword that some argument gives is read from an argument. -/
theorem reads_given (h : Reads k parse conf member) (arg : Bytes) (harg : arg ∈ conf)
    (hgiven : keywordValue k arg ≠ none) :
    ∃ x, member = some x ∧ ∃ arg ∈ conf, ∃ v, keywordValue k arg = some v ∧ parse v = some x := by
  cases member with
  | none => exact absurd (h arg harg) hgiven
  | some x => exact ⟨x, rfl, h⟩

/-- Arguments that each give a clean value for a keyword of their own. -/
structure GivesEach (pairs : List (Bytes × Bytes)) : Prop where
  keyword : ∀ p ∈ pairs, Keyword p.1
  clean : ∀ p ∈ pairs, CleanName p.2
  own : (pairs.map Prod.fst).Nodup

theorem reads_pair (pairs : List (Bytes × Bytes)) (hpairs : GivesEach pairs) (hk : Keyword k)
    (v : Bytes) (hmem : (k, v) ∈ pairs)
    (h : Reads k parse (pairs.map fun p => argOf p.1 p.2) member) :
    ∃ x, member = some x ∧ parse v = some x := by
  have hv := keywordValue_clean k v hk (hpairs.clean _ hmem)
  have hgiven : keywordValue k (argOf k v) ≠ none := by
    rw [hv]
    simp only [ne_eq, reduceCtorEq, not_false_eq_true]
  rcases reads_given k parse _ member h (argOf k v) (List.mem_map_of_mem hmem) hgiven with
    ⟨x, hx, arg, harg, v', hv', hparse⟩
  rcases List.mem_map.mp harg with ⟨p, hp, hpair⟩
  refine ⟨x, hx, ?_⟩
  rw [← hpair] at hv'
  -- The argument that was read has the keyword, and only one of them has it.
  by_cases hkey : k = p.1
  · have hsame : p = (k, v) := List.inj_on_of_nodup_map hpairs.own hp hmem hkey.symm
    rw [hsame, hv, Option.some.injEq] at hv'
    rw [hv', hparse]
  · rw [keywordValue_argOf_other k p.1 p.2 hk (hpairs.keyword p hp) hkey] at hv'
    exact absurd hv' (by simp only [reduceCtorEq, not_false_eq_true])

theorem reads_absent (pairs : List (Bytes × Bytes)) (hpairs : GivesEach pairs) (hk : Keyword k)
    (habsent : ∀ p ∈ pairs, k ≠ p.1) (h : Reads k parse (pairs.map fun p => argOf p.1 p.2) member) :
    member = none := by
  refine reads_none k parse _ member h ?_
  intro arg harg
  rcases List.mem_map.mp harg with ⟨p, hp, hpair⟩
  rw [← hpair]
  exact keywordValue_argOf_other k p.1 p.2 hk (hpairs.keyword p hp) (habsent p hp)

theorem controlPairs_gives (f : ControlFields) (hprogram : CleanName f.programName)
    (hsignature : CleanName f.signature) : GivesEach (controlPairs f) := by
  refine ⟨?_, ?_, ?_⟩
  · simp only [controlPairs, List.forall_mem_cons, List.not_mem_nil, false_implies, implies_true,
      and_true]
    exact ⟨keyword_id, keyword_file, keyword_signature⟩
  · simp only [controlPairs, List.forall_mem_cons, List.not_mem_nil, false_implies, implies_true,
      and_true]
    exact ⟨decimal_clean _, hprogram, hsignature⟩
  · simp only [controlPairs, List.map_cons, List.map_nil]
    decide

end Reading

end UniBPF
