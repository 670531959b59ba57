import UniBPF.Theory.ControlRoundTrip

/-!
# What the Control Element Reads

Whether `Control::push` stays inside the packet, for a packet anybody may
have sent. `CheckUDPHeader` stands before it and says that the length field of
the header is at least 8 and the packet at least as long as the field says.

None of the checks of the parser covers all of what is read after it. The
first one sees the length field with its bytes swapped, so an empty payload
passes as one of 2048 bytes. The length of the name is compared as a sum of
pointers, which wraps, and so does the length of the signature, which is read
without asking whether it is there. And the lengths are handed to a
constructor that takes an `int`: what is cut off is lost, and a negative number
asks for a C string.

What holds is said in terms of the fields the packet has at the places where
the parser looks for them. `Inside` is about bytes that are there,
`stringLength` is how many bytes the constructor takes. A length below 2 ^ 31
is taken as it is.

## Main definitions

* `CheckUdpHeader`: What is known of a packet.
* `DeclaredFields`: The strings are the parts of the payload their lengths
  declare.
* `ParsesInside`: No read leaves the packet, and what is accepted is as
  declared.
* `Inside`, `StringInside`, `stringLength`: What is read, and whether it is
  there.
* `KeptInside`: The packets that do no harm.

## Theorems

* `clickString_inside`, `clickString_outside`: The constructor of Click.
* `controlPush_strings`: The parser behind the magic number.
* `parses_inside_iff`: The packets the parser stays inside of.
-/

namespace UniBPF

open LittleEndian

/-- `ntohs`. -/
def ntohs (x : Nat) : Nat :=
  x / 256 + 256 * (x % 256)

/-- `CheckUDPHeader`: the length in the header is that of a datagram, and the
    packet holds the whole of it. -/
def CheckUdpHeader (p : UdpPacket) : Prop :=
  8 ≤ ntohs (uhUlen p) ∧ ntohs (uhUlen p) ≤ p.bytes.length

/-- What comes after the header. -/
def UdpPacket.payload (p : UdpPacket) : Bytes :=
  p.bytes.drop 8

/-- The declared length of the program name. -/
def UdpPacket.nameLen (p : UdpPacket) : Nat :=
  readLE p.payload 15 8

/-- The declared length of the signature, behind a name of the declared
    length. -/
def UdpPacket.sigLen (p : UdpPacket) : Nat :=
  readLE p.payload (23 + p.nameLen) 8

/-- The payload has as many bytes as the two lengths declare, and the strings
    are the parts of it they declare. -/
def DeclaredFields (p : UdpPacket) (f : ControlFields) : Prop :=
  31 + p.nameLen + p.sigLen ≤ p.payload.length ∧
    f.programName = (p.payload.drop 23).take p.nameLen ∧
    f.signature = (p.payload.drop (31 + p.nameLen)).take p.sigLen

/-- Every read is of bytes the packet has, and a packet that is not turned away
    gives the fields it declares. -/
def ParsesInside (p : UdpPacket) : Prop :=
  controlPush p ≠ none ∧ ∀ f, controlPush p = some (.ok f) → DeclaredFields p f

/-- The packet has `n` bytes at the address. -/
def Inside (p : UdpPacket) (a n : Nat) : Prop :=
  p.addr ≤ a ∧ a + n ≤ p.endData

/-- The 64-bit number at an address. -/
def UdpPacket.word (p : UdpPacket) (a : Nat) : Nat :=
  readLE p.bytes (a - p.addr) 8

/-- Where a string ends that has its length at the address, as the parser adds
    it up. -/
def UdpPacket.stringEnd (p : UdpPacket) (a : Nat) : Nat :=
  ptrAdd (a + 8) (p.word a)

/-- How many bytes the constructor takes: the number it is given if that is
    not negative as an `int`, else those before the first NUL. -/
def stringLength (p : UdpPacket) (a len : Nat) : Nat :=
  if len % 2 ^ 32 < 2 ^ 31 then len % 2 ^ 32
  else ((p.bytes.drop (a - p.addr)).takeWhile (· != 0)).length

/-- The packet has them, and the NUL where the constructor looks for one. -/
def StringInside (p : UdpPacket) (a len : Nat) : Prop :=
  if len % 2 ^ 32 < 2 ^ 31 then Inside p a (len % 2 ^ 32)
  else p.addr ≤ a ∧ (p.bytes.drop (a - p.addr)).contains 0

/-- The packet has the string whose length is at address `a`, and the
    constructor takes as much of it as the length says. -/
def StringDeclared (p : UdpPacket) (a : Nat) : Prop :=
  StringInside p (a + 8) (p.word a) ∧ stringLength p (a + 8) (p.word a) = p.word a

/-- The packets that do no harm. They are turned away by a check before
    anything is read that is not there, or they are as long as they declare to
    be. -/
def KeptInside (p : UdpPacket) : Prop :=
  uhUlen p < 31 ∨ (7 ≤ p.payload.length ∧ p.payload.take 7 ≠ controlMagic) ∨
    (23 ≤ p.payload.length ∧
      -- The name is turned away, or the signature is, or neither has to be.
      (p.endData < p.stringEnd (p.addr + 23) ∨
        (StringInside p (p.addr + 31) p.nameLen ∧ Inside p (p.stringEnd (p.addr + 23)) 8 ∧
          (p.endData < p.stringEnd (p.stringEnd (p.addr + 23)) ∨
            (StringDeclared p (p.addr + 23) ∧
              StringDeclared p (p.stringEnd (p.addr + 23)))))))

section Reads

variable (p : UdpPacket) (a : Nat)

theorem view_inside (n : Nat) (h : Inside p a n) :
    p.view a n = some ((p.bytes.drop (a - p.addr)).take n) :=
  if_pos h

theorem view_outside (n : Nat) (h : ¬ Inside p a n) : p.view a n = none :=
  if_neg h

theorem read64_inside (h : Inside p a 8) : p.read64 a = some (p.word a) := by
  rw [UdpPacket.read64, view_inside p a 8 h, Option.map_some, UdpPacket.word, readLE]

theorem read64_outside (h : ¬ Inside p a 8) : p.read64 a = none := by
  rw [UdpPacket.read64, view_outside p a 8 h, Option.map_none]

theorem clickString_inside (len : Nat) (h : StringInside p a len) :
    clickString p a len = some ((p.bytes.drop (a - p.addr)).take (stringLength p a len)) := by
  rw [StringInside] at h
  rw [clickString, stringLength]
  by_cases hint : len % 2 ^ 32 < 2 ^ 31
  · rw [if_pos hint] at h
    rw [if_pos hint, if_pos hint]
    exact view_inside p a _ h
  · rw [if_neg hint] at h
    rw [if_neg hint, if_neg hint, if_pos h]
    exact congrArg some (List.prefix_iff_eq_take.mp (List.takeWhile_prefix _))

theorem clickString_outside (len : Nat) (h : ¬ StringInside p a len) :
    clickString p a len = none := by
  rw [StringInside] at h
  rw [clickString]
  by_cases hint : len % 2 ^ 32 < 2 ^ 31
  · rw [if_pos hint] at h
    rw [if_pos hint]
    exact view_outside p a _ h
  · rw [if_neg hint] at h
    rw [if_neg hint, if_neg h]

/-- The constructor takes no more than the packet has. -/
theorem stringLength_le (len : Nat) (h : StringInside p a len) :
    p.addr ≤ a ∧ a + stringLength p a len ≤ p.endData := by
  rw [StringInside] at h
  rw [stringLength]
  by_cases hint : len % 2 ^ 32 < 2 ^ 31
  · rw [if_pos hint] at h
    rw [if_pos hint]
    exact h
  · rw [if_neg hint] at h
    rw [if_neg hint, UdpPacket.endData]
    have hle : ((p.bytes.drop (a - p.addr)).takeWhile (· != 0)).length ≤
        (p.bytes.drop (a - p.addr)).length := (List.takeWhile_prefix _).length_le
    -- There is a NUL, so the string does not start at the end.
    have hpos : 0 < (p.bytes.drop (a - p.addr)).length :=
      List.length_pos_of_mem (List.contains_iff_mem.mp h.2)
    rw [List.length_drop] at hle hpos
    exact ⟨h.1, by omega⟩

section Strings

variable (e : ControlError)

theorem controlString_outside (h : ¬ Inside p a 8) : controlString p a e = none := by
  simp only [controlString, read64_outside p a h]

variable (h : Inside p a 8)

include h

theorem controlString_rejected (hlong : p.endData < p.stringEnd a) :
    controlString p a e = some (.error e) := by
  have hstart : ptrAdd a 8 = a + 8 := ptrAdd_of_le p a 8 h.2
  have hend : p.endData < ptrAdd (a + 8) (p.word a) := hlong
  simp only [controlString, read64_inside p a h, hstart, if_pos hend]

theorem controlString_accepted (hshort : ¬ p.endData < p.stringEnd a) :
    controlString p a e = (clickString p (a + 8) (p.word a)).map
      fun s => .ok (s, p.stringEnd a) := by
  have hstart : ptrAdd a 8 = a + 8 := ptrAdd_of_le p a 8 h.2
  have hend : ¬ p.endData < ptrAdd (a + 8) (p.word a) := hshort
  simp only [controlString, read64_inside p a h, hstart, if_neg hend]
  cases clickString p (a + 8) (p.word a) with
  | none => rfl
  | some s => rfl

end Strings

end Reads

section Parser

variable (p : UdpPacket)

/-- A header that passes is there, so the payload starts inside the packet. -/
theorem endData_payload (h : CheckUdpHeader p) :
    p.endData = p.addr + 8 + p.payload.length := by
  have hlong : 8 ≤ p.bytes.length := h.1.trans h.2
  rw [UdpPacket.endData, UdpPacket.payload, List.length_drop]
  omega

theorem word_payload (off : Nat) : p.word (p.addr + 8 + off) = readLE p.payload off 8 := by
  rw [UdpPacket.word, UdpPacket.payload, readLE, readLE, List.drop_drop,
    show p.addr + 8 + off - p.addr = 8 + off by omega]

theorem nameLen_eq : p.word (p.addr + 23) = p.nameLen :=
  word_payload p 15

/-- What is compared with the magic number. -/
theorem view_magic (h : CheckUdpHeader p) (hn : 7 ≤ p.payload.length) :
    p.view (p.addr + 8) 7 = some (p.payload.take 7) := by
  have hend := endData_payload p h
  rw [view_inside p (p.addr + 8) 7 ⟨by omega, by omega⟩, UdpPacket.payload, Nat.add_sub_cancel_left]

section Stages

variable (h : CheckUdpHeader p) (hulen : ¬ uhUlen p < 31)

include h hulen

theorem controlPush_no_magic (hn : p.payload.length < 7) : controlPush p = none := by
  have hend := endData_payload p h
  have hout : ¬ Inside p (p.addr + 8) 7 := by
    rintro ⟨-, hin⟩
    omega
  simp only [controlPush, if_neg hulen, view_outside p _ 7 hout]

theorem controlPush_other (hn : 7 ≤ p.payload.length) (hmagic : p.payload.take 7 ≠ controlMagic) :
    controlPush p = some (.error .notMatchingPrefix) := by
  simp only [controlPush, if_neg hulen, view_magic p h hn, if_pos hmagic]

variable (hmagic : p.payload.take 7 = controlMagic)

include hmagic

theorem controlPush_short (hn : 7 ≤ p.payload.length) (hshort : p.payload.length < 23) :
    controlPush p = none := by
  have hend := endData_payload p h
  have hid : ptrAdd (p.addr + 8) 7 = p.addr + 15 := ptrAdd_of_le p _ _ (by omega)
  simp only [controlPush, if_neg hulen, view_magic p h hn, hmagic, ne_eq,
    not_true_eq_false, if_false, hid]
  by_cases hfifteen : Inside p (p.addr + 15) 8
  -- The identifier is there and the length behind it is not.
  · have hlen : ptrAdd (p.addr + 8) 15 = p.addr + 23 :=
      ptrAdd_of_le p _ _ (by have := hfifteen.2; omega)
    have hout : ¬ Inside p (p.addr + 23) 8 := by
      rintro ⟨-, hin⟩
      omega
    simp only [read64_inside p _ hfifteen, hlen, controlString_outside p _ _ hout]
  · simp only [read64_outside p _ hfifteen]

/-- Behind the magic number and the identifier the parser reads two
    strings. -/
theorem controlPush_strings (hlong : 23 ≤ p.payload.length) :
    controlPush p = match controlString p (p.addr + 23) .invalidProgramNameLen with
      | none => none
      | some (.error e) => some (.error e)
      | some (.ok (programName, a)) =>
        match controlString p a .invalidSignatureLen with
        | none => none
        | some (.error e) => some (.error e)
        | some (.ok (signature, _)) =>
          some (.ok ⟨p.word (p.addr + 15), programName, signature⟩) := by
  have hend := endData_payload p h
  have hid : ptrAdd (p.addr + 8) 7 = p.addr + 15 := ptrAdd_of_le p _ _ (by omega)
  have hlen : ptrAdd (p.addr + 8) 15 = p.addr + 23 := ptrAdd_of_le p _ _ (by omega)
  have hread : p.read64 (p.addr + 15) = some (p.word (p.addr + 15)) :=
    read64_inside p _ ⟨by omega, by omega⟩
  have hview : p.view (p.addr + 8) 7 = some controlMagic := by
    rw [view_magic p h (by omega), hmagic]
  -- Both sides go by what the two strings give.
  rcases hname : controlString p (p.addr + 23) .invalidProgramNameLen with _ | (e | ⟨name, a⟩)
  · simp only [controlPush, if_neg hulen, hview, ne_eq, not_true_eq_false, if_false, hid, hread,
      hlen, hname]
  · simp only [controlPush, if_neg hulen, hview, ne_eq, not_true_eq_false, if_false, hid, hread,
      hlen, hname]
  · rcases hsig : controlString p a .invalidSignatureLen with _ | (e | ⟨signature, b⟩)
    · simp only [controlPush, if_neg hulen, hview, ne_eq, not_true_eq_false, if_false, hid, hread,
        hlen, hname, hsig]
    · simp only [controlPush, if_neg hulen, hview, ne_eq, not_true_eq_false, if_false, hid, hread,
        hlen, hname, hsig]
    · simp only [controlPush, if_neg hulen, hview, ne_eq, not_true_eq_false, if_false, hid, hread,
        hlen, hname, hsig]

end Stages

theorem stringEnd_of_le (a : Nat) (h : a + 8 + p.word a ≤ p.endData) :
    p.stringEnd a = a + 8 + p.word a :=
  ptrAdd_of_le p (a + 8) (p.word a) h

/-- A string of the declared length ends where the next length is looked
    for. -/
theorem sigLen_eq (hin : p.addr + 31 + p.nameLen ≤ p.endData) :
    p.stringEnd (p.addr + 23) = p.addr + 31 + p.nameLen ∧
      p.word (p.stringEnd (p.addr + 23)) = p.sigLen := by
  have hend : p.stringEnd (p.addr + 23) = p.addr + 31 + p.nameLen := by
    have hplain := stringEnd_of_le p (p.addr + 23) (by rw [nameLen_eq]; omega)
    rw [nameLen_eq] at hplain
    omega
  refine ⟨hend, ?_⟩
  rw [hend, UdpPacket.sigLen, ← word_payload p (23 + p.nameLen)]
  congr 1
  omega

/-- What the constructor was given and took, it took as declared exactly when
    it took as many bytes as it was given. -/
theorem declaredFields_iff (h : CheckUdpHeader p) (hlong : 23 ≤ p.payload.length) (id : Nat)
    (hname : StringInside p (p.addr + 31) p.nameLen)
    (hsig : StringInside p (p.stringEnd (p.addr + 23) + 8) (p.word (p.stringEnd (p.addr + 23)))) :
    DeclaredFields p ⟨id,
        (p.bytes.drop (p.addr + 31 - p.addr)).take (stringLength p (p.addr + 31) p.nameLen),
        (p.bytes.drop (p.stringEnd (p.addr + 23) + 8 - p.addr)).take
          (stringLength p (p.stringEnd (p.addr + 23) + 8)
            (p.word (p.stringEnd (p.addr + 23))))⟩ ↔
      stringLength p (p.addr + 31) p.nameLen = p.nameLen ∧
        stringLength p (p.stringEnd (p.addr + 23) + 8) (p.word (p.stringEnd (p.addr + 23))) =
          p.word (p.stringEnd (p.addr + 23)) := by
  have hend := endData_payload p h
  have htotal : p.endData = p.addr + p.bytes.length := rfl
  rcases stringLength_le p _ _ hname with ⟨-, hnameLe⟩
  rcases stringLength_le p _ _ hsig with ⟨hsigAddr, hsigLe⟩
  have hoff : p.addr + 31 - p.addr = 31 := by omega
  constructor
  · rintro ⟨hfull, hnameEq, hsigEq⟩
    rcases sigLen_eq p (by omega) with ⟨haddr, hword⟩
    -- Both sides have as many bytes as they were cut to.
    have hnameLen := congrArg List.length hnameEq
    have hsigLen := congrArg List.length hsigEq
    simp only [List.length_take, List.length_drop, UdpPacket.payload] at hnameLen hsigLen hfull
    rw [hword, haddr] at hsigLen hsigLe ⊢
    exact ⟨by omega, by omega⟩
  · rintro ⟨hnameEq, hsigEq⟩
    -- The name has its declared length, so nothing wrapped before the
    -- signature.
    rcases sigLen_eq p (by omega) with ⟨haddr, hword⟩
    rw [hword, haddr] at hsigEq hsigLe ⊢
    rw [hnameEq, hsigEq]
    refine ⟨?_, ?_, ?_⟩
    · omega
    · rw [UdpPacket.payload, List.drop_drop, hoff]
    · rw [UdpPacket.payload, List.drop_drop,
        show p.addr + 31 + p.nameLen + 8 - p.addr = 8 + (31 + p.nameLen) by omega]

/-- A packet that is turned away was parsed inside. -/
theorem parsesInside_of_error (e : ControlError) (h : controlPush p = some (.error e)) :
    ParsesInside p := by
  refine ⟨?_, ?_⟩
  · rw [h]
    simp only [ne_eq, reduceCtorEq, not_false_eq_true]
  · intro f hf
    rw [h, Option.some.injEq] at hf
    exact absurd hf (by simp only [reduceCtorEq, not_false_eq_true])

theorem not_parsesInside_of_none (h : controlPush p = none) : ¬ ParsesInside p :=
  fun hinside => hinside.1 h

theorem parsesInside_of_ok (f : ControlFields) (h : controlPush p = some (.ok f)) :
    ParsesInside p ↔ DeclaredFields p f := by
  constructor
  · intro hinside
    exact hinside.2 f h
  · intro hfields
    refine ⟨?_, ?_⟩
    · rw [h]
      simp only [ne_eq, reduceCtorEq, not_false_eq_true]
    · intro g hg
      rw [h, Option.some.injEq, Except.ok.injEq] at hg
      rw [← hg]
      exact hfields

section Tail

variable (h : CheckUdpHeader p) (hulen : ¬ uhUlen p < 31)
  (hmagic : p.payload.take 7 = controlMagic) (hlong : 23 ≤ p.payload.length)

include h hulen hmagic hlong

/-- The second string, behind a name that was taken. -/
theorem parsesInside_signature (name : Bytes)
    (hname : controlString p (p.addr + 23) .invalidProgramNameLen =
      some (.ok (name, p.stringEnd (p.addr + 23))))
    (hstring : StringInside p (p.addr + 31) p.nameLen)
    (hbytes : name = (p.bytes.drop (p.addr + 31 - p.addr)).take
      (stringLength p (p.addr + 31) p.nameLen)) :
    ParsesInside p ↔ Inside p (p.stringEnd (p.addr + 23)) 8 ∧
      (p.endData < p.stringEnd (p.stringEnd (p.addr + 23)) ∨
        (StringDeclared p (p.addr + 23) ∧ StringDeclared p (p.stringEnd (p.addr + 23)))) := by
  have hparse := controlPush_strings p h hulen hmagic hlong
  simp only [hname] at hparse
  -- The length is there or not; the check turns the string away or not; the
  -- string is there or not.
  by_cases hin : Inside p (p.stringEnd (p.addr + 23)) 8
  · by_cases hreject : p.endData < p.stringEnd (p.stringEnd (p.addr + 23))
    · rw [controlString_rejected p _ _ hin hreject] at hparse
      exact iff_of_true (parsesInside_of_error p _ hparse) ⟨hin, Or.inl hreject⟩
    rw [controlString_accepted p _ _ hin hreject] at hparse
    have hdeclared : StringDeclared p (p.addr + 23) ↔
        stringLength p (p.addr + 31) p.nameLen = p.nameLen := by
      rw [StringDeclared, nameLen_eq]
      exact ⟨fun hboth => hboth.2, fun heq => ⟨hstring, heq⟩⟩
    by_cases hsig : StringInside p (p.stringEnd (p.addr + 23) + 8)
        (p.word (p.stringEnd (p.addr + 23)))
    · rw [clickString_inside p _ _ hsig] at hparse
      rw [parsesInside_of_ok p _ hparse, hbytes, declaredFields_iff p h hlong _ hstring hsig,
        hdeclared, StringDeclared]
      constructor
      · rintro ⟨hnameLen, hsigLen⟩
        exact ⟨hin, Or.inr ⟨hnameLen, hsig, hsigLen⟩⟩
      · rintro ⟨-, hover | ⟨hnameLen, -, hsigLen⟩⟩
        · exact absurd hover hreject
        · exact ⟨hnameLen, hsigLen⟩
    · rw [clickString_outside p _ _ hsig] at hparse
      refine iff_of_false (not_parsesInside_of_none p hparse) ?_
      rintro ⟨-, hover | ⟨-, hdec⟩⟩
      · exact hreject hover
      · exact hsig hdec.1
  · rw [controlString_outside p _ _ hin] at hparse
    exact iff_of_false (not_parsesInside_of_none p hparse) (fun hboth => hin hboth.1)

theorem parsesInside_strings :
    ParsesInside p ↔ p.endData < p.stringEnd (p.addr + 23) ∨
      (StringInside p (p.addr + 31) p.nameLen ∧ Inside p (p.stringEnd (p.addr + 23)) 8 ∧
        (p.endData < p.stringEnd (p.stringEnd (p.addr + 23)) ∨
          (StringDeclared p (p.addr + 23) ∧ StringDeclared p (p.stringEnd (p.addr + 23))))) := by
  have hend := endData_payload p h
  have hin : Inside p (p.addr + 23) 8 := ⟨by omega, by omega⟩
  have hparse := controlPush_strings p h hulen hmagic hlong
  by_cases hreject : p.endData < p.stringEnd (p.addr + 23)
  · rw [controlString_rejected p _ _ hin hreject] at hparse
    exact iff_of_true (parsesInside_of_error p _ hparse) (Or.inl hreject)
  have hname := controlString_accepted p _ .invalidProgramNameLen hin hreject
  rw [nameLen_eq] at hname
  by_cases hstring : StringInside p (p.addr + 31) p.nameLen
  · have htaken := clickString_inside p _ _ hstring
    rw [show p.addr + 23 + 8 = p.addr + 31 by omega, htaken] at hname
    rw [parsesInside_signature p h hulen hmagic hlong _ hname hstring rfl]
    constructor
    · intro hrest
      exact Or.inr ⟨hstring, hrest⟩
    · rintro (hover | ⟨-, hrest⟩)
      · exact absurd hover hreject
      · exact hrest
  · rw [show p.addr + 23 + 8 = p.addr + 31 by omega, clickString_outside p _ _ hstring] at hname
    rw [hname] at hparse
    refine iff_of_false (not_parsesInside_of_none p hparse) ?_
    rintro (hover | ⟨htaken, -⟩)
    · exact hreject hover
    · exact hstring htaken

end Tail

/-- For every packet that has passed `CheckUDPHeader`, whatever it holds: the
    parser reads nothing that is not in the packet and accepts only what the
    packet declares, if and only if the packet is one of those that do no
    harm. -/
theorem parses_inside_iff (h : CheckUdpHeader p) : ParsesInside p ↔ KeptInside p := by
  rw [KeptInside]
  -- The checks in the order in which the parser makes them.
  by_cases hulen : uhUlen p < 31
  · have hparse : controlPush p = some (.error .invalidLength) := by
      simp only [controlPush, if_pos hulen]
    exact iff_of_true (parsesInside_of_error p _ hparse) (Or.inl hulen)
  by_cases hseven : 7 ≤ p.payload.length
  · by_cases hmagic : p.payload.take 7 = controlMagic
    · by_cases hlong : 23 ≤ p.payload.length
      · rw [parsesInside_strings p h hulen hmagic hlong]
        constructor
        · intro hrest
          exact Or.inr (Or.inr ⟨hlong, hrest⟩)
        · rintro (hfirst | ⟨-, hother⟩ | ⟨-, hrest⟩)
          · exact absurd hfirst hulen
          · exact absurd hmagic hother
          · exact hrest
      · have hparse := controlPush_short p h hulen hmagic hseven (by omega)
        refine iff_of_false (not_parsesInside_of_none p hparse) ?_
        rintro (hfirst | ⟨-, hother⟩ | ⟨hthere, -⟩)
        · exact hulen hfirst
        · exact hother hmagic
        · exact hlong hthere
    · have hparse := controlPush_other p h hulen hseven hmagic
      exact iff_of_true (parsesInside_of_error p _ hparse) (Or.inr (Or.inl ⟨hseven, hmagic⟩))
  · have hparse := controlPush_no_magic p h hulen (by omega)
    refine iff_of_false (not_parsesInside_of_none p hparse) ?_
    rintro (hfirst | ⟨hthere, -⟩ | ⟨hthere, -⟩)
    · exact hulen hfirst
    · exact hseven hthere
    · omega

end Parser

/-- The datagram for the program `filter` passes the check before the parser,
    and is parsed inside. -/
theorem parses_inside_filter : CheckUdpHeader filterDatagram ∧ KeptInside filterDatagram ∧
    ParsesInside filterDatagram := by
  have hcheck : CheckUdpHeader filterDatagram := by
    rw [CheckUdpHeader]
    decide
  have hkept : KeptInside filterDatagram := by
    simp only [KeptInside, StringDeclared, StringInside, Inside]
    decide
  exact ⟨hcheck, hkept, (parses_inside_iff filterDatagram hcheck).mpr hkept⟩

/-- A datagram without a payload. -/
def emptyDatagram : UdpPacket where
  addr := 0x1000
  bytes := [0x9c, 0x40, 0x11, 0x5c, 0, 8, 0, 0]
  fits := by decide

/-- A datagram that declares a name of 2 ^ 64 - 8 bytes. -/
def wrappedDatagram : UdpPacket where
  addr := 0x1000
  bytes := [0x9c, 0x40, 0x11, 0x5c, 0, 32, 0, 0] ++ (controlMagic ++
    (toLE 8 1 ++ (toLE 8 (2 ^ 64 - 8) ++ [0])))
  fits := by decide

/-- The length of the first is read as 2048, and the parser goes on to compare
    seven bytes that are not there. Of the second a name and a signature are
    accepted, both empty: the sum wraps to the length field itself. -/
theorem parses_outside :
    (CheckUdpHeader emptyDatagram ∧ controlPush emptyDatagram = none ∧
      ¬ ParsesInside emptyDatagram) ∧
    CheckUdpHeader wrappedDatagram ∧ controlPush wrappedDatagram = some (.ok ⟨1, [], []⟩) ∧
      ¬ ParsesInside wrappedDatagram := by
  have hempty : controlPush emptyDatagram = none := by decide
  have hwrapped : controlPush wrappedDatagram = some (.ok ⟨1, [], []⟩) := by decide
  have hname : wrappedDatagram.nameLen = 2 ^ 64 - 8 := by decide
  have hpayload : wrappedDatagram.payload.length = 24 := by decide
  refine ⟨⟨?_, hempty, fun hinside => hinside.1 hempty⟩, ?_, hwrapped, fun hinside => ?_⟩
  · rw [CheckUdpHeader]
    decide
  · rw [CheckUdpHeader]
    decide
  · have hlong := (hinside.2 _ hwrapped).1
    omega

end UniBPF
