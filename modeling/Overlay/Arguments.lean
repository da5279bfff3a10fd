import Overlay.Addresses
import Mathlib.Data.Int.DivMod

/-! The address and the port on the command line. Both are read digit by digit, and
neither reader asks for a digit. -/

namespace Overlay

open ByteMemory

/-- A C string, without its terminating zero. -/
structure CString where
  text : Str
  no_zero : 0 ∉ text

/-- `c - '0'`, where `char` is signed. -/
def charDigit (c : UInt8) : Int := c.toInt8.toInt - 48

/-- The loop that adds decimal digits up, whatever type it adds them up in. -/
def readDigits {α : Type} (add : α → Int → α) (num : α) : Str → Option α
  | [] => some num
  | c :: s => if charDigit c < 0 ∨ 9 < charDigit c then none else readDigits add (add num (charDigit c)) s

def unsignedDigit (num : UInt32) (d : Int) : UInt32 := num * 10 + UInt32.ofInt d

def signedDigit (num : Int32) (digit : Int) : Int32 := num * 10 + Int32.ofInt digit

/-- One octet up to the next dot; none if there is no dot or the octet is refused. -/
def readOctet (ip : Str) : Option (UInt8 × Str) :=
  let octet := ip.takeWhile (· ≠ 46)
  if 46 ∉ ip then none
  else if 3 < octet.length then none
  else match readDigits unsignedDigit 0 octet with
    | none => none
    | some num => if 255 < num then none else some (num.toUInt8, (ip.dropWhile (· ≠ 46)).tail)

def readOctets : Nat → Str → Option (List UInt8 × Str)
  | 0, ip => some ([], ip)
  | i + 1, ip =>
    match readOctet ip with
    | none => none
    | some (octet, ip) =>
      match readOctets i ip with
      | none => none
      | some (octets, ip) => some (octet :: octets, ip)

structure ParsedIP where
  accepted : Bool
  ip : Str
  res : UInt32

/-- The octets become the bytes of a word in network order. The address is stored before
the rest of the text is looked at. -/
def parseIP (ip : Str) (res : UInt32) : ParsedIP :=
  let ip := ip ++ [46]
  match readOctets 4 ip with
  | none => { accepted := false, ip := ip, res := res }
  | some (arr, rest) => { accepted := rest = [], ip := ip, res := swap32 (word32 arr 0) }

structure ParsedPort where
  accepted : Bool
  res : UInt16

def parsePort (port : CString) (res : UInt16) : ParsedPort :=
  match readDigits signedDigit 0 port.text with
  | none => { accepted := false, res := res }
  | some num =>
    if num ≥ 65536 then { accepted := false, res := res }
    else { accepted := true, res := UInt16.ofInt num.toInt }

/-! What the text says. -/

def IsDigits (s : Str) : Prop := ∀ c ∈ s, 48 ≤ c ∧ c ≤ 57

instance (s : Str) : Decidable (IsDigits s) := inferInstanceAs (Decidable (∀ c ∈ s, 48 ≤ c ∧ c ≤ 57))

def decimalValue (s : Str) : Nat := s.foldl (fun value c => value * 10 + (c.toNat - 48)) 0

/-- At most three digits, possibly none. -/
structure IsOctet (part : Str) : Prop where
  digits : IsDigits part
  length_le : part.length ≤ 3
  value_le : decimalValue part ≤ 255

def octets (ip : Str) : List Str := ip.splitOn 46

structure FourOctets (ip : Str) : Prop where
  four : (octets ip).length = 4
  octet : ∀ part ∈ octets ip, IsOctet part

def address (ip : Str) : Nat := (octets ip).foldl (fun value part => value * 256 + decimalValue part) 0

theorem charDigit_iff (c : UInt8) : ¬ (charDigit c < 0 ∨ 9 < charDigit c) ↔ 48 ≤ c ∧ c ≤ 57 := by
  have hall : ∀ n < 256, ¬ (charDigit (UInt8.ofNat n) < 0 ∨ 9 < charDigit (UInt8.ofNat n)) ↔
      48 ≤ UInt8.ofNat n ∧ UInt8.ofNat n ≤ 57 := by decide +kernel
  have h := hall c.toNat c.toNat_lt
  rwa [UInt8.ofNat_toNat] at h

theorem charDigit_eq {c : UInt8} (h : 48 ≤ c ∧ c ≤ 57) : charDigit c = ((c.toNat - 48 : Nat) : Int) := by
  have hall : ∀ n < 58, 48 ≤ n → charDigit (UInt8.ofNat n) = ((n - 48 : Nat) : Int) := by decide
  have hl : 48 ≤ c.toNat := UInt8.le_iff_toNat_le.mp h.1
  have hu : c.toNat ≤ 57 := UInt8.le_iff_toNat_le.mp h.2
  have hc := hall c.toNat (by omega) hl
  rwa [UInt8.ofNat_toNat] at hc

section Digits

variable {α : Type} {add : α → Int → α} {s : Str}

theorem readDigits_eq_foldl {num res : α} : readDigits add num s = some res ↔
    IsDigits s ∧ res = s.foldl (fun num c => add num (charDigit c)) num := by
  induction s generalizing num with
  | nil => simp [readDigits, IsDigits, eq_comm]
  | cons c s ih =>
    by_cases hc : charDigit c < 0 ∨ 9 < charDigit c
    · have hno : ¬ (48 ≤ c ∧ c ≤ 57) := fun h => (charDigit_iff c).mpr h hc
      simp [readDigits, IsDigits, hc, hno]
    · have hd := (charDigit_iff c).mp hc
      rw [readDigits, if_neg hc, ih]
      simp only [IsDigits, List.forall_mem_cons, hd, and_self, true_and, List.foldl_cons]

variable {ofValue : Nat → α}

/-- A type with the arithmetic of the naturals adds the digits up to their value in it. -/
theorem foldl_charDigit (hadd : ∀ value digit : Nat, add (ofValue value) digit = ofValue (value * 10 + digit))
    (h : IsDigits s) : s.foldl (fun num c => add num (charDigit c)) (ofValue 0) = ofValue (decimalValue s) := by
  have hcongr : s.foldl (fun num c => add num (charDigit c)) (ofValue 0) =
      s.foldl (fun num c => add num ((c.toNat - 48 : Nat) : Int)) (ofValue 0) := by
    apply List.foldl_ext
    intro num c hc
    rw [charDigit_eq (h c hc)]
  rw [hcongr, List.foldl_hom ofValue fun value c => hadd value (c.toNat - 48), decimalValue]

theorem readDigits_eq_some (hadd : ∀ value digit : Nat, add (ofValue value) digit = ofValue (value * 10 + digit))
    {res : α} : readDigits add (ofValue 0) s = some res ↔ IsDigits s ∧ res = ofValue (decimalValue s) := by
  rw [readDigits_eq_foldl]
  exact and_congr_right fun h => by rw [foldl_charDigit hadd h]

end Digits

theorem decimalValue_lt {s : Str} (h : IsDigits s) : decimalValue s < 10 ^ s.length := by
  have hfold : ∀ value, s.foldl (fun value c => value * 10 + (c.toNat - 48)) value < (value + 1) * 10 ^ s.length := by
    induction s with
    | nil => simp
    | cons c s ih =>
      intro value
      have hc : c.toNat ≤ 57 := UInt8.le_iff_toNat_le.mp (h c List.mem_cons_self).2
      have hs := ih (fun d hd => h d (List.mem_cons_of_mem _ hd)) (value * 10 + (c.toNat - 48))
      have hroom : value * 10 + (c.toNat - 48) + 1 ≤ (value + 1) * 10 := by omega
      calc (c :: s).foldl (fun value c => value * 10 + (c.toNat - 48)) value
          < (value * 10 + (c.toNat - 48) + 1) * 10 ^ s.length := hs
        _ ≤ (value + 1) * 10 * 10 ^ s.length := Nat.mul_le_mul_right _ hroom
        _ = (value + 1) * 10 ^ (c :: s).length := by
          rw [List.length_cons, Nat.pow_succ, Nat.mul_assoc, Nat.mul_comm 10]
  simpa [decimalValue] using hfold 0

theorem unsignedDigit_ofNat (value digit : Nat) :
    unsignedDigit (UInt32.ofNat value) digit = UInt32.ofNat (value * 10 + digit) := by
  have hd : UInt32.ofInt (digit : Int) = UInt32.ofNat digit := by
    apply UInt32.toNat_inj.mp
    simp only [UInt32.ofInt, UInt32.toNat_ofNat']
    omega
  simp [unsignedDigit, hd]

theorem signedDigit_ofNat (value digit : Nat) :
    signedDigit (Int32.ofNat value) digit = Int32.ofNat (value * 10 + digit) := by
  simp [signedDigit, Int32.ofInt_eq_ofNat]

section Octets

def octetByte (part : Str) : UInt8 := UInt8.ofNat (decimalValue part)

/-- Each part with a dot behind it. -/
def terminated (parts : List Str) (rest : Str) : Str := parts.foldr (fun part s => part ++ 46 :: s) rest

variable {part rest : Str}

theorem IsDigits.no_dot (h : IsDigits part) : 46 ∉ part := fun hm => absurd (h 46 hm).1 (by decide)

theorem takeWhile_dot (h : 46 ∉ part) : (part ++ 46 :: rest).takeWhile (· ≠ 46) = part := by
  have hall : ∀ c ∈ part, (fun c : UInt8 => decide (c ≠ 46)) c = true := by
    intro c hc
    simpa using ne_of_mem_of_not_mem hc h
  rw [List.takeWhile_append_of_pos hall]
  simp

theorem dropWhile_dot (h : 46 ∉ part) : (part ++ 46 :: rest).dropWhile (· ≠ 46) = 46 :: rest := by
  have hall : ∀ c ∈ part, (fun c : UInt8 => decide (c ≠ 46)) c = true := by
    intro c hc
    simpa using ne_of_mem_of_not_mem hc h
  rw [List.dropWhile_append_of_pos hall]
  simp

/-- The octet loop takes what is in front of a dot and refuses it unless it is an octet. -/
theorem readOctet_append (h : 46 ∉ part) {octet : UInt8} {ip : Str} :
    readOctet (part ++ 46 :: rest) = some (octet, ip) ↔
      IsOctet part ∧ octet = octetByte part ∧ ip = rest := by
  have hdot : 46 ∈ part ++ 46 :: rest := by simp
  have hvalue : 0 = UInt32.ofNat 0 := rfl
  simp only [readOctet, takeWhile_dot h, dropWhile_dot h, hdot, not_true_eq_false, if_false, List.tail_cons]
  by_cases hlen : 3 < part.length
  · have hno : ¬ IsOctet part := fun ho => absurd ho.length_le (by omega)
    simp [hlen, hno]
  · rw [if_neg hlen, hvalue]
    cases hr : readDigits unsignedDigit (UInt32.ofNat 0) part with
    | none =>
      have hno : ¬ IsOctet part := by
        intro ho
        have hs := (readDigits_eq_some unsignedDigit_ofNat).mpr ⟨ho.digits, rfl⟩
        rw [hr] at hs
        cases hs
      simp [hno]
    | some num =>
      obtain ⟨hd, rfl⟩ := (readDigits_eq_some unsignedDigit_ofNat).mp hr
      have hlt := decimalValue_lt hd
      have hpow : 10 ^ part.length ≤ 10 ^ 3 := Nat.pow_le_pow_right (by decide) (by omega)
      have hnum : (UInt32.ofNat (decimalValue part)).toNat = decimalValue part := by
        simp only [UInt32.toNat_ofNat']
        omega
      by_cases hbig : 255 < UInt32.ofNat (decimalValue part)
      · have hno : ¬ IsOctet part := by
          intro ho
          have hle := ho.value_le
          rw [UInt32.lt_iff_toNat_lt, hnum] at hbig
          exact absurd hbig (by simpa using hle)
        simp [hbig, hno]
      · have ho : IsOctet part := by
          rw [UInt32.lt_iff_toNat_lt, hnum] at hbig
          exact ⟨hd, by omega, by simpa using hbig⟩
        simp [hbig, ho, octetByte, eq_comm]

theorem readOctets_terminated {parts : List Str} (ho : ∀ part ∈ parts, IsOctet part) (rest : Str) :
    readOctets parts.length (terminated parts rest) = some (parts.map octetByte, rest) := by
  induction parts with
  | nil => rfl
  | cons part parts ih =>
    have hp : IsOctet part := ho part List.mem_cons_self
    have hfirst : readOctet (terminated (part :: parts) rest) = some (octetByte part, terminated parts rest) :=
      (readOctet_append hp.digits.no_dot).mpr ⟨hp, rfl, rfl⟩
    simp only [List.length_cons, readOctets, hfirst, ih fun p h => ho p (List.mem_cons_of_mem _ h), List.map_cons]

theorem readOctets_eq_some {n : Nat} {ip rest : Str} {arr : List UInt8} (h : readOctets n ip = some (arr, rest)) :
    ∃ parts : List Str, parts.length = n ∧ (∀ part ∈ parts, IsOctet part) ∧ arr = parts.map octetByte ∧
      ip = terminated parts rest := by
  induction n generalizing ip arr with
  | zero =>
    obtain ⟨rfl, rfl⟩ : [] = arr ∧ ip = rest := by simpa [readOctets] using h
    exact ⟨[], rfl, by simp, rfl, rfl⟩
  | succ n ih =>
    rw [readOctets] at h
    cases hf : readOctet ip with
    | none => simp [hf] at h
    | some first =>
      obtain ⟨octet, ip'⟩ := first
      cases hr : readOctets n ip' with
      | none => simp [hf, hr] at h
      | some others =>
        obtain ⟨octets, rest'⟩ := others
        obtain ⟨rfl, rfl⟩ : octet :: octets = arr ∧ rest' = rest := by simpa [hf, hr] using h
        have hdot : 46 ∈ ip := by
          by_contra hno
          simp [readOctet, hno] at hf
        obtain ⟨part, tail, rfl, hno⟩ := List.eq_append_cons_of_mem hdot
        obtain ⟨ho, rfl, rfl⟩ := (readOctet_append hno).mp hf
        obtain ⟨parts, hlen, hall, rfl, rfl⟩ := ih hr
        exact ⟨part :: parts, by simp [hlen], List.forall_mem_cons.mpr ⟨ho, hall⟩, rfl, rfl⟩

theorem terminated_eq {parts : List Str} (h : parts ≠ []) :
    terminated parts [] = [46].intercalate parts ++ [46] := by
  induction parts with
  | nil => exact absurd rfl h
  | cons part parts ih =>
    cases parts with
    | nil => simp [terminated]
    | cons next parts =>
      have hs := ih (by simp)
      simp only [terminated, List.foldr_cons, List.intercalate_cons_cons] at hs ⊢
      rw [hs]
      simp

theorem octets_intercalate {parts : List Str} (h : parts ≠ []) (ho : ∀ part ∈ parts, IsOctet part) :
    octets ([46].intercalate parts) = parts :=
  List.splitOn_intercalate 46 (fun part hp => (ho part hp).digits.no_dot) h

theorem readOctets_eq_some_iff {ip : Str} {arr : List UInt8} :
    readOctets 4 (ip ++ [46]) = some (arr, []) ↔ FourOctets ip ∧ arr = (octets ip).map octetByte := by
  constructor
  · intro h
    obtain ⟨parts, hlen, ho, rfl, hip⟩ := readOctets_eq_some h
    have hne : parts ≠ [] := List.ne_nil_of_length_pos (by omega)
    obtain rfl : ip = [46].intercalate parts := List.append_cancel_right (hip.trans (terminated_eq hne))
    rw [octets_intercalate hne ho]
    exact ⟨⟨by rw [octets_intercalate hne ho, hlen], by rwa [octets_intercalate hne ho]⟩, rfl⟩
  · rintro ⟨h, rfl⟩
    have hne : octets ip ≠ [] := List.splitOn_ne_nil 46 ip
    have hip : ip ++ [46] = terminated (octets ip) [] := by
      rw [terminated_eq hne, octets, List.intercalate_splitOn]
    have hread := readOctets_terminated h.octet []
    rwa [h.four, ← hip] at hread

end Octets

/-! The two readers of an address. -/

theorem parseIP_accepted_iff (ip : Str) (res : UInt32) : (parseIP ip res).accepted = true ↔ FourOctets ip := by
  cases hr : readOctets 4 (ip ++ [46]) with
  | none =>
    have hno : ¬ FourOctets ip := by
      intro h
      have hs := readOctets_eq_some_iff.mpr ⟨h, rfl⟩
      rw [hr] at hs
      cases hs
    simp [parseIP, hr, hno]
  | some read =>
    obtain ⟨arr, rest⟩ := read
    constructor
    · intro h
      obtain rfl : rest = [] := by simpa [parseIP, hr] using h
      exact (readOctets_eq_some_iff.mp hr).1
    · intro h
      have hs := readOctets_eq_some_iff.mpr ⟨h, rfl⟩
      rw [hr] at hs
      simp_all [parseIP]

section Address

variable {ip : Str} (h : FourOctets ip)

include h

theorem FourOctets.eq_intercalate : ∃ p₀ p₁ p₂ p₃ : Str, octets ip = [p₀, p₁, p₂, p₃] ∧
    ip = p₀ ++ 46 :: (p₁ ++ 46 :: (p₂ ++ 46 :: p₃)) ∧ IsOctet p₀ ∧ IsOctet p₁ ∧ IsOctet p₂ ∧ IsOctet p₃ := by
  obtain ⟨p₀, p₁, p₂, p₃, hp⟩ : ∃ p₀ p₁ p₂ p₃, octets ip = [p₀, p₁, p₂, p₃] := by
    match octets ip, h.four with
    | [p₀, p₁, p₂, p₃], _ => exact ⟨p₀, p₁, p₂, p₃, rfl⟩
  have hip : [46].intercalate (octets ip) = ip := List.intercalate_splitOn 46
  have ho := h.octet
  rw [hp] at hip ho
  simp only [List.forall_mem_cons] at ho
  refine ⟨p₀, p₁, p₂, p₃, hp, ?_, ho.1, ho.2.1, ho.2.2.1, ho.2.2.2.1⟩
  simpa [List.intercalate] using hip.symm

theorem toNat_parseIP (res : UInt32) : (parseIP ip res).res.toNat = address ip := by
  obtain ⟨p₀, p₁, p₂, p₃, hp, -, h₀, h₁, h₂, h₃⟩ := h.eq_intercalate
  have hread := readOctets_eq_some_iff.mpr ⟨h, rfl⟩
  have hbyte {part : Str} (ho : IsOctet part) : (octetByte part).toNat = decimalValue part := by
    have hle := ho.value_le
    simp only [octetByte, UInt8.toNat_ofNat']
    omega
  have hres : (parseIP ip res).res = join32 (octetByte p₃) (octetByte p₂) (octetByte p₁) (octetByte p₀) := by
    simp only [parseIP, hread, hp]
    exact swap32_join32 _ _ _ _
  rw [hres, toNat_join32, hbyte h₀, hbyte h₁, hbyte h₂, hbyte h₃, address, hp]
  simp only [List.foldl_cons, List.foldl_nil]
  omega

theorem toNat_ipIntoUint : (ipIntoUint ip).toNat = address ip := by
  obtain ⟨p₀, p₁, p₂, p₃, hp, hip, h₀, h₁, h₂, h₃⟩ := h.eq_intercalate
  have hdot (sum part : UInt32) : ipIntoUintStep (sum, part) 46 = ((sum + part) * 256, 0) := rfl
  have hparses {part : Str} (ho : IsOctet part) : Parses part (UInt32.ofNat (decimalValue part)) := by
    intro sum
    rw [foldl_ipIntoUintStep fun c hc => ne_of_mem_of_not_mem hc ho.digits.no_dot]
    exact congrArg (Prod.mk sum) (foldl_charDigit unsignedDigit_ofNat ho.digits)
  have hl₀ := h₀.value_le
  have hl₁ := h₁.value_le
  have hl₂ := h₂.value_le
  have hl₃ := h₃.value_le
  rw [address, hp, hip, ipIntoUint]
  simp only [List.foldl_append, List.foldl_cons, List.foldl_nil, hparses h₀ _, hparses h₁ _, hparses h₂ _,
    hparses h₃ _, hdot, UInt32.toNat_add, UInt32.toNat_mul, UInt32.toNat_ofNat', UInt32.reduceToNat]
  omega

end Address

/-- The two readers agree on what the strict one accepts, empty octets included. -/
theorem parsers_agree (ip : Str) (res : UInt32) (h : (parseIP ip res).accepted = true) :
    (parseIP ip res).res = ipIntoUint ip := by
  have hf : FourOctets ip := (parseIP_accepted_iff ip res).mp h
  exact UInt32.toNat_inj.mp ((toNat_parseIP hf res).trans (toNat_ipIntoUint hf).symm)

theorem parsers_agree_empty_octet :
    (parseIP (ascii "1..20.3") 0).accepted = true ∧
      (parseIP (ascii "1..20.3") 0).res = ipIntoUint (ascii "1..20.3") :=
  ⟨by decide +kernel, parsers_agree _ _ (by decide +kernel)⟩

/-! What each reader is meant to accept, and where it does otherwise. -/

structure IsPort (s : Str) : Prop where
  not_empty : s ≠ []
  digits : IsDigits s
  value_le : decimalValue s ≤ 65535

structure IsAddress (s : Str) : Prop extends FourOctets s where
  not_empty : [] ∉ octets s

/-- The value leaves the range of a port and comes back into it, or turns negative, in an `int`. -/
structure PortWraps (s : Str) : Prop where
  digits : IsDigits s
  value_gt : 65535 < decimalValue s
  wraps : decimalValue s % 2 ^ 32 < 65536 ∨ 2 ^ 31 ≤ decimalValue s % 2 ^ 32

structure ReadsPort (port : CString) : Prop where
  accepted_iff : ∀ res, (parsePort port res).accepted = true ↔ IsPort port.text
  value : ∀ res, (parsePort port res).accepted = true → (parsePort port res).res.toNat = decimalValue port.text

structure ReadsAddress (ip : Str) : Prop where
  accepted_iff : ∀ res, (parseIP ip res).accepted = true ↔ IsAddress ip
  value : ∀ res, (parseIP ip res).accepted = true → (parseIP ip res).res.toNat = address ip

theorem int32_in_range (value : Nat) : ¬ Int32.ofNat value ≥ 65536 ↔
    value % 2 ^ 32 < 65536 ∨ 2 ^ 31 ≤ value % 2 ^ 32 := by
  have hbound : (65536 : Int32).toInt = 65536 := rfl
  rw [ge_iff_le, Int32.le_iff_toInt_le, Int32.toInt_ofNat', hbound, Int.bmod_def]
  simp only [Int32.size, Nat.reducePow, Int.reduceAdd, Int.reduceDiv, Nat.cast_ofNat]
  omega

theorem parsePort_accepted_iff (port : CString) (res : UInt16) : (parsePort port res).accepted = true ↔
    IsDigits port.text ∧ (decimalValue port.text % 2 ^ 32 < 65536 ∨ 2 ^ 31 ≤ decimalValue port.text % 2 ^ 32) := by
  rw [← int32_in_range]
  have hvalue : 0 = Int32.ofNat 0 := rfl
  cases hr : readDigits signedDigit 0 port.text with
  | none =>
    have hno : ¬ IsDigits port.text := by
      intro hd
      have hs := (readDigits_eq_some signedDigit_ofNat).mpr ⟨hd, rfl⟩
      rw [← hvalue, hr] at hs
      cases hs
    simp [parsePort, hr, hno]
  | some num =>
    obtain ⟨hd, rfl⟩ := (readDigits_eq_some signedDigit_ofNat).mp (hvalue ▸ hr)
    by_cases hn : Int32.ofNat (decimalValue port.text) ≥ 65536 <;> simp [parsePort, hr, hd, hn]

theorem toNat_parsePort {port : CString} (h : IsDigits port.text) (hv : decimalValue port.text ≤ 65535)
    (res : UInt16) : (parsePort port res).res.toNat = decimalValue port.text := by
  have hnum : readDigits signedDigit 0 port.text = some (Int32.ofNat (decimalValue port.text)) :=
    (readDigits_eq_some signedDigit_ofNat).mpr ⟨h, rfl⟩
  have hin : ¬ Int32.ofNat (decimalValue port.text) ≥ 65536 := (int32_in_range _).mpr (by omega)
  have hint : (Int32.ofNat (decimalValue port.text)).toInt = decimalValue port.text :=
    Int32.toInt_ofNat_of_lt (by omega)
  have hword : UInt16.ofInt (decimalValue port.text) = UInt16.ofNat (decimalValue port.text) := by
    apply UInt16.toNat_inj.mp
    simp only [UInt16.ofInt, UInt16.toNat_ofNat']
    omega
  simp only [parsePort, hnum, hin, if_false, hint, hword, UInt16.toNat_ofNat']
  omega

theorem readsPort_iff (port : CString) : ReadsPort port ↔ port.text ≠ [] ∧ ¬ PortWraps port.text := by
  constructor
  · intro h
    constructor
    · intro he
      have ha : (parsePort port 0).accepted = true := by
        rw [parsePort_accepted_iff, he]
        exact ⟨by simp [IsDigits], by decide⟩
      exact ((h.accepted_iff 0).mp ha).not_empty he
    · intro hw
      have ha : (parsePort port 0).accepted = true := (parsePort_accepted_iff port 0).mpr ⟨hw.digits, hw.wraps⟩
      have hle := ((h.accepted_iff 0).mp ha).value_le
      exact absurd hw.value_gt (by omega)
  · rintro ⟨hne, hw⟩
    have hsmall (res : UInt16) (ha : (parsePort port res).accepted = true) : IsPort port.text := by
      obtain ⟨hd, hr⟩ := (parsePort_accepted_iff port res).mp ha
      refine ⟨hne, hd, ?_⟩
      by_contra hgt
      exact hw ⟨hd, by omega, hr⟩
    constructor
    · intro res
      refine ⟨hsmall res, fun hp => (parsePort_accepted_iff port res).mpr ⟨hp.digits, ?_⟩⟩
      have hle := hp.value_le
      omega
    · intro res ha
      exact toNat_parsePort (hsmall res ha).digits (hsmall res ha).value_le res

theorem readsAddress_iff (ip : Str) : ReadsAddress ip ↔ ¬ (FourOctets ip ∧ [] ∈ octets ip) := by
  constructor
  · rintro h ⟨hf, he⟩
    exact ((h.accepted_iff 0).mp ((parseIP_accepted_iff ip 0).mpr hf)).not_empty he
  · intro h
    constructor
    · intro res
      rw [parseIP_accepted_iff]
      exact ⟨fun hf => ⟨hf, fun he => h ⟨hf, he⟩⟩, IsAddress.toFourOctets⟩
    · intro res ha
      exact toNat_parseIP ((parseIP_accepted_iff ip res).mp ha) res

/-- Each reader is right on exactly the texts that lack a digit nowhere and, for a port,
do not wrap around. -/
theorem arguments_read_exactly (port : CString) (ip : Str) :
    (ReadsPort port ↔ port.text ≠ [] ∧ ¬ PortWraps port.text) ∧
      (ReadsAddress ip ↔ ¬ (FourOctets ip ∧ [] ∈ octets ip)) :=
  ⟨readsPort_iff port, readsAddress_iff ip⟩

/-- No port, port 80 with `2 ^ 32` added, and an address with an empty octet are accepted. -/
theorem arguments_misread : ¬ ReadsPort ⟨ascii "", by decide +kernel⟩ ∧ ¬ ReadsPort ⟨ascii "4294967376", by decide +kernel⟩ ∧
    ¬ ReadsAddress (ascii "1..2.3") := by
  refine ⟨fun h => ?_, fun h => ?_, fun h => ?_⟩
  · exact ((readsPort_iff _).mp h).1 rfl
  · exact ((readsPort_iff _).mp h).2 ⟨by decide +kernel, by decide +kernel, Or.inl (by decide +kernel)⟩
  · have ha : (parseIP (ascii "1..2.3") 0).accepted = true := by decide +kernel
    have he : [] ∈ octets (ascii "1..2.3") := by decide +kernel
    exact (readsAddress_iff _).mp h ⟨(parseIP_accepted_iff _ 0).mp ha, he⟩

end Overlay
