import Overlay.ByteMemory
import Mathlib.Data.Fin.Basic
import Mathlib.Tactic.IntervalCases

/-! The text the node reads and prints: tokens of the custom information, dotted
addresses and MAC addresses. A C++ string is the list of its bytes. -/

namespace Overlay

open ByteMemory

abbrev Str := Bytes

def ascii (s : String) : Str := s.toList.map Char.toUInt8

def isSpace (c : UInt8) : Bool := c = 32 || (9 ≤ c && c ≤ 13)

/-- What successive `>>` extractions take from a stream. -/
def tokens (s : Str) : List Str :=
  go [] s
where
  go (token : Str) : Str → List Str
    | [] => if token = [] then [] else [token]
    | c :: s =>
      if isSpace c then if token = [] then go [] s else token :: go [] s
      else go (token ++ [c]) s

/-- `ip_str[i] - '0'`, where `char` is signed. -/
def digitValue (c : UInt8) : UInt32 := UInt32.ofInt (c.toInt8.toInt - 48)

def ipIntoUintStep (r : UInt32 × UInt32) (c : UInt8) : UInt32 × UInt32 :=
  if c = 46 then ((r.1 + r.2) * 256, 0) else (r.1, r.2 * 10 + digitValue c)

def ipIntoUint (ipStr : Str) : UInt32 :=
  let r := ipStr.foldl ipIntoUintStep (0, 0)
  r.1 + r.2

/-- The digits the inner loop puts in front of `str`; a 32-bit part has at most ten. -/
def prependDigits : Nat → UInt32 → Str → Str
  | 0, _, str => str
  | fuel + 1, part, str =>
    let str := (48 + part % 10).toUInt8 :: str
    if part / 10 = 0 then str else prependDigits fuel (part / 10) str

def octetStr (part : UInt32) : Str := prependDigits 10 part []

/-- `ip_str[0], …, ip_str[i - 1]` as the outer loop leaves them: the last one takes the
lowest octet, and what is above the highest octet stays empty. -/
def octetStrs : Nat → UInt32 → List Str
  | 0, _ => []
  | i + 1, ipUint =>
    if ipUint = 0 then List.replicate (i + 1) [] else octetStrs i (ipUint / 256) ++ [octetStr (ipUint % 256)]

def ipUintIntoStr (ipUint : UInt32) : Str := [46].intercalate (octetStrs 4 ipUint)

/-- `atoi`: the decimal prefix as a `long`, cut to an `int`. -/
def atoi (s : Str) : Int :=
  let s := s.dropWhile isSpace
  let digits (s : Str) : Int :=
    (s.takeWhile fun c => 48 ≤ c && c ≤ 57).foldl (fun n c => n * 10 + (c.toNat - 48 : Int)) 0
  let long (n : Int) : Int := (Int32.ofInt (max (-(2 ^ 63)) (min n (2 ^ 63 - 1)))).toInt
  match s with
  | 45 :: s => long (-digits s)
  | 43 :: s => long (digits s)
  | s => long (digits s)

structure Mac where
  b₀ : UInt8
  b₁ : UInt8
  b₂ : UInt8
  b₃ : UInt8
  b₄ : UInt8
  b₅ : UInt8
  deriving DecidableEq

def Mac.bytes (mac : Mac) : Bytes := [mac.b₀, mac.b₁, mac.b₂, mac.b₃, mac.b₄, mac.b₅]

@[simp] theorem Mac.length_bytes (mac : Mac) : mac.bytes.length = 6 := rfl

def readMac (b : Bytes) (i : Nat) : Mac :=
  ⟨word8 b i, word8 b (i + 1), word8 b (i + 2), word8 b (i + 3), word8 b (i + 4), word8 b (i + 5)⟩

theorem readMac_patch {b : Bytes} {i : Nat} {mac : Mac} (h : i + 6 ≤ b.length) :
    readMac (patch b i mac.bytes) i = mac := by
  have hk (k : Nat) (hk : k < 6) : word8 (patch b i mac.bytes) (i + k) = word8 mac.bytes k :=
    word8_patch_inside h hk
  have h₀ := hk 0 (by decide)
  rw [Nat.add_zero] at h₀
  rw [readMac, h₀, hk 1 (by decide), hk 2 (by decide), hk 3 (by decide), hk 4 (by decide), hk 5 (by decide)]
  rfl

theorem readMac_patch_of_disjoint {b v : Bytes} {i k : Nat} (h : i + v.length ≤ b.length)
    (hk : k + 6 ≤ i ∨ i + v.length ≤ k) : readMac (patch b i v) k = readMac b k := by
  simp only [readMac]
  rw [word8_patch_of_disjoint h (by omega), word8_patch_of_disjoint h (by omega),
    word8_patch_of_disjoint h (by omega), word8_patch_of_disjoint h (by omega),
    word8_patch_of_disjoint h (by omega), word8_patch_of_disjoint h (by omega)]

def hexValue (c : UInt8) : Option UInt8 :=
  if 48 ≤ c && c ≤ 57 then some (c - 48)
  else if 65 ≤ c && c ≤ 70 then some (c - 55)
  else if 97 ≤ c && c ≤ 102 then some (c - 87)
  else none

/-- One `%02X`: at most two characters after white space, a sign or `0x` among them. -/
def scanHex (s : Str) : Option (UInt32 × Str) :=
  match s.dropWhile isSpace with
  | [] => none
  | 45 :: s => s.head?.bind hexValue |>.map fun v => (0 - v.toUInt32, s.tail)
  | 43 :: s => s.head?.bind hexValue |>.map fun v => (v.toUInt32, s.tail)
  | c :: s => (hexValue c).map fun v =>
    match s with
    | [] => (v.toUInt32, [])
    | d :: s' =>
      if c = 48 && (d = 120 || d = 88) then (0, s')
      else match hexValue d with
        | some w => ((16 * v + w).toUInt32, s')
        | none => (v.toUInt32, s)

def scanFields : Nat → Str → List UInt32
  | 0, _ => []
  | n + 1, s =>
    match scanHex s with
    | none => []
    | some (v, 58 :: s) => v :: scanFields n s
    | some (v, _) => [v]

/-- `%X` stores a whole `unsigned int` for each field, the next one a single byte further on. -/
def storeFields : Bytes → Nat → List UInt32 → Bytes
  | b, _, [] => b
  | b, i, v :: fields => storeFields (patch b i (bytes32 v)) (i + 1) fields

/-- Into a zeroed array of six bytes. The last three fields also write to the three bytes
behind it: they are part of the buffer here, but what else they are is left out. -/
def macIntoByte (mac : Str) : Mac :=
  readMac (storeFields (List.replicate 9 0) 0 (scanFields 6 (mac.takeWhile (· ≠ 0)))) 0

def Parses (s : Str) (part : UInt32) : Prop :=
  ∀ sum, s.foldl ipIntoUintStep (sum, 0) = (sum, part)

theorem digitValue_char (part : UInt32) :
    (48 + part % 10).toUInt8 ≠ 46 ∧ digitValue (48 + part % 10).toUInt8 = part % 10 := by
  have key : ∀ n < 10, (48 + UInt32.ofNat n).toUInt8 ≠ 46 ∧
      digitValue (48 + UInt32.ofNat n).toUInt8 = UInt32.ofNat n := by decide
  have hlt : (part % 10).toNat < 10 := by
    rw [UInt32.toNat_mod]
    exact Nat.mod_lt _ (by decide)
  have h := key _ hlt
  rwa [UInt32.ofNat_toNat] at h

theorem foldl_prependDigits {fuel : Nat} {part : UInt32} (str : Str) (h : part.toNat < 10 ^ fuel) :
    (prependDigits fuel part str).foldl (fun p c => p * 10 + digitValue c) 0 =
      str.foldl (fun p c => p * 10 + digitValue c) part := by
  induction fuel generalizing part str with
  | zero =>
    have hz : part = 0 := UInt32.toNat_inj.mp (by simpa using h)
    rw [hz]
    rfl
  | succ fuel ih =>
    have hnext : part / 10 * 10 + digitValue (48 + part % 10).toUInt8 = part := by
      rw [(digitValue_char part).2]
      apply UInt32.toNat_inj.mp
      have hp := part.toNat_lt
      simp only [UInt32.toNat_add, UInt32.toNat_mul, UInt32.toNat_div, UInt32.toNat_mod, UInt32.reduceToNat]
      omega
    simp only [prependDigits]
    by_cases hz : part / 10 = 0
    · rw [if_pos hz, List.foldl_cons, ← hz, hnext]
    · have hlt : (part / 10).toNat < 10 ^ fuel := by
        rw [UInt32.toNat_div]
        exact Nat.div_lt_of_lt_mul (by rw [Nat.mul_comm]; exact h)
      rw [if_neg hz, ih _ hlt, List.foldl_cons, hnext]

theorem prependDigits_no_dot (fuel : Nat) (part : UInt32) (str : Str) (h : ∀ c ∈ str, c ≠ 46) :
    ∀ c ∈ prependDigits fuel part str, c ≠ 46 := by
  induction fuel generalizing part str with
  | zero => exact h
  | succ fuel ih =>
    have hcons : ∀ c ∈ (48 + part % 10).toUInt8 :: str, c ≠ 46 := by
      intro c hc
      rcases List.mem_cons.mp hc with rfl | hc
      · exact (digitValue_char part).1
      · exact h c hc
    simp only [prependDigits]
    by_cases hz : part / 10 = 0
    · rw [if_pos hz]
      exact hcons
    · rw [if_neg hz]
      exact ih _ _ hcons

theorem foldl_ipIntoUintStep {s : Str} (h : ∀ c ∈ s, c ≠ 46) (sum part : UInt32) :
    s.foldl ipIntoUintStep (sum, part) = (sum, s.foldl (fun p c => p * 10 + digitValue c) part) := by
  induction s generalizing part with
  | nil => rfl
  | cons c s ih =>
    simp only [List.foldl_cons, ipIntoUintStep, if_neg (h c List.mem_cons_self)]
    exact ih (fun c hc => h c (List.mem_cons_of_mem _ hc)) _

theorem parses_octetStr {part : UInt32} (hp : part < 256) : Parses (octetStr part) part := by
  intro sum
  have hlt : part.toNat < 10 ^ 10 := (UInt32.lt_iff_toNat_lt.mp hp).trans (by decide)
  rw [octetStr, foldl_ipIntoUintStep (prependDigits_no_dot 10 part [] (by simp)), foldl_prependDigits [] hlt]
  rfl

theorem octetStrs_succ_parses (i : Nat) (ipUint : UInt32) : ∃ s, Parses s (ipUint % 256) ∧
    octetStrs (i + 1) ipUint = octetStrs i (ipUint / 256) ++ [s] := by
  rw [octetStrs]
  by_cases hz : ipUint = 0
  · subst hz
    refine ⟨[], fun _ => rfl, ?_⟩
    rw [if_pos rfl, List.replicate_succ']
    cases i <;> rfl
  · rw [if_neg hz]
    have hm : ipUint % 256 < 256 := by
      rw [UInt32.lt_iff_toNat_lt, UInt32.toNat_mod]
      exact Nat.mod_lt _ (by decide)
    exact ⟨_, parses_octetStr hm, rfl⟩

theorem ipIntoUint_ipUintIntoStr (ipUint : UInt32) : ipIntoUint (ipUintIntoStr ipUint) = ipUint := by
  obtain ⟨s₃, h₃, e₃⟩ := octetStrs_succ_parses 3 ipUint
  obtain ⟨s₂, h₂, e₂⟩ := octetStrs_succ_parses 2 (ipUint / 256)
  obtain ⟨s₁, h₁, e₁⟩ := octetStrs_succ_parses 1 (ipUint / 256 / 256)
  obtain ⟨s₀, h₀, e₀⟩ := octetStrs_succ_parses 0 (ipUint / 256 / 256 / 256)
  have hs : octetStrs 4 ipUint = [s₀, s₁, s₂, s₃] := by rw [e₃, e₂, e₁, e₀]; rfl
  have hdot (sum part : UInt32) : ipIntoUintStep (sum, part) 46 = ((sum + part) * 256, 0) := rfl
  have hj : [46].intercalate [s₀, s₁, s₂, s₃] = s₀ ++ [46] ++ s₁ ++ [46] ++ s₂ ++ [46] ++ s₃ := by
    simp [List.intercalate]
  rw [ipUintIntoStr, hs, hj, ipIntoUint]
  simp only [List.foldl_append, List.foldl_cons, List.foldl_nil, h₀ _, h₁ _, h₂ _, h₃ _, hdot]
  have hlt := ipUint.toNat_lt
  apply UInt32.toNat_inj.mp
  simp only [UInt32.toNat_add, UInt32.toNat_mul, UInt32.toNat_mod, UInt32.toNat_div,
    UInt32.reduceToNat, Nat.reducePow]
  omega

end Overlay
