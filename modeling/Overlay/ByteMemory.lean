import Mathlib.Data.List.GetD
import Mathlib.Data.UInt

/-! Byte buffers as a little-endian host sees them: loads and stores of 16-bit
and 32-bit integers with their bounds checks, and the byte swap between host and
network order. -/

namespace ByteMemory

abbrev Bytes := List UInt8

def join16 (b₀ b₁ : UInt8) : UInt16 := UInt16.ofNat (b₀.toNat + 256 * b₁.toNat)

def join32 (b₀ b₁ b₂ b₃ : UInt8) : UInt32 :=
  UInt32.ofNat (b₀.toNat + 256 * b₁.toNat + 65536 * b₂.toNat + 16777216 * b₃.toNat)

def bytes16 (v : UInt16) : Bytes := [UInt8.ofNat v.toNat, UInt8.ofNat (v.toNat / 256)]

def bytes32 (v : UInt32) : Bytes :=
  [UInt8.ofNat v.toNat, UInt8.ofNat (v.toNat / 256), UInt8.ofNat (v.toNat / 65536),
    UInt8.ofNat (v.toNat / 16777216)]

/-- `htons` and `ntohs` on a little-endian host. -/
def swap16 (v : UInt16) : UInt16 := join16 (UInt8.ofNat (v.toNat / 256)) (UInt8.ofNat v.toNat)

/-- `htonl` and `ntohl` on a little-endian host. -/
def swap32 (v : UInt32) : UInt32 :=
  join32 (UInt8.ofNat (v.toNat / 16777216)) (UInt8.ofNat (v.toNat / 65536))
    (UInt8.ofNat (v.toNat / 256)) (UInt8.ofNat v.toNat)

theorem toNat_join16 (b₀ b₁ : UInt8) : (join16 b₀ b₁).toNat = b₀.toNat + 256 * b₁.toNat := by
  have h₀ := b₀.toNat_lt
  have h₁ := b₁.toNat_lt
  simp only [join16, UInt16.toNat_ofNat']
  omega

theorem toNat_join32 (b₀ b₁ b₂ b₃ : UInt8) : (join32 b₀ b₁ b₂ b₃).toNat =
    b₀.toNat + 256 * b₁.toNat + 65536 * b₂.toNat + 16777216 * b₃.toNat := by
  have h₀ := b₀.toNat_lt
  have h₁ := b₁.toNat_lt
  have h₂ := b₂.toNat_lt
  have h₃ := b₃.toNat_lt
  simp only [join32, UInt32.toNat_ofNat']
  omega

@[simp] theorem join16_bytes (v : UInt16) :
    join16 (UInt8.ofNat v.toNat) (UInt8.ofNat (v.toNat / 256)) = v := by
  have hv := v.toNat_lt
  apply UInt16.toNat_inj.mp
  simp only [toNat_join16, UInt8.toNat_ofNat']
  omega

@[simp] theorem join32_bytes (v : UInt32) :
    join32 (UInt8.ofNat v.toNat) (UInt8.ofNat (v.toNat / 256)) (UInt8.ofNat (v.toNat / 65536))
      (UInt8.ofNat (v.toNat / 16777216)) = v := by
  have hv := v.toNat_lt
  apply UInt32.toNat_inj.mp
  simp only [toNat_join32, UInt8.toNat_ofNat']
  omega

@[simp] theorem bytes16_join16 (b₀ b₁ : UInt8) : bytes16 (join16 b₀ b₁) = [b₀, b₁] := by
  have h₀ := b₀.toNat_lt
  have h₁ := b₁.toNat_lt
  simp only [bytes16, toNat_join16, List.cons.injEq, and_true]
  constructor
  · apply UInt8.toNat_inj.mp
    rw [UInt8.toNat_ofNat']
    omega
  · apply UInt8.toNat_inj.mp
    rw [UInt8.toNat_ofNat']
    omega

@[simp] theorem bytes32_join32 (b₀ b₁ b₂ b₃ : UInt8) : bytes32 (join32 b₀ b₁ b₂ b₃) = [b₀, b₁, b₂, b₃] := by
  have h₀ := b₀.toNat_lt
  have h₁ := b₁.toNat_lt
  have h₂ := b₂.toNat_lt
  have h₃ := b₃.toNat_lt
  simp only [bytes32, toNat_join32, List.cons.injEq, and_true]
  refine ⟨?_, ?_, ?_, ?_⟩
  all_goals
    apply UInt8.toNat_inj.mp
    rw [UInt8.toNat_ofNat']
    omega

@[simp] theorem swap16_join16 (b₀ b₁ : UInt8) : swap16 (join16 b₀ b₁) = join16 b₁ b₀ := by
  have h₀ := b₀.toNat_lt
  have h₁ := b₁.toNat_lt
  apply UInt16.toNat_inj.mp
  simp only [swap16, toNat_join16, UInt8.toNat_ofNat']
  omega

theorem toNat_swap16_eq (v : UInt16) : (swap16 v).toNat = 256 * (v.toNat % 256) + v.toNat / 256 := by
  have hv := v.toNat_lt
  rw [swap16, toNat_join16, UInt8.toNat_ofNat', UInt8.toNat_ofNat']
  omega

@[simp] theorem swap32_join32 (b₀ b₁ b₂ b₃ : UInt8) :
    swap32 (join32 b₀ b₁ b₂ b₃) = join32 b₃ b₂ b₁ b₀ := by
  have h₀ := b₀.toNat_lt
  have h₁ := b₁.toNat_lt
  have h₂ := b₂.toNat_lt
  have h₃ := b₃.toNat_lt
  apply UInt32.toNat_inj.mp
  simp only [swap32, toNat_join32, UInt8.toNat_ofNat']
  omega

@[simp] theorem swap16_swap16 (v : UInt16) : swap16 (swap16 v) = v := by
  rw [swap16.eq_def v, swap16_join16, join16_bytes]

@[simp] theorem swap32_swap32 (v : UInt32) : swap32 (swap32 v) = v := by
  rw [swap32.eq_def v, swap32_join32, join32_bytes]

@[simp] theorem length_bytes16 (v : UInt16) : (bytes16 v).length = 2 := rfl

@[simp] theorem length_bytes32 (v : UInt32) : (bytes32 v).length = 4 := rfl

/-! Reads without a bounds check; a missing byte reads as zero. -/

def word8 (b : Bytes) (i : Nat) : UInt8 := b.getD i 0

def word16 (b : Bytes) (i : Nat) : UInt16 := join16 (word8 b i) (word8 b (i + 1))

def word32 (b : Bytes) (i : Nat) : UInt32 :=
  join32 (word8 b i) (word8 b (i + 1)) (word8 b (i + 2)) (word8 b (i + 3))

/-! Loads and stores; `none` is an access outside the buffer. -/

def load16 (b : Bytes) (i : Nat) : Option UInt16 :=
  if i + 2 ≤ b.length then some (word16 b i) else none

def load32 (b : Bytes) (i : Nat) : Option UInt32 :=
  if i + 4 ≤ b.length then some (word32 b i) else none

def patch (b : Bytes) (i : Nat) (v : Bytes) : Bytes := b.take i ++ v ++ b.drop (i + v.length)

def store (b : Bytes) (i : Nat) (v : Bytes) : Option Bytes :=
  if i + v.length ≤ b.length then some (patch b i v) else none

variable {b v : Bytes} {i k : Nat}

theorem load16_eq (h : i + 2 ≤ b.length) : load16 b i = some (word16 b i) := if_pos h

theorem load32_eq (h : i + 4 ≤ b.length) : load32 b i = some (word32 b i) := if_pos h

theorem store_eq (h : i + v.length ≤ b.length) : store b i v = some (patch b i v) := if_pos h

@[simp] theorem length_patch (h : i + v.length ≤ b.length) : (patch b i v).length = b.length := by
  simp only [patch, List.length_append, List.length_take, List.length_drop]
  omega

theorem word8_patch (h : i + v.length ≤ b.length) :
    word8 (patch b i v) k = if i ≤ k ∧ k < i + v.length then word8 v (k - i) else word8 b k := by
  have ht : (b.take i).length = i := by simp only [List.length_take]; omega
  simp only [word8, patch]
  by_cases hi : k < i
  · rw [List.getD_append _ _ _ _ (by simp only [List.length_append]; omega),
      List.getD_append _ _ _ _ (by omega), if_neg (by omega)]
    simp only [List.getD_eq_getElem?_getD, List.getElem?_take_of_lt hi]
  · by_cases hk : k < i + v.length
    · rw [List.getD_append _ _ _ _ (by simp only [List.length_append]; omega),
        List.getD_append_right _ _ _ _ (by omega), if_pos (by omega), ht]
    · rw [List.getD_append_right _ _ _ _ (by simp only [List.length_append]; omega),
        if_neg (by omega)]
      simp only [List.getD_eq_getElem?_getD, List.getElem?_drop, List.length_append, ht]
      congr 2
      omega

theorem word8_patch_of_disjoint (h : i + v.length ≤ b.length) (hk : k < i ∨ i + v.length ≤ k) :
    word8 (patch b i v) k = word8 b k := by
  rw [word8_patch h, if_neg (by omega)]

theorem word16_patch_of_disjoint (h : i + v.length ≤ b.length)
    (hk : k + 2 ≤ i ∨ i + v.length ≤ k) : word16 (patch b i v) k = word16 b k := by
  simp only [word16]
  rw [word8_patch_of_disjoint h (by omega), word8_patch_of_disjoint h (by omega)]

theorem word32_patch_of_disjoint (h : i + v.length ≤ b.length)
    (hk : k + 4 ≤ i ∨ i + v.length ≤ k) : word32 (patch b i v) k = word32 b k := by
  simp only [word32]
  rw [word8_patch_of_disjoint h (by omega), word8_patch_of_disjoint h (by omega),
    word8_patch_of_disjoint h (by omega), word8_patch_of_disjoint h (by omega)]

theorem word8_patch_inside (h : i + v.length ≤ b.length) (hk : k < v.length) :
    word8 (patch b i v) (i + k) = word8 v k := by
  rw [word8_patch h, if_pos (by omega), Nat.add_sub_cancel_left]

theorem word16_patch {x : UInt16} (h : i + 2 ≤ b.length) :
    word16 (patch b i (bytes16 x)) i = x := by
  have h₀ := word8_patch_inside (v := bytes16 x) (k := 0) h (by simp)
  have h₁ := word8_patch_inside (v := bytes16 x) (k := 1) h (by simp)
  rw [Nat.add_zero] at h₀
  rw [word16, h₀, h₁]
  exact join16_bytes x

theorem word32_patch {x : UInt32} (h : i + 4 ≤ b.length) :
    word32 (patch b i (bytes32 x)) i = x := by
  have h₀ := word8_patch_inside (v := bytes32 x) (k := 0) h (by simp)
  have h₁ := word8_patch_inside (v := bytes32 x) (k := 1) h (by simp)
  have h₂ := word8_patch_inside (v := bytes32 x) (k := 2) h (by simp)
  have h₃ := word8_patch_inside (v := bytes32 x) (k := 3) h (by simp)
  rw [Nat.add_zero] at h₀
  rw [word32, h₀, h₁, h₂, h₃]
  exact join32_bytes x

theorem drop_patch (h : i + v.length ≤ b.length) (hk : i + v.length ≤ k) :
    (patch b i v).drop k = b.drop k := by
  have hl : (b.take i ++ v).length = i + v.length := by
    simp only [List.length_append, List.length_take]
    omega
  rw [patch, List.drop_append, List.drop_eq_nil_of_le (by omega), List.nil_append, hl,
    List.drop_drop]
  congr 1
  omega

theorem take_patch_end (h : i + v.length ≤ b.length) :
    (patch b i v).take (i + v.length) = b.take i ++ v := by
  have hl : (b.take i ++ v).length = i + v.length := by
    simp only [List.length_append, List.length_take]
    omega
  rw [patch, ← hl, List.take_left]

theorem word8_drop (j : Nat) : word8 (b.drop j) k = word8 b (j + k) := by
  simp only [word8, List.getD_eq_getElem?_getD, List.getElem?_drop]

theorem word8_take {j : Nat} (h : k < j) : word8 (b.take j) k = word8 b k := by
  simp only [word8, List.getD_eq_getElem?_getD, List.getElem?_take_of_lt h]

theorem word16_take {j : Nat} (h : k + 2 ≤ j) : word16 (b.take j) k = word16 b k := by
  rw [word16, word8_take (by omega), word8_take (by omega), word16]

theorem word32_take {j : Nat} (h : k + 4 ≤ j) : word32 (b.take j) k = word32 b k := by
  rw [word32, word8_take (by omega), word8_take (by omega), word8_take (by omega), word8_take (by omega), word32]

theorem word16_drop (j : Nat) : word16 (b.drop j) k = word16 b (j + k) := by
  simp only [word16, word8_drop, Nat.add_assoc]

theorem word32_drop (j : Nat) : word32 (b.drop j) k = word32 b (j + k) := by
  simp only [word32, word8_drop, Nat.add_assoc]

theorem word8_append_left {front : Bytes} (back : Bytes) (h : k < front.length) :
    word8 (front ++ back) k = word8 front k := List.getD_append _ _ _ _ h

theorem word16_append_left {front : Bytes} (back : Bytes) (h : k + 2 ≤ front.length) :
    word16 (front ++ back) k = word16 front k := by
  rw [word16, word16, word8_append_left back (by omega), word8_append_left back (by omega)]

theorem word32_append_left {front : Bytes} (back : Bytes) (h : k + 4 ≤ front.length) :
    word32 (front ++ back) k = word32 front k := by
  rw [word32, word32, word8_append_left back (by omega), word8_append_left back (by omega),
    word8_append_left back (by omega), word8_append_left back (by omega)]

theorem word16_append_right (front back : Bytes) (k : Nat) :
    word16 (front ++ back) (front.length + k) = word16 back k := by
  rw [← word16_drop, List.drop_left]

theorem word32_append_right (front back : Bytes) (k : Nat) :
    word32 (front ++ back) (front.length + k) = word32 back k := by
  rw [← word32_drop, List.drop_left]

end ByteMemory
