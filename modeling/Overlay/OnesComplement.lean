import Mathlib.Data.Nat.Bitwise
import Mathlib.Tactic.Ring

/-! The 16-bit one's-complement checksum with a single end-around carry, over the
plain sum of the words. A second carry is what such a checksum gets wrong. -/

namespace OnesComplement

def fold (sum : Nat) : Nat := sum / 65536 + sum % 65536

def checksum (sum : Nat) : Nat := (fold sum ^^^ 65535) % 65536

/-- Adding the carry does not carry again. -/
def SingleCarry (sum : Nat) : Prop := fold sum < 65536

instance (sum : Nat) : Decidable (SingleCarry sum) := inferInstanceAs (Decidable (_ < _))

theorem xor_mod (n : Nat) : (n ^^^ 65535) % 65536 = 65535 - n % 65536 := by
  have hx : (n ^^^ 65535) % 2 ^ 16 = n % 2 ^ 16 ^^^ 65535 % 2 ^ 16 := Nat.xor_mod_two_pow
  have hn : n % 2 ^ 16 < 2 ^ 16 := Nat.mod_lt _ (by norm_num)
  have hs : n % 2 ^ 16 ^^^ (2 ^ 16 - 1) = 2 ^ 16 - 1 - n % 2 ^ 16 := by
    apply Nat.eq_of_testBit_eq
    intro i
    rw [Nat.testBit_xor, Nat.testBit_two_pow_sub_one, Nat.sub_sub, Nat.add_comm 1,
      Nat.testBit_two_pow_sub_succ hn]
    by_cases hi : i < 16
    · simp [hi]
    · have hz : (n % 2 ^ 16).testBit i = false := by
        apply Nat.testBit_lt_two_pow
        exact hn.trans_le (Nat.pow_le_pow_right (by norm_num) (by omega))
      rw [hz]
      simp [hi]
  exact hx.trans hs

theorem checksum_eq (sum : Nat) : checksum sum = 65535 - fold sum % 65536 := xor_mod _

theorem checksum_lt (sum : Nat) : checksum sum < 65536 := Nat.mod_lt _ (by norm_num)

theorem checksum_eq_zero_iff {sum : Nat} (h : sum < 65536 * 65536) :
    checksum sum = 0 ↔ fold sum = 65535 := by
  rw [checksum_eq]
  simp only [fold]
  omega

/-- A sum completed by its own checksum verifies exactly when the fold needed no
second carry. -/
theorem checksum_completed {sum : Nat} (h : sum < 65535 * 65536) :
    checksum (sum + checksum sum) = 0 ↔ SingleCarry sum := by
  have hc := checksum_lt sum
  rw [checksum_eq_zero_iff (by omega)]
  obtain ⟨q, r, hr, rfl⟩ : ∃ q r, r < 65536 ∧ sum = 65536 * q + r :=
    ⟨sum / 65536, sum % 65536, Nat.mod_lt _ (by norm_num), by omega⟩
  have hf : fold (65536 * q + r) = q + r := by simp only [fold]; omega
  rw [checksum_eq, SingleCarry, hf]
  by_cases ht : q + r < 65536
  · -- the completed sum is `65535 * (q + 1)`
    have hs : 65536 * q + r + (65535 - (q + r) % 65536) = 65536 * q + (65535 - q) := by omega
    rw [hs, fold]
    omega
  · -- a second carry leaves the completed sum one word short of a multiple of 65535
    have hs : 65536 * q + r + (65535 - (q + r) % 65536) = 65536 * (q + 1) + (65535 - q) := by omega
    rw [hs, fold]
    omega

/-! The sum as the protocol defines it: the carry is added until there is none. -/

theorem fold_lt {sum : Nat} (h : ¬ sum < 65536) : fold sum < sum := by
  rw [fold]
  omega

def foldFully (sum : Nat) : Nat := if sum < 65536 then sum else foldFully (fold sum)
termination_by sum
decreasing_by exact fold_lt ‹_›

theorem fold_mod (sum : Nat) : fold sum % 65535 = sum % 65535 := by
  rw [fold]
  omega

theorem fold_pos {sum : Nat} (h : 0 < sum) : 0 < fold sum := by
  rw [fold]
  omega

theorem foldFully_eq_iff (sum : Nat) : foldFully sum = 65535 ↔ 0 < sum ∧ sum % 65535 = 0 := by
  induction sum using foldFully.induct with
  | case1 sum h =>
    rw [foldFully, if_pos h]
    omega
  | case2 sum h ih =>
    rw [foldFully, if_neg h, ih, fold_mod]
    have hpos : 0 < fold sum := fold_pos (by omega)
    exact and_congr_left fun _ => iff_of_true hpos (by omega)

theorem foldFully_lt (sum : Nat) : foldFully sum < 65536 := by
  induction sum using foldFully.induct with
  | case1 sum h => simp [foldFully, h]
  | case2 sum h ih => simpa [foldFully.eq_def sum, h] using ih

theorem foldFully_mod (sum : Nat) : foldFully sum % 65535 = sum % 65535 := by
  induction sum using foldFully.induct with
  | case1 sum h => simp [foldFully, h]
  | case2 sum h ih => simpa [foldFully.eq_def sum, h, fold_mod] using ih

theorem foldFully_eq_zero_iff (sum : Nat) : foldFully sum = 0 ↔ sum = 0 := by
  induction sum using foldFully.induct with
  | case1 sum h => simp [foldFully, h]
  | case2 sum h ih =>
    have hpos : 0 < fold sum := fold_pos (by omega)
    simp only [foldFully.eq_def sum, h, if_false, ih]
    omega

/-- Two words with one remainder are the two zeros at most, and zero folds only from zero. -/
theorem foldFully_eq_of {sum word : Nat} (hlt : word < 65536) (hmod : word % 65535 = sum % 65535)
    (hzero : word = 0 ↔ sum = 0) : foldFully sum = word := by
  have hl := foldFully_lt sum
  have hm := foldFully_mod sum
  have hz := foldFully_eq_zero_iff sum
  omega

/-- A sum of fewer than 65536 words has absorbed every carry after two additions. -/
theorem foldFully_eq_fold_fold {sum : Nat} (h : sum < 65536 * 65535) : foldFully sum = fold (fold sum) := by
  apply foldFully_eq_of
  · simp only [fold]
    omega
  · simp only [fold_mod]
  · simp only [fold]
    omega

def completeChecksum (sum : Nat) : Nat := 65535 - foldFully sum

theorem foldFully_completed (sum : Nat) : foldFully (sum + completeChecksum sum) = 65535 := by
  have hl := foldFully_lt sum
  have hm := foldFully_mod sum
  have hz := foldFully_eq_zero_iff sum
  rw [foldFully_eq_iff, completeChecksum]
  omega

/-- For a verifier one addition of the carry is enough: a sum that is a multiple of 65535
never carries twice. -/
theorem checksum_eq_zero_iff_foldFully {sum : Nat} (h : sum ≤ 65535 * 65536) :
    checksum sum = 0 ↔ foldFully sum = 65535 := by
  rw [checksum_eq_zero_iff (by omega), foldFully_eq_iff, fold]
  omega

/-- Both byte orders have the same correct sums. -/
theorem foldFully_congr {sum swapped : Nat} (hz : swapped = 0 ↔ sum = 0)
    (hm : swapped % 65535 = 256 * sum % 65535) : foldFully swapped = 65535 ↔ foldFully sum = 65535 := by
  rw [foldFully_eq_iff, foldFully_eq_iff]
  omega

end OnesComplement
