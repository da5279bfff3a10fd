import Overlay.NetworkSums

/-! The checksum of an ICMP header. It adds the carry twice, so that no carry of its six
words is lost; the checksum of an IP header adds it once. -/

namespace Overlay

open ByteMemory OnesComplement

theorem toNat_addCarry (sum : UInt32) : ((sum >>> 16) + (sum &&& 0xFFFF)).toNat = fold sum.toNat := by
  have hs := sum.toNat_lt
  have hlow : sum.toNat &&& 65535 = sum.toNat % 65536 := Nat.and_two_pow_sub_one_eq_mod _ 16
  simp only [UInt32.toNat_add, UInt32.toNat_shiftRight, UInt32.toNat_and, UInt32.reduceToNat, hlow,
    Nat.shiftRight_eq_div_pow, Nat.reduceMod, Nat.reducePow, fold]
  omega

theorem toNat_checkSumIcmp (b : Bytes) : (checkSumIcmp b).toNat = completeChecksum (headerSum b 0 6) := by
  have hle := headerSum_le b 0 6
  have hsum := toNat_sumWords b 0 (show 6 ≤ 65536 by decide)
  have hfirst := toNat_addCarry (sumWords b 0 6)
  rw [hsum] at hfirst
  set first := (sumWords b 0 6 >>> 16) + (sumWords b 0 6 &&& 0xFFFF)
  have hsecond : (first + (first >>> 16)).toNat % 65536 = foldFully (headerSum b 0 6) := by
    rw [foldFully_eq_fold_fold (by omega)]
    simp only [UInt32.toNat_add, UInt32.toNat_shiftRight, UInt32.reduceToNat, Nat.shiftRight_eq_div_pow,
      Nat.reduceMod, Nat.reducePow, hfirst, fold]
    omega
  have hbound := (first + (first >>> 16)).toNat_lt
  show (~~~(first + (first >>> 16))).toUInt16.toNat = _
  simp only [UInt32.toNat_toUInt16, UInt32.toNat_not, completeChecksum, ← hsecond, UInt32.size, Nat.reducePow]
  omega

/-- Read in network order, the checksum is that of the words in network order. -/
theorem toNat_swap16_checkSumIcmp (b : Bytes) :
    (swap16 (checkSumIcmp b)).toNat = completeChecksum (networkSum b 0 6) := by
  have hc := toNat_checkSumIcmp b
  have hl := foldFully_lt (headerSum b 0 6)
  have hm := foldFully_mod (headerSum b 0 6)
  have hz := foldFully_eq_zero_iff (headerSum b 0 6)
  obtain ⟨hzero, hmod⟩ := networkSum_mod b 0 6
  rw [completeChecksum] at hc
  have hs : foldFully (networkSum b 0 6) = 65535 - (swap16 (checkSumIcmp b)).toNat := by
    apply foldFully_eq_of
    · omega
    · rw [toNat_swap16_eq]
      omega
    · rw [toNat_swap16_eq]
      omega
  have hbound := (swap16 (checkSumIcmp b)).toNat_lt
  rw [completeChecksum, hs]
  omega

/-- The six words of a header with its checksum in the second one. -/
theorem networkSum_icmp (icmp : Icmp) : networkSum icmp.bytes 0 6 =
    networkSum ({ icmp with checksum := 0 } : Icmp).bytes 0 6 + (swap16 icmp.checksum).toNat := by
  have hfilled : word16 icmp.bytes 2 = icmp.checksum := join16_bytes _
  have hempty : word16 ({ icmp with checksum := 0 } : Icmp).bytes 2 = 0 := join16_bytes 0
  have hsame (i : Nat) (hi : i = 0 ∨ 4 ≤ i) :
      word16 ({ icmp with checksum := 0 } : Icmp).bytes i = word16 icmp.bytes i := by
    rcases hi with rfl | hi
    · rfl
    · obtain ⟨k, rfl⟩ := Nat.exists_eq_add_of_le hi
      rw [← word16_drop, ← word16_drop]
      rfl
  have hz : (swap16 0).toNat = 0 := rfl
  simp only [networkSum, Nat.zero_add, Nat.mul_zero, Nat.mul_one, Nat.reduceMul, hfilled, hempty, hz,
    hsame 0 (by decide), hsame 4 (by decide), hsame 6 (by decide), hsame 8 (by decide), hsame 10 (by decide)]
  omega

/-- `check_sum_icmp` loses no carry, in either byte order, so every echo request verifies. -/
theorem ping_checksum_complete :
    (∀ b : Bytes, (checkSumIcmp b).toNat = completeChecksum (headerSum b 0 6) ∧
      (swap16 (checkSumIcmp b)).toNat = completeChecksum (networkSum b 0 6)) ∧
    ∀ sequenceId : UInt16,
      foldFully (networkSum (setIcmpHeaderInPingPacket sequenceId).bytes 0 6) = 0xFFFF := by
  refine ⟨fun b => ⟨toNat_checkSumIcmp b, toNat_swap16_checkSumIcmp b⟩, fun sequenceId => ?_⟩
  rw [networkSum_icmp]
  show foldFully (networkSum _ 0 6 + (swap16 (checkSumIcmp _)).toNat) = 0xFFFF
  rw [toNat_swap16_checkSumIcmp]
  exact foldFully_completed _

end Overlay
