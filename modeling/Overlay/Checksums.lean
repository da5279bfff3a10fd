import Overlay.Headers

/-! The checksum of a 20-byte IP header as a sum of words: whoever fills it in, it
verifies unless its words need a second carry. -/

namespace Overlay

open ByteMemory OnesComplement

def headerSum (b : Bytes) (offset : Nat) : Nat → Nat
  | 0 => 0
  | n + 1 => headerSum b offset n + (word16 b (offset + 2 * n)).toNat

theorem headerSum_le (b : Bytes) (offset n : Nat) : headerSum b offset n ≤ 65535 * n := by
  induction n with
  | zero => exact Nat.le_refl 0
  | succ n ih =>
    have hw := (word16 b (offset + 2 * n)).toNat_lt
    rw [headerSum]
    omega

theorem toNat_sumWords (b : Bytes) (offset : Nat) {n : Nat} (hn : n ≤ 65536) :
    (sumWords b offset n).toNat = headerSum b offset n := by
  induction n with
  | zero => rfl
  | succ n ih =>
    have hle := headerSum_le b offset n
    have hw := (word16 b (offset + 2 * n)).toNat_lt
    rw [sumWords, UInt32.toNat_add, ih (by omega), UInt16.toNat_toUInt32, headerSum]
    omega

theorem toNat_checkSumIp (b : Bytes) (offset : Nat) {headerLength : Nat} (hl : headerLength ≤ 15) :
    (checkSumIp b offset headerLength).toNat = checksum (headerSum b offset (headerLength * 2)) := by
  have hle := headerSum_le b offset (headerLength * 2)
  have hs := toNat_sumWords b offset (show headerLength * 2 ≤ 65536 by omega)
  have hlow : (sumWords b offset (headerLength * 2) % 65536).toUInt16.toNat =
      headerSum b offset (headerLength * 2) % 65536 := by
    rw [UInt32.toNat_toUInt16, UInt32.toNat_mod, hs]
    exact Nat.mod_mod _ _
  have hhigh : (sumWords b offset (headerLength * 2) / 65536).toUInt16.toNat =
      headerSum b offset (headerLength * 2) / 65536 := by
    rw [UInt32.toNat_toUInt16, UInt32.toNat_div, hs]
    show headerSum b offset (headerLength * 2) / 65536 % 2 ^ 16 = _
    omega
  simp only [checkSumIp, hlow, hhigh, UInt16.toNat_ofNat']
  rfl

def frontWords (frame : Bytes) : Nat :=
  (word16 frame 14).toNat + (word16 frame 16).toNat + (word16 frame 18).toNat + (word16 frame 20).toNat +
    (word16 frame 22).toNat

def addressWords (address : UInt32) : Nat := address.toNat % 65536 + address.toNat / 65536

theorem addressWords_word32 (b : Bytes) (i : Nat) :
    addressWords (word32 b i) = (word16 b i).toNat + (word16 b (i + 2)).toNat := by
  have h₀ := (word8 b i).toNat_lt
  have h₁ := (word8 b (i + 1)).toNat_lt
  have h₂ := (word8 b (i + 2)).toNat_lt
  have h₃ := (word8 b (i + 3)).toNat_lt
  rw [addressWords, word32, word16, word16, toNat_join32, toNat_join16, toNat_join16, Nat.add_assoc i 2 1]
  omega

/-- Whether the words of a header other than its checksum add up with one carry. -/
def Completes (frame : Bytes) : Prop :=
  SingleCarry (frontWords frame + addressWords (word32 frame 26) + addressWords (word32 frame 30))

theorem headerSum_frame (frame : Bytes) : headerSum frame 14 10 = frontWords frame +
    addressWords (word32 frame 26) + addressWords (word32 frame 30) + (word16 frame 24).toNat := by
  rw [addressWords_word32, addressWords_word32, frontWords]
  simp only [headerSum, Nat.reduceMul, Nat.reduceAdd]
  omega

/-- A header whose checksum is that of its other words verifies if they completed. -/
theorem checkSumIp_completed {frame : Bytes} (h : (word16 frame 24).toNat = checksum (frontWords frame +
    addressWords (word32 frame 26) + addressWords (word32 frame 30))) :
    checkSumIp frame 14 5 = 0 ↔ Completes frame := by
  have hb : frontWords frame + addressWords (word32 frame 26) + addressWords (word32 frame 30) <
      65535 * 65536 := by
    have hle := headerSum_le frame 14 10
    rw [headerSum_frame] at hle
    omega
  rw [← UInt16.toNat_inj, toNat_checkSumIp frame 14 (by decide)]
  show checksum (headerSum frame 14 10) = 0 ↔ _
  rw [headerSum_frame, h]
  exact checksum_completed hb

theorem sumWords_append_left {front : Bytes} (back : Bytes) {offset n : Nat} (h : offset + 2 * n ≤ front.length) :
    sumWords (front ++ back) offset n = sumWords front offset n := by
  induction n with
  | zero => rfl
  | succ n ih => rw [sumWords, sumWords, ih (by omega), word16_append_left back (by omega)]

theorem checkSumIp_append_left {front : Bytes} (back : Bytes) {offset headerLength : Nat}
    (h : offset + 4 * headerLength ≤ front.length) :
    checkSumIp (front ++ back) offset headerLength = checkSumIp front offset headerLength := by
  rw [checkSumIp, sumWords_append_left back (by omega), checkSumIp]

theorem validIcmp_reply (front : Bytes) (number : UInt16) (hlen : front.length = 34)
    (htype : etherType front = 0x0800) (hipLen : ipLen front = 32) (hv : ipV front = 4) (hhl : ipHl front = 5)
    (hsum : checkSumIp front 14 5 = 0) (hp : ipP front = 1) :
    ValidIcmp (front ++ ({ setIcmpHeaderInPingPacket number with type := 0 } : Icmp).bytes) ∧
      ipSrc (front ++ ({ setIcmpHeaderInPingPacket number with type := 0 } : Icmp).bytes) = ipSrc front ∧
      sequenceId (front ++ ({ setIcmpHeaderInPingPacket number with type := 0 } : Icmp).bytes) = number := by
  set icmp : Icmp := { setIcmpHeaderInPingPacket number with type := 0 }
  have hdrop : (front ++ icmp.bytes).drop 34 = icmp.bytes := by rw [← hlen, List.drop_left]
  have hhl' : ipHl (front ++ icmp.bytes) = 5 := by rw [ipHl, word8_append_left _ (by omega), ← ipHl, hhl]
  refine ⟨⟨⟨?_, ?_, ?_, ?_, ?_⟩, ?_, ?_, ?_, ?_, ?_⟩, ?_, ?_⟩
  · rw [etherType, word16_append_left _ (by omega), ← etherType, htype]
  · rw [ipLen, word16_append_left _ (by omega), ← ipLen, hipLen, List.length_append, hlen]
    rfl
  · rw [ipV, word8_append_left _ (by omega), ← ipV, hv]
  · rw [hhl', List.length_append, hlen]
    omega
  · rw [hhl', checkSumIp_append_left _ (by omega), hsum]
  · rw [ipP, word8_append_left _ (by omega), ← ipP, hp]
  · rw [List.length_append, hlen]
    exact Nat.le_refl 46
  · rw [← word8_drop (k := 0), hdrop]
    rfl
  · rw [← word8_drop (k := 1), hdrop]
    rfl
  · have hpayload : word32 icmp.bytes 8 = swap32 0x12345678 := join32_bytes _
    rw [← word32_drop (k := 8), hdrop, hpayload, swap32_swap32]
  · rw [ipSrc, word32_append_left _ (by omega), ← ipSrc]
  · have hnumber : word16 icmp.bytes 4 = swap16 number := join16_bytes _
    rw [sequenceId, ← word16_drop (k := 4), hdrop, hnumber, swap16_swap16]

end Overlay
