import Overlay.Checksums

/-! Sums of 16-bit words in network order, as the protocols define their checksums. The
code adds the words up as its host reads them, which makes no difference to a verifier. -/

namespace Overlay

open ByteMemory OnesComplement

def networkSum (b : Bytes) (offset : Nat) : Nat → Nat
  | 0 => 0
  | n + 1 => networkSum b offset n + (swap16 (word16 b (offset + 2 * n))).toNat

theorem networkSum_add (b : Bytes) (offset n k : Nat) :
    networkSum b offset (n + k) = networkSum b offset n + networkSum b (offset + 2 * n) k := by
  induction k with
  | zero => rfl
  | succ k ih =>
    have hplace : offset + 2 * (n + k) = offset + 2 * n + 2 * k := by omega
    rw [← Nat.add_assoc, networkSum, networkSum, ih, hplace, Nat.add_assoc]

theorem networkSum_congr {b b' : Bytes} {offset n : Nat}
    (h : ∀ k < n, word16 b (offset + 2 * k) = word16 b' (offset + 2 * k)) :
    networkSum b offset n = networkSum b' offset n := by
  induction n with
  | zero => rfl
  | succ n ih => rw [networkSum, networkSum, ih fun k hk => h k (Nat.lt_succ_of_lt hk), h n (Nat.lt_succ_self n)]

theorem toNat_swap16_word16 (b : Bytes) (i : Nat) :
    (swap16 (word16 b i)).toNat = (word8 b (i + 1)).toNat + 256 * (word8 b i).toNat := by
  rw [word16, swap16_join16, toNat_join16]

theorem networkSum_mod (b : Bytes) (offset n : Nat) :
    (networkSum b offset n = 0 ↔ headerSum b offset n = 0) ∧
      networkSum b offset n % 65535 = 256 * headerSum b offset n % 65535 := by
  induction n with
  | zero => exact ⟨Iff.rfl, rfl⟩
  | succ n ih =>
    have hword : (word16 b (offset + 2 * n)).toNat =
        (word8 b (offset + 2 * n)).toNat + 256 * (word8 b (offset + 2 * n + 1)).toNat := toNat_join16 _ _
    rw [networkSum, headerSum, toNat_swap16_word16, hword]
    omega

theorem checkSumIp_eq_zero_iff (b : Bytes) (offset : Nat) {headerLength : Nat} (hl : headerLength ≤ 15) :
    checkSumIp b offset headerLength = 0 ↔ foldFully (networkSum b offset (2 * headerLength)) = 65535 := by
  obtain ⟨hz, hm⟩ := networkSum_mod b offset (2 * headerLength)
  have hle := headerSum_le b offset (headerLength * 2)
  rw [foldFully_congr hz hm, ← UInt16.toNat_inj, toNat_checkSumIp b offset hl, Nat.mul_comm 2]
  exact checksum_eq_zero_iff_foldFully (by omega)

/-- What `is_valid_packet` asks of a frame next to its checksum. The bound on the header is
no test of the code: a longer one makes the checksum read behind the frame. -/
structure PassesOtherTests (frame : Bytes) : Prop where
  etherType_eq : etherType frame = 0x0800
  length_eq : frame.length = ipLen frame + 14
  ipV_eq : ipV frame = 4
  header_le : 14 + 4 * ipHl frame ≤ frame.length
  transport : (ipP frame = 17 ∧ 42 ≤ frame.length ∧ udpLength frame + 4 * ipHl frame = ipLen frame) ∨
    (ipP frame = 1 ∧ 46 ≤ frame.length ∧ word8 frame 34 = 0 ∧ word8 frame 35 = 0 ∧
      swap32 (word32 frame 42) = 0x12345678)

theorem isValidPacket_iff_otherTests (frame : Bytes) :
    isValidPacket frame = some true ↔ PassesOtherTests frame ∧ checkSumIp frame 14 (ipHl frame) = 0 := by
  rw [isValidPacket_iff]
  constructor
  · rintro (hu | hi)
    · exact ⟨⟨hu.etherType_eq, hu.length_eq, hu.ipV_eq, hu.header_le,
        Or.inl ⟨hu.ipP_eq, hu.length_le, hu.udpLength_eq⟩⟩, hu.checkSum_eq⟩
    · exact ⟨⟨hi.etherType_eq, hi.length_eq, hi.ipV_eq, hi.header_le,
        Or.inr ⟨hi.ipP_eq, hi.length_le, hi.type_eq, hi.code_eq, hi.payload_eq⟩⟩, hi.checkSum_eq⟩
  · rintro ⟨h, hsum⟩
    have hip : ValidIp frame := ⟨h.etherType_eq, h.length_eq, h.ipV_eq, h.header_le, hsum⟩
    rcases h.transport with ⟨hp, hl, hu⟩ | ⟨hp, hl, ht, hc, hd⟩
    · exact Or.inl ⟨hip, hp, hl, hu⟩
    · exact Or.inr ⟨hip, hp, hl, ht, hc, hd⟩

/-- One addition of the carry verifies a header of up to fifteen words, and the validator
accepts the frames whose IP checksum is correct among those that pass its other tests. -/
theorem header_checksum_exact :
    (∀ (b : Bytes) (offset headerLength : Nat), headerLength ≤ 15 →
      (checkSumIp b offset headerLength = 0 ↔ foldFully (networkSum b offset (2 * headerLength)) = 0xFFFF)) ∧
    ∀ frame : Bytes, isValidPacket frame = some true ↔
      PassesOtherTests frame ∧ foldFully (networkSum frame 14 (2 * ipHl frame)) = 0xFFFF := by
  refine ⟨fun b offset headerLength hl => checkSumIp_eq_zero_iff b offset hl, fun frame => ?_⟩
  have hl : ipHl frame ≤ 15 := Nat.le_of_lt_succ (Nat.mod_lt _ (by decide))
  rw [isValidPacket_iff_otherTests, checkSumIp_eq_zero_iff frame 14 hl]

end Overlay
