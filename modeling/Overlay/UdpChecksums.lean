import Overlay.NetworkSums
import Overlay.Replies

/-! The UDP checksum of a translated packet. The translation writes an address and a port
that the checksum covers, and computes the checksum of the IP header only. -/

namespace Overlay

open ByteMemory OnesComplement

/-- The words of the segment behind a header without options, padded with a zero byte. -/
def segmentWords (frame : Bytes) : Nat := (frame.length - 34 + 1) / 2

/-- The sum over the pseudo header, then over the UDP header and the payload. -/
def transportSum (frame : Bytes) : Nat :=
  networkSum frame 26 4 + (ipP frame).toNat + udpLength frame + networkSum frame 34 (segmentWords frame)

def UdpSumCorrect (frame : Bytes) : Prop := foldFully (transportSum frame) = 0xFFFF

/-- A receiver does not check a packet without a checksum. -/
def CarriesUdpSum (frame : Bytes) : Prop := word16 frame 40 = 0 ∨ UdpSumCorrect frame

/-- What the sum covers beside the addresses and ports. -/
def uncoveredSum (frame : Bytes) : Nat :=
  (ipP frame).toNat + udpLength frame + networkSum frame 38 (segmentWords frame - 2)

theorem networkSum_address (b : Bytes) (i : Nat) : networkSum b i 2 = addressWords (swap32 (word32 b i)) := by
  have h₀ := (word8 b i).toNat_lt
  have h₁ := (word8 b (i + 1)).toNat_lt
  have h₂ := (word8 b (i + 2)).toNat_lt
  have h₃ := (word8 b (i + 3)).toNat_lt
  simp only [networkSum, toNat_swap16_word16, addressWords, word32, swap32_join32, toNat_join32, Nat.mul_zero,
    Nat.add_zero, Nat.mul_one, Nat.add_assoc, Nat.reduceAdd]
  omega

theorem transportSum_eq {frame : Bytes} (h : 42 ≤ frame.length) : transportSum frame =
    addressWords (ipSrc frame) + (portSrc frame).toNat + (addressWords (ipDst frame) + (portDst frame).toNat) +
      uncoveredSum frame := by
  have haddresses : networkSum frame 26 4 = addressWords (ipSrc frame) + addressWords (ipDst frame) := by
    rw [networkSum_add frame 26 2 2, networkSum_address, networkSum_address, ipSrc, ipDst]
  have hports : networkSum frame 34 2 = (portSrc frame).toNat + (portDst frame).toNat := by
    simp only [networkSum, portSrc, portDst, Nat.mul_zero, Nat.add_zero, Nat.mul_one, Nat.reduceAdd, Nat.zero_add]
  have hwords : segmentWords frame = 2 + (segmentWords frame - 2) := by
    rw [segmentWords]
    omega
  have hsegment : networkSum frame 34 (segmentWords frame) =
      networkSum frame 34 2 + networkSum frame 38 (segmentWords frame - 2) := by
    rw [hwords, networkSum_add, Nat.add_sub_cancel_left]
  rw [transportSum, haddresses, hsegment, hports, uncoveredSum]
  omega

section Rewritten

variable {frame data : Bytes} {shost dhost : Mac} {i j : Nat} {port : UInt16} {address : UInt32}

theorem Rewritten.uncoveredSum_eq (h : Rewritten frame data shost dhost i port j address)
    (hi : i = 34 ∨ i = 36) (hj : j = 26 ∨ j = 30) : uncoveredSum data = uncoveredSum frame := by
  have hw (k : Nat) (hk : 38 ≤ k) : word16 data k = word16 frame k :=
    h.word16_eq (by omega) (by omega) (by omega) (by omega)
  have hp : ipP data = ipP frame := h.word8_eq 23 (by omega) (by omega) (by omega) (by omega)
  have hs : segmentWords data = segmentWords frame := by rw [segmentWords, h.length_eq, segmentWords]
  rw [uncoveredSum, hp, udpLength, hw 38 (by omega), hs, networkSum_congr fun k _ => hw _ (by omega), ← udpLength,
    uncoveredSum]

/-- A correct sum stays correct if and only if what replaces a part of it has the same
remainder. -/
theorem Rewritten.carriesUdpSum_iff (h : Rewritten frame data shost dhost i port j address)
    (hi : i = 34 ∨ i = 36) (hj : j = 26 ∨ j = 30) (hz : word16 frame 40 ≠ 0) (hc : UdpSumCorrect frame)
    {before after : Nat} (rest : Nat) (hr : 0 < rest) (hf : transportSum frame = before + rest)
    (hd : transportSum data = after + rest) : CarriesUdpSum data ↔ before % 65535 = after % 65535 := by
  have hsum : word16 data 40 = word16 frame 40 := h.word16_eq (by omega) (by omega) (by omega) (by omega)
  rw [UdpSumCorrect, foldFully_eq_iff, hf] at hc
  rw [CarriesUdpSum, hsum, or_iff_right hz, UdpSumCorrect, foldFully_eq_iff, hd]
  omega

end Rewritten

theorem uncoveredSum_pos {frame : Bytes} (h : ipP frame = 17) : 0 < uncoveredSum frame := by
  rw [uncoveredSum, h]
  show 0 < 17 + _ + _
  omega

section Translated

variable {m : Machine} {frame : Bytes} {now : Int}

theorem forwarded_carries_iff (m : Machine) (now : Int) (hu : ValidUdp frame) (hz : word16 frame 40 ≠ 0)
    (hc : UdpSumCorrect frame) (hd : portDst frame = 1000 ∨ portDst frame = 2000) :
    ∃ m' data, m.processFrame frame now = some (m', [⟨1, data⟩]) ∧ (CarriesUdpSum data ↔
      (addressWords (ipSrc frame) + (portSrc frame).toNat) % 65535 =
        (addressWords (m.iface 1).ip + m.nextPort.toNat) % 65535) := by
  obtain ⟨m', data, he, hw⟩ := processFrame_request m now hu hd
  have hf := transportSum_eq hu.length_le
  have hdata := transportSum_eq (hw.length_eq ▸ hu.length_le)
  have hpos := uncoveredSum_pos hu.ipP_eq
  have hdst : ipDst data = ipDst frame := congrArg swap32 (hw.word32_eq (by omega) (by omega) (by omega) (by omega))
  have hport : portDst data = portDst frame :=
    congrArg swap16 (hw.word16_eq (by omega) (by omega) (by omega) (by omega))
  rw [ipSrc, hw.address_eq, swap32_swap32, portSrc, hw.port_eq, swap16_swap16, hdst, hport,
    hw.uncoveredSum_eq (Or.inl rfl) (Or.inl rfl)] at hdata
  refine ⟨m', data, he, hw.carriesUdpSum_iff (Or.inl rfl) (Or.inl rfl) hz hc
    (addressWords (ipDst frame) + (portDst frame).toNat + uncoveredSum frame) ?_ ?_ ?_⟩
  · omega
  · omega
  · omega

theorem replied_carries_iff (hu : ValidUdp frame) (hz : word16 frame 40 ≠ 0) (hc : UdpSumCorrect frame)
    {address : UInt32} {mac : Mac} (hle : 8000 ≤ portDst frame) (hlt : (portDst frame).toNat < m.srcPort)
    (hk : m.portToIp (portDst frame) = some address) (hm : m.ipToMac (swap32 address) = some mac) :
    ∃ data, m.processFrame frame now = some (m, [⟨0, data⟩]) ∧ (CarriesUdpSum data ↔
      (addressWords (ipDst frame) + (portDst frame).toNat) % 65535 =
        (addressWords (swap32 address) + (swap16 (m.myPortToSrcPort (portDst frame))).toNat) % 65535) := by
  obtain ⟨data, he, hw⟩ := processFrame_mapped now hu rfl hle hlt hk hm
  have hf := transportSum_eq hu.length_le
  have hdata := transportSum_eq (hw.length_eq ▸ hu.length_le)
  have hpos := uncoveredSum_pos hu.ipP_eq
  have hsrc : ipSrc data = ipSrc frame := congrArg swap32 (hw.word32_eq (by omega) (by omega) (by omega) (by omega))
  have hport : portSrc data = portSrc frame :=
    congrArg swap16 (hw.word16_eq (by omega) (by omega) (by omega) (by omega))
  rw [hsrc, hport, ipDst, hw.address_eq, portDst, hw.port_eq, hw.uncoveredSum_eq (Or.inr rfl) (Or.inr rfl)] at hdata
  refine ⟨data, he, hw.carriesUdpSum_iff (Or.inr rfl) (Or.inr rfl) hz hc
    (addressWords (ipSrc frame) + (portSrc frame).toNat + uncoveredSum frame) ?_ ?_ ?_⟩
  · omega
  · omega
  · omega

end Translated

/-- A translated packet carries a correct checksum if and only if the new address and port
add up to what the old ones did. -/
theorem translated_checksum_iff (m : Machine) (frame : Bytes) (now : Int) (hv : isValidPacket frame = some true)
    (hp : ipP frame = 17) (hz : word16 frame 40 ≠ 0) (hc : UdpSumCorrect frame) :
    (portDst frame = 1000 ∨ portDst frame = 2000 →
      ∃ m' data, m.processFrame frame now = some (m', [⟨1, data⟩]) ∧ (CarriesUdpSum data ↔
        (addressWords (ipSrc frame) + (portSrc frame).toNat) % 65535 =
          (addressWords (m.iface 1).ip + m.nextPort.toNat) % 65535)) ∧
    ∀ address mac, 8000 ≤ portDst frame → (portDst frame).toNat < m.srcPort →
      m.portToIp (portDst frame) = some address → m.ipToMac (swap32 address) = some mac →
      ∃ data, m.processFrame frame now = some (m, [⟨0, data⟩]) ∧ (CarriesUdpSum data ↔
        (addressWords (ipDst frame) + (portDst frame).toNat) % 65535 =
          (addressWords (swap32 address) + (swap16 (m.myPortToSrcPort (portDst frame))).toNat) % 65535) := by
  have hu := validUdp_of_accepted hv hp
  exact ⟨fun hd => forwarded_carries_iff m now hu hz hc hd,
    fun address mac hle hlt hk hm => replied_carries_iff hu hz hc hle hlt hk hm⟩

/-- A request with the checksum that makes its sum correct. -/
def sampleChecked (portSrc : UInt16) : Bytes :=
  let frame := sampleUdp 0xC0A80002 0x08080808 portSrc 1000
  patch frame 40 (bytes16 (swap16 (UInt16.ofNat (65535 - transportSum frame % 65535))))

/-- From the port 26775 the address and port of the client add up to those of the node. -/
theorem translated_checksum_balanced : ∃ m₀ h m m' data, Machine.initializeMachine sampleIface sampleInfo = some m₀ ∧
    Execution.Run Machine.step m₀ h m ∧ m.processFrame (sampleChecked 26775) 0 = some (m', [⟨1, data⟩]) ∧
    CarriesUdpSum data := by
  obtain ⟨m₀, h, m, hi, hr, hport, hiface⟩ := Machine.reaches sampleIface sampleInfo []
    (fun m _ => m.nextPort = 8000 ∧ (m.iface 1).ip = 0x0A000002) (by decide +kernel)
  have hc : UdpSumCorrect (sampleChecked 26775) := (foldFully_eq_iff _).mpr (by decide +kernel)
  obtain ⟨m', data, he, hs⟩ := (translated_checksum_iff m (sampleChecked 26775) 0 (by decide +kernel)
    (by decide +kernel) (by decide +kernel) hc).1 (by decide +kernel)
  refine ⟨m₀, h, m, m', data, hi, hr, he, hs.mpr ?_⟩
  rw [hport, hiface]
  decide +kernel

theorem forwarded_checksum_wrong : ∃ m₀ h m m' data, Machine.initializeMachine sampleIface sampleInfo = some m₀ ∧
    Execution.Run Machine.step m₀ h m ∧ isValidPacket (sampleChecked 9000) = some true ∧
    ipHl (sampleChecked 9000) = 5 ∧ word16 (sampleChecked 9000) 40 ≠ 0 ∧ UdpSumCorrect (sampleChecked 9000) ∧
    m.processFrame (sampleChecked 9000) 0 = some (m', [⟨1, data⟩]) ∧ ¬ CarriesUdpSum data := by
  obtain ⟨m₀, h, m, hi, hr, hport, hiface⟩ := Machine.reaches sampleIface sampleInfo []
    (fun m _ => m.nextPort = 8000 ∧ (m.iface 1).ip = 0x0A000002) (by decide +kernel)
  have hc : UdpSumCorrect (sampleChecked 9000) := (foldFully_eq_iff _).mpr (by decide +kernel)
  have hv : isValidPacket (sampleChecked 9000) = some true := by decide +kernel
  have hz : word16 (sampleChecked 9000) 40 ≠ 0 := by decide +kernel
  obtain ⟨m', data, he, hs⟩ := forwarded_carries_iff m 0
    (validUdp_of_accepted hv (by decide +kernel)) hz hc (by decide +kernel)
  refine ⟨m₀, h, m, m', data, hi, hr, hv, by decide +kernel, hz, hc, he, fun hcarries => ?_⟩
  have hsame := hs.mp hcarries
  rw [hport, hiface] at hsame
  exact absurd hsame (by decide +kernel)

end Overlay
