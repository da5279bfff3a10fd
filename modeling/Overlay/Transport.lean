import Overlay.Node

/-! Where the transport header of an accepted frame is read, against where the IP header
says it is. The validator lets every header length pass that fits the frame. -/

namespace Overlay

open ByteMemory Execution

variable {frame : Bytes}

/-- What follows the IP header, by its length field. -/
def describedTransport (frame : Bytes) : Bytes := frame.drop (14 + 4 * ipHl frame)

/-- The fields of UDP and ICMP that the node reads are those of a header that starts with
these bytes. -/
structure ReadsTransport (frame transport : Bytes) : Prop where
  portSrc_eq : portSrc frame = swap16 (word16 transport 0)
  portDst_eq : portDst frame = swap16 (word16 transport 2)
  udpLength_eq : udpLength frame = (swap16 (word16 transport 4)).toNat
  type_eq : word8 frame 34 = word8 transport 0
  code_eq : word8 frame 35 = word8 transport 1
  sequenceId_eq : sequenceId frame = swap16 (word16 transport 4)
  payload_eq : word32 frame 42 = word32 transport 8
  advertiseData_eq : frame.drop 42 = transport.drop 8

/-- The transport header that is read is the one the IP header describes. -/
structure TransportDescribed (frame : Bytes) : Prop where
  ipHl_ge : 5 ≤ ipHl frame
  read_eq : frame.drop 34 = describedTransport frame
  reads : ReadsTransport frame (describedTransport frame)
  udpLength_eq : ipP frame = 17 → udpLength frame = (describedTransport frame).length

theorem readsTransport_drop (frame : Bytes) : ReadsTransport frame (frame.drop 34) := by
  refine ⟨?_, ?_, ?_, ?_, ?_, ?_, ?_, ?_⟩
  · rw [word16_drop, portSrc]
  · rw [word16_drop, portDst]
  · rw [word16_drop, udpLength]
  · rw [word8_drop]
  · rw [word8_drop]
  · rw [word16_drop, sequenceId]
  · rw [word32_drop]
  · rw [List.drop_drop]

theorem length_describedTransport (frame : Bytes) :
    (describedTransport frame).length = frame.length - (14 + 4 * ipHl frame) := List.length_drop ..

theorem ValidUdp.udpLength_described (hu : ValidUdp frame) :
    udpLength frame = (describedTransport frame).length := by
  have hl := hu.length_eq
  have he := hu.udpLength_eq
  rw [length_describedTransport]
  omega

theorem accepted_length {frame : Bytes} (hv : isValidPacket frame = some true) :
    ValidIp frame ∧ 42 ≤ frame.length ∧ (ipP frame = 17 → udpLength frame = (describedTransport frame).length) := by
  rcases (isValidPacket_iff frame).mp hv with hu | hi
  · exact ⟨hu.toValidIp, hu.length_le, fun _ => hu.udpLength_described⟩
  · have hl := hi.length_le
    refine ⟨hi.toValidIp, by omega, fun hp => ?_⟩
    rw [hi.ipP_eq] at hp
    exact absurd hp (by decide)

/-- The fields are always read behind a header of 20 bytes, so the two agree on the frames
without IP options only. -/
theorem transport_described_iff (hv : isValidPacket frame = some true) :
    ReadsTransport frame (frame.drop 34) ∧ (TransportDescribed frame ↔ ipHl frame = 5) := by
  obtain ⟨hip, hlen, hudp⟩ := accepted_length hv
  refine ⟨readsTransport_drop frame, fun h => ?_, fun h => ?_⟩
  · have hsame := congrArg List.length h.read_eq
    have hle := hip.header_le
    rw [List.length_drop, length_describedTransport] at hsame
    omega
  · have hread : frame.drop 34 = describedTransport frame := by rw [describedTransport, h]
    exact ⟨h.ge, hread, hread ▸ readsTransport_drop frame, hudp⟩

theorem transport_described_sample : TransportDescribed (sampleUdp 0xC0A80002 0x08080808 9000 1000) :=
  (transport_described_iff (by decide +kernel)).2.mpr (by decide +kernel)

/-- A UDP packet to port 53 behind four bytes of IP options, which spell the ports 1000. -/
def sampleOptions : Bytes :=
  let eth : Eth :=
    { etherDhost := (sampleIface 0).mac, etherShost := ⟨2, 0, 0, 0, 1, 2⟩, etherType := swap16 0x0800 }
  let options := bytes16 (swap16 1000) ++ bytes16 (swap16 1000)
  let ip : Ip :=
    { ipV := 4, ipHl := 6, ipTos := 0, ipId := 0, ipOff := 0, ipTtl := 64, ipP := 17, ipDst := swap32 0x08080808,
      ipSrc := swap32 0xC0A80002, ipLen := swap16 36, ipSum := 0 }
  let ip := { ip with ipSum := checkSumIp (ip.bytes ++ options) 0 6 }
  let udp : Udp := { portSrc := swap16 12, portDst := swap16 53, length := swap16 12, udpSum := 0 }
  eth.bytes ++ ip.bytes ++ options ++ udp.bytes ++ bytes32 (swap32 0x12345678)

/-- The node takes the options for the ports, and forwards the packet as a request. -/
theorem options_read_as_ports : isValidPacket sampleOptions = some true ∧ ipHl sampleOptions = 6 ∧
    portDst sampleOptions = 1000 ∧ swap16 (word16 (describedTransport sampleOptions) 2) = 53 ∧
    ¬ TransportDescribed sampleOptions ∧
    ∃ m₀ h m, Machine.initializeMachine sampleIface sampleInfo = some m₀ ∧ Run Machine.step m₀ h m ∧
      h.map (·.event) = [.frame sampleOptions 0] ∧ h.map (·.output.length) = [1] := by
  have hports : portDst sampleOptions = 1000 ∧ swap16 (word16 (describedTransport sampleOptions) 2) = 53 := by
    decide +kernel
  obtain ⟨hread, hdescribed⟩ := hports
  refine ⟨by decide +kernel, by decide +kernel, hread, hdescribed, fun h => ?_, ?_⟩
  · have hp := h.reads.portDst_eq
    rw [hread, hdescribed] at hp
    exact absurd hp (by decide)
  · obtain ⟨m₀, h, m, hi, hr, he, hl⟩ := Machine.reaches_by sampleIface sampleInfo [.frame sampleOptions 0]
      (fun _ h => h.map (·.output.length) = [1]) (by decide +kernel)
    exact ⟨m₀, h, m, hi, hr, he, hl⟩

end Overlay
