import Overlay.Replies

/-! Whether a peer accepts the UDP frames of this node. The lengths and ports always
agree, so it is up to the checksum of the IP header. -/

namespace Overlay

open ByteMemory Execution OnesComplement

/-- The words of the header that `set_ip_header` makes for UDP, other than its checksum. -/
def builtWords (ipLen : Nat) (ipSrc ipDst : UInt32) : Nat :=
  0x0045 + (swap16 (UInt16.ofNat ipLen)).toNat + 0x1140 + addressWords (swap32 ipSrc) +
    addressWords (swap32 ipDst)

section Built

variable {eth : Eth} {ip : Ip} {udp : Udp} {rest : Bytes}

theorem word16_ip (eth : Eth) (ip : Ip) (rest : Bytes) {k : Nat} (hk : k + 2 ≤ 20) :
    word16 (eth.bytes ++ ip.bytes ++ rest) (14 + k) = word16 ip.bytes k := by
  rw [List.append_assoc]
  exact (word16_append_right eth.bytes _ k).trans (word16_append_left rest hk)

theorem word16_ip_0 (ip : Ip) : word16 ip.bytes 0 = join16 (ip.ipV * 16 + ip.ipHl) ip.ipTos := rfl

theorem word16_ip_2 (ip : Ip) : word16 ip.bytes 2 = ip.ipLen := join16_bytes _

theorem word16_ip_4 (ip : Ip) : word16 ip.bytes 4 = ip.ipId := join16_bytes _

theorem word16_ip_6 (ip : Ip) : word16 ip.bytes 6 = ip.ipOff := join16_bytes _

theorem word16_ip_8 (ip : Ip) : word16 ip.bytes 8 = join16 ip.ipTtl ip.ipP := rfl

theorem word16_ip_10 (ip : Ip) : word16 ip.bytes 10 = ip.ipSum := join16_bytes _

theorem addressWords_ip_12 (ip : Ip) :
    (word16 ip.bytes 12).toNat + (word16 ip.bytes 14).toNat = addressWords ip.ipSrc := by
  have h : word32 ip.bytes 12 = ip.ipSrc := join32_bytes _
  rw [← h, addressWords_word32]

theorem addressWords_ip_16 (ip : Ip) :
    (word16 ip.bytes 16).toNat + (word16 ip.bytes 18).toNat = addressWords ip.ipDst := by
  have h : word32 ip.bytes 16 = ip.ipDst := join32_bytes _
  rw [← h, addressWords_word32]

theorem frontWords_ip (eth : Eth) (ip : Ip) (rest : Bytes) :
    frontWords (eth.bytes ++ ip.bytes ++ rest) = (join16 (ip.ipV * 16 + ip.ipHl) ip.ipTos).toNat +
      ip.ipLen.toNat + ip.ipId.toNat + ip.ipOff.toNat + (join16 ip.ipTtl ip.ipP).toNat := by
  have hw (k : Nat) (hk : k + 2 ≤ 20) := word16_ip eth ip rest hk
  rw [frontWords, hw 0 (by decide), hw 2 (by decide), hw 4 (by decide), hw 6 (by decide), hw 8 (by decide),
    word16_ip_0, word16_ip_2, word16_ip_4, word16_ip_6, word16_ip_8]

theorem addressWords_ip (eth : Eth) (ip : Ip) (rest : Bytes) :
    addressWords (word32 (eth.bytes ++ ip.bytes ++ rest) 26) = addressWords ip.ipSrc ∧
      addressWords (word32 (eth.bytes ++ ip.bytes ++ rest) 30) = addressWords ip.ipDst := by
  have hw (k : Nat) (hk : k + 2 ≤ 20) := word16_ip eth ip rest hk
  rw [addressWords_word32, addressWords_word32, hw 12 (by decide), hw 14 (by decide), hw 16 (by decide),
    hw 18 (by decide), addressWords_ip_12, addressWords_ip_16]
  exact ⟨rfl, rfl⟩

theorem word16_udp_38 : word16 (eth.bytes ++ ip.bytes ++ (udp.bytes ++ rest)) 38 = udp.length := join16_bytes _

theorem setIpHeader_ipSum (eth : Eth) (rest : Bytes) {iface : Fin 2 → Interface} {destIp : UInt32}
    {protocol : Protocol} {size : Nat} {isDsaLsa isSelf : Bool}
    (h : ip = setIpHeader iface destIp protocol size isDsaLsa isSelf) :
    (word16 (eth.bytes ++ ip.bytes ++ rest) 24).toNat = checksum (frontWords (eth.bytes ++ ip.bytes ++ rest) +
      addressWords (word32 (eth.bytes ++ ip.bytes ++ rest) 26) +
      addressWords (word32 (eth.bytes ++ ip.bytes ++ rest) 30)) := by
  have hzero : ∃ ip₀ : Ip, ip₀.ipSum = 0 ∧ ip = { ip₀ with ipSum := checkSumIp ip₀.bytes 0 5 } := by
    rw [h]
    exact ⟨_, rfl, rfl⟩
  obtain ⟨ip₀, h₀, rfl⟩ := hzero
  have hsum : (word16 ip₀.bytes 10).toNat = 0 := by
    rw [word16_ip_10, h₀]
    rfl
  have hheader : headerSum ip₀.bytes 0 10 = (word16 ip₀.bytes 0).toNat + (word16 ip₀.bytes 2).toNat +
      (word16 ip₀.bytes 4).toNat + (word16 ip₀.bytes 6).toNat + (word16 ip₀.bytes 8).toNat +
      ((word16 ip₀.bytes 12).toNat + (word16 ip₀.bytes 14).toNat) +
      ((word16 ip₀.bytes 16).toNat + (word16 ip₀.bytes 18).toNat) := by
    simp only [headerSum, Nat.reduceMul, Nat.reduceAdd]
    omega
  obtain ⟨hsrc, hdst⟩ := addressWords_ip eth { ip₀ with ipSum := checkSumIp ip₀.bytes 0 5 } rest
  rw [word16_ip eth _ rest (show 10 + 2 ≤ 20 by decide), word16_ip_10, toNat_checkSumIp ip₀.bytes 0 (by decide),
    frontWords_ip, hsrc, hdst]
  show checksum (headerSum ip₀.bytes 0 10) = _
  rw [hheader, word16_ip_0, word16_ip_2, word16_ip_4, word16_ip_6, word16_ip_8, addressWords_ip_12,
    addressWords_ip_16]

theorem setIpHeader_udp {iface : Fin 2 → Interface} {destIp : UInt32} {size : Nat} {isDsaLsa isSelf : Bool}
    (h : ip = setIpHeader iface destIp .udp size isDsaLsa isSelf) :
    ip.ipV = 4 ∧ ip.ipHl = 5 ∧ ip.ipTos = 0 ∧ ip.ipId = 0 ∧ ip.ipOff = 0 ∧ ip.ipTtl = 64 ∧ ip.ipP = 17 ∧
      ip.ipDst = swap32 destIp ∧ ip.ipLen = swap16 (UInt16.ofNat (28 + size)) := by
  rw [h]
  have hz : swap16 0 = 0 := by decide
  refine ⟨rfl, rfl, rfl, hz, hz, rfl, rfl, rfl, ?_⟩
  cases isDsaLsa <;> rfl

theorem completes_built {iface : Fin 2 → Interface} {destIp : UInt32} (size : Nat) {isDsaLsa isSelf : Bool}
    {src : UInt32} (eth : Eth) (rest : Bytes) (h : ip = setIpHeader iface destIp .udp size isDsaLsa isSelf)
    (hsrc : ip.ipSrc = swap32 src) :
    Completes (eth.bytes ++ ip.bytes ++ rest) ↔ SingleCarry (builtWords (28 + size) src destIp) := by
  obtain ⟨hv, hhl, htos, hid, hoff, httl, hp, hdst, hlen⟩ := setIpHeader_udp h
  have hfront : frontWords (eth.bytes ++ ip.bytes ++ rest) =
      0x0045 + (swap16 (UInt16.ofNat (28 + size))).toNat + 0x1140 := by
    rw [frontWords_ip, hv, hhl, htos, hid, hoff, httl, hp, hlen]
    show 69 + _ + 0 + 0 + 4416 = _
    omega
  obtain ⟨hsrc', hdst'⟩ := addressWords_ip eth ip rest
  rw [Completes, hfront, hsrc', hdst', hsrc, hdst, builtWords]

/-- A UDP frame from `set_ip_header` is accepted if it fits an IP packet and its header
completes. -/
theorem isValidPacket_built {iface : Fin 2 → Interface} {destIp : UInt32} (size : Nat)
    {isDsaLsa isSelf : Bool} {src : UInt32} (h : ip = setIpHeader iface destIp .udp size isDsaLsa isSelf)
    (hsrc : ip.ipSrc = swap32 src) (heth : eth.etherType = swap16 0x0800)
    (hudp : udp.length = swap16 (UInt16.ofNat (8 + size))) (hrest : rest.length = size) :
    isValidPacket (eth.bytes ++ ip.bytes ++ (udp.bytes ++ rest)) = some true ↔
      28 + size < 65536 ∧ SingleCarry (builtWords (28 + size) src destIp) := by
  set frame := eth.bytes ++ ip.bytes ++ (udp.bytes ++ rest) with hframe
  have hlength : frame.length = 42 + size := by
    simp only [hframe, List.length_append, Eth.length_bytes, Ip.length_bytes, Udp.length_bytes, hrest]
    omega
  obtain ⟨hv, hhl, _, _, _, _, hp, _, hlen⟩ := setIpHeader_udp h
  have hb : word8 frame 14 = 0x45 := by
    show ip.ipV * 16 + ip.ipHl = 0x45
    rw [hv, hhl]
    decide
  have hhl5 : ipHl frame = 5 := by rw [ipHl, hb]; decide
  have hipLen : ipLen frame = (28 + size) % 65536 := by
    rw [ipLen, hframe, word16_ip eth ip _ (show 2 + 2 ≤ 20 by decide), word16_ip_2, hlen, swap16_swap16,
      UInt16.toNat_ofNat']
  have hcheck := checkSumIp_completed (setIpHeader_ipSum eth (udp.bytes ++ rest) h)
  rw [isValidPacket_iff, ← completes_built size eth (udp.bytes ++ rest) h hsrc, ← hcheck]
  constructor
  · rintro (hu | hi)
    · have hl := hu.length_eq
      rw [hipLen, hlength] at hl
      exact ⟨by omega, hhl5 ▸ hu.checkSum_eq⟩
    · have hip : ipP frame = 17 := hp
      rw [hi.ipP_eq] at hip
      exact absurd hip (by decide)
  · rintro ⟨hsize, hzero⟩
    have hudpLen : udpLength frame = 8 + size := by
      rw [udpLength, word16_udp_38, hudp, swap16_swap16, UInt16.toNat_ofNat']
      omega
    refine Or.inl ⟨⟨?_, ?_, ?_, ?_, ?_⟩, hp, by omega, ?_⟩
    · have ht : word16 frame 12 = eth.etherType := join16_bytes _
      rw [etherType, ht, heth, swap16_swap16]
    · rw [hipLen, hlength]
      omega
    · rw [ipV, hb]
      decide
    · rw [hhl5, hlength]
      omega
    · rw [hhl5]
      exact hzero
    · rw [hudpLen, hhl5, hipLen]
      omega

end Built

/-! Frames rewritten by the address translation. -/

section Rewritten

variable {frame data : Bytes} {shost dhost : Mac} {i j : Nat} {port : UInt16} {address : UInt32}

theorem Rewritten.frontWords_eq (h : Rewritten frame data shost dhost i port j address) (hi : i = 34 ∨ i = 36)
    (hj : j = 26 ∨ j = 30) : frontWords data = frontWords frame := by
  have hw (k : Nat) (hk : 14 ≤ k) (hk' : k ≤ 22) : word16 data k = word16 frame k :=
    h.word16_eq (by omega) (by omega) (by omega) (by omega)
  rw [frontWords, frontWords, hw 14 (by omega) (by omega), hw 16 (by omega) (by omega),
    hw 18 (by omega) (by omega), hw 20 (by omega) (by omega), hw 22 (by omega) (by omega)]

theorem Rewritten.isValidPacket_iff (h : Rewritten frame data shost dhost i port j address)
    (hi : i = 34 ∨ i = 36) (hj : j = 26 ∨ j = 30) (hu : ValidUdp frame) (hhl : ipHl frame = 5) :
    isValidPacket data = some true ↔ Completes data := by
  have hw (k : Nat) (hk : k = 12 ∨ k = 16 ∨ k = 38) : word16 data k = word16 frame k :=
    h.word16_eq (by omega) (by omega) (by omega) (by omega)
  have hb (k : Nat) (hk : k = 14 ∨ k = 23) : word8 data k = word8 frame k :=
    h.word8_eq k (by omega) (by omega) (by omega) (by omega)
  have hhl' : ipHl data = 5 := (ipHl_congr (hb 14 (Or.inl rfl))).trans hhl
  have hp : ipP data = 17 := (hb 23 (Or.inr rfl)).trans hu.ipP_eq
  have hlen : ipLen data = ipLen frame := by rw [ipLen, ipLen, hw 16 (by decide)]
  rw [Overlay.isValidPacket_iff, ← checkSumIp_completed (h.sum_eq hhl)]
  constructor
  · rintro (hd | hd)
    · exact hhl' ▸ hd.checkSum_eq
    · have hp' := hd.ipP_eq
      rw [hp] at hp'
      exact absurd hp' (by decide)
  · intro hz
    refine Or.inl ⟨⟨?_, ?_, ?_, ?_, hhl' ▸ hz⟩, hp, ?_, ?_⟩
    · rw [etherType, hw 12 (by decide)]
      exact hu.etherType_eq
    · rw [h.length_eq, hlen]
      exact hu.length_eq
    · rw [ipV, hb 14 (by decide)]
      exact hu.ipV_eq
    · rw [hhl', h.length_eq]
      have := hu.length_le
      omega
    · rw [h.length_eq]
      exact hu.length_le
    · rw [udpLength, hw 38 (by decide), hhl', hlen, ← hhl]
      exact hu.udpLength_eq

theorem Rewritten.accepted_iff (h : Rewritten frame data shost dhost i port j address)
    (hi : i = 34 ∨ i = 36) (hj : j = 26 ∨ j = 30) (hu : ValidUdp frame) (hhl : ipHl frame = 5) :
    isValidPacket data = some true ↔ SingleCarry (frontWords frame + addressWords (word32 data 26) +
      addressWords (word32 data 30)) := by
  rw [h.isValidPacket_iff hi hj hu hhl, Completes, h.frontWords_eq hi hj]

end Rewritten

theorem advertisePacket_accepted_iff (iface : Fin 2 → Interface) (ipDst : UInt32) (macDst : Mac)
    (advertiseData : Bytes) :
    isValidPacket (Machine.advertisePacket iface ipDst macDst advertiseData).frame = some true ↔
      28 + advertiseData.length < 65536 ∧
        SingleCarry (builtWords (28 + advertiseData.length) (iface 0).ip ipDst) := by
  rw [Machine.advertisePacket, List.append_assoc]
  exact isValidPacket_built _ rfl rfl rfl rfl rfl

theorem sendUdpPacket_accepted_iff {m m' : Machine} {ipDst nextHop : UInt32} {isDsa : Bool} {now : Int}
    {sent : Sent} (h : m.sendUdpPacket ipDst nextHop isDsa now = some (m', sent)) :
    isValidPacket sent.frame = some true ↔
      SingleCarry (builtWords 32 (m.iface (if nextHop = m.table.ipGateway.uint then 1 else 0)).ip ipDst) := by
  have key (etherShost etherDhost : Mac) :
      isValidPacket (m.udpPacket ipDst nextHop isDsa etherShost etherDhost) = some true ↔
        SingleCarry (builtWords 32 (m.iface (if nextHop = m.table.ipGateway.uint then 1 else 0)).ip ipDst) := by
    rw [Machine.udpPacket, List.append_assoc]
    refine (isValidPacket_built 4 rfl ?_ rfl rfl rfl).trans (and_iff_right (by decide))
    by_cases hg : nextHop = m.table.ipGateway.uint <;> simp [setIpHeader, hg]
  obtain ⟨_, ⟨_, rfl⟩ | ⟨_, mac, _, rfl⟩⟩ := Machine.sendUdpPacket_cases h
  · exact key _ _
  · exact key _ _

/-- A peer accepts a UDP frame of this node if adding up the words of its IP header takes
one carry, in each of the four places that build such frames. -/
theorem udp_frame_accepted_iff (m : Machine) :
    (∀ (ipDst : UInt32) (macDst : Mac) (advertiseData : Bytes),
      isValidPacket (Machine.advertisePacket m.iface ipDst macDst advertiseData).frame = some true ↔
        28 + advertiseData.length < 65536 ∧
          SingleCarry (builtWords (28 + advertiseData.length) (m.iface 0).ip ipDst)) ∧
    (∀ (ipDst nextHop : UInt32) (isDsa : Bool) (now : Int) (m' : Machine) (sent : Sent),
      m.sendUdpPacket ipDst nextHop isDsa now = some (m', sent) → (isValidPacket sent.frame = some true ↔
        SingleCarry (builtWords 32 (m.iface (if nextHop = m.table.ipGateway.uint then 1 else 0)).ip ipDst))) ∧
    (∀ (frame : Bytes) (now : Int), isValidPacket frame = some true → ipHl frame = 5 →
      ipP frame = 17 → portDst frame = 1000 ∨ portDst frame = 2000 →
      ∃ m' data, m.processFrame frame now = some (m', [⟨1, data⟩]) ∧ (isValidPacket data = some true ↔
        SingleCarry (frontWords frame + addressWords (swap32 (m.iface 1).ip) + addressWords (word32 frame 30)))) ∧
    (∀ (frame : Bytes) (now : Int) (address : UInt32) (mac : Mac),
      isValidPacket frame = some true → ipHl frame = 5 → ipP frame = 17 → 8000 ≤ portDst frame →
      (portDst frame).toNat < m.srcPort → m.portToIp (portDst frame) = some address →
      m.ipToMac (swap32 address) = some mac →
      ∃ data, m.processFrame frame now = some (m, [⟨0, data⟩]) ∧ (isValidPacket data = some true ↔
        SingleCarry (frontWords frame + addressWords (word32 frame 26) + addressWords address))) := by
  refine ⟨advertisePacket_accepted_iff m.iface,
    fun ipDst nextHop isDsa now m' sent h => sendUdpPacket_accepted_iff h,
    fun frame now hv hhl hp hd => ?_, fun frame now address mac hv hhl hp hle hlt hk hm => ?_⟩
  · have hu := validUdp_of_accepted hv hp
    obtain ⟨m', data, hf, hw⟩ := processFrame_request m now hu hd
    refine ⟨m', data, hf, ?_⟩
    rw [hw.accepted_iff (Or.inl rfl) (Or.inl rfl) hu hhl, hw.address_eq,
      hw.word32_eq (by decide) (by decide) (by decide) (by decide)]
  · have hu := validUdp_of_accepted hv hp
    obtain ⟨data, hf, hw⟩ := processFrame_mapped now hu rfl hle hlt hk hm
    refine ⟨data, hf, ?_⟩
    rw [hw.accepted_iff (Or.inr rfl) (Or.inr rfl) hu hhl, hw.address_eq,
      hw.word32_eq (by decide) (by decide) (by decide) (by decide)]

theorem udp_frame_accepted_small : ∃ m : Machine,
    isValidPacket (Machine.advertisePacket m.iface 0xFFFFFFFF ⟨255, 255, 255, 255, 255, 255⟩ (bytes32 0)).frame =
      some true ∧
    (∃ m' sent, m.step (.dsa (ascii "8.8.8.8") 0) = some (m', [sent]) ∧ isValidPacket sent.frame = some true) ∧
    (∃ m' data, m.step (.frame (sampleUdp 0xC0A80002 0x08080808 9000 1000) 0) = some (m', [⟨1, data⟩]) ∧
      isValidPacket data = some true) ∧
    ∃ data, m.step (.frame (sampleUdp 0x08080808 0x0A000002 1000 8000) 0) = some (m, [⟨0, data⟩]) ∧
      isValidPacket data = some true := by
  obtain ⟨m₀, h, m, _, _, hv, hg, hk, hm, hs, hs₀, hs₁⟩ := Machine.reaches sampleIface sampleInfo
    [sampleAdvertisement 0xC0A80002 [], .frame (sampleUdp 0xC0A80002 0x08080808 9000 1000) 0]
    (fun m _ => m.table.isServerValid (ascii "8.8.8.8") = true ∧
      (m.dsaNextHop (ascii "8.8.8.8")).uint = m.table.ipGateway.uint ∧
      m.portToIp 8000 = some (word32 (sampleUdp 0xC0A80002 0x08080808 9000 1000) 26) ∧
      m.ipToMac 0xC0A80002 = some ⟨2, 0, 0, 0, 1, 2⟩ ∧ m.srcPort = 8001 ∧
      (m.iface 0).ip = 0xC0A80001 ∧ (m.iface 1).ip = 0x0A000002) (by decide +kernel)
  obtain ⟨hadvertise, hsend, hforward, hreply⟩ := udp_frame_accepted_iff m
  refine ⟨m, ?_, ?_, ?_, ?_⟩
  · refine (hadvertise _ _ _).mpr ?_
    rw [hs₀]
    decide
  · obtain ⟨sent, he⟩ := step_dsa_gateway 0 hv hg
    refine ⟨_, sent, he, ?_⟩
    rcases Machine.step_dsa he with ⟨hf, _⟩ | ⟨_, sent', hu, ho⟩
    · rw [hv] at hf
      cases hf
    · rw [(List.cons.inj ho).1, hsend _ _ _ _ _ _ hu, if_pos hg, hs₁]
      decide
  · obtain ⟨m', data, he, hc⟩ := hforward (sampleUdp 0xC0A80002 0x08080808 9000 1000) 0 (by decide +kernel)
      (by decide +kernel) (by decide +kernel) (by decide +kernel)
    refine ⟨m', data, he, hc.mpr ?_⟩
    rw [hs₁]
    decide +kernel
  · obtain ⟨data, he, hc⟩ := hreply (sampleUdp 0x08080808 0x0A000002 1000 8000) 0 _ _ (by decide +kernel)
      (by decide +kernel) (by decide +kernel) (by decide +kernel) (by rw [hs]; decide +kernel) hk hm
    exact ⟨data, he, hc.mpr (by decide +kernel)⟩

/-- A node with the address 192.168.187.37 that advertises right after its start: the
words of the header add up to 0x2FFFE, which takes a second carry. -/
theorem advertisement_dropped : ∃ m₀ h m,
    Machine.initializeMachine (fun _ => ⟨0xC0A8BB25, ⟨2, 0, 0, 0, 0, 1⟩⟩) sampleInfo = some m₀ ∧
    Run Machine.step m₀ h m ∧ h.length = 1 ∧
    ∀ x ∈ h, x.output.length = 1 ∧ ∀ sent ∈ x.output, isValidPacket sent.frame = some false :=
  Machine.reaches _ sampleInfo [.advertise] _ (by decide +kernel)

end Overlay
