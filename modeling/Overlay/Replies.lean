import Overlay.Ports

/-! Replies: what arrives on the port of a forwarded request goes back to the requester,
whatever happened in between, and what arrives on a port of the node's own stays here. -/

namespace Overlay

open ByteMemory Execution

def Event.advertiser : Event → Option (UInt32 × Mac)
  | .frame data _ =>
    if isValidPacket data = some true ∧ ipP data = 17 ∧ portDst data = 5000 then
      some (ipSrc data, etherShost data)
    else none
  | _ => none

def Event.macAfter (e : Event) (ip : UInt32) (stored : Option Mac) : Option Mac :=
  match e.advertiser with
  | some r => if r.1 = ip then some r.2 else stored
  | none => stored

def storedMac (h : List (Taken Machine Event (List Sent))) (ip : UInt32) : Option Mac :=
  h.foldl (fun stored x => x.event.macAfter ip stored) none

variable {m m' : Machine} {frame : Bytes} {out : List Sent}

theorem advertiser_of_not_udp {now : Int} (h : ¬ ValidUdp frame) : (Event.frame frame now).advertiser = none := by
  refine if_neg ?_
  rintro ⟨hv, hp, _⟩
  exact h (validUdp_of_accepted hv hp)

theorem macAfter_of_none {e : Event} {ip : UInt32} {stored : Option Mac} (h : e.advertiser = none) :
    e.macAfter ip stored = stored := by
  rw [Event.macAfter, h]

theorem step_ipToMac {e : Event} (h : m.step e = some (m', out)) (ip : UInt32) :
    m'.ipToMac ip = e.macAfter ip (m.ipToMac ip) := by
  cases Machine.step_cases h with
  | ping clock => rfl
  | advertise _ => rfl
  | unknown he _ => rcases he with rfl | rfl <;> rfl
  | own he _ hs =>
    obtain ⟨rfl, _⟩ := Machine.sendUdpPacket_cases hs
    rcases he with rfl | rfl <;> rfl
  | @frame data now _ _ hf =>
    have hother (hp : portDst data ≠ 5000) : (Event.frame data now).advertiser = none :=
      if_neg fun hc => hp hc.2.2
    cases hf with
    | rejected hv => exact (macAfter_of_none (advertiser_of_not_udp (not_validUdp_of_rejected hv))).symm
    | echo hi ht => exact (macAfter_of_none (advertiser_of_not_udp hi.not_validUdp)).symm
    | advertisement hu hp ht =>
      have he : (Event.frame data now).advertiser = some (ipSrc data, etherShost data) :=
        if_pos ⟨(isValidPacket_iff data).mpr (Or.inl hu), hu.ipP_eq, hp⟩
      simp only [Event.macAfter, he]
      by_cases hs : ipSrc data = ip
      · rw [if_pos hs, ← hs]
        exact Function.update_self _ _ _
      · rw [if_neg hs]
        exact Function.update_of_ne (Ne.symm hs) _ _
    | forward hu hp hf =>
      obtain ⟨_, _, _, rfl⟩ := Machine.natForward_cases hf
      refine (macAfter_of_none (hother fun h => ?_)).symm
      rw [h] at hp
      exact absurd hp (by decide)
    | reply hu h₁ h₂ hk hr =>
      obtain ⟨rfl, _⟩ := Machine.natReply_cases hr
      exact (macAfter_of_none (hother (service_ports h₁).2.2)).symm
    | ignored hu hp => exact (macAfter_of_none (hother hp)).symm

theorem run_ipToMac {iface : Fin 2 → Interface} {info : Str} {m₀ : Machine}
    {h : List (Taken Machine Event (List Sent))} (hi : Machine.initializeMachine iface info = some m₀)
    (hr : Run Machine.step m₀ h m) (ip : UInt32) : m.ipToMac ip = storedMac h ip := by
  induction hr with
  | start =>
    obtain ⟨t, _, rfl⟩ := Option.map_eq_some_iff.mp hi
    rfl
  | snoc hr he ih =>
    rw [step_ipToMac he, ih, storedMac, storedMac, List.foldl_append]
    rfl

/-! The way back. -/

theorem processFrame_mapped {port : UInt16} {address : UInt32} {mac : Mac} (now : Int)
    (hu : ValidUdp frame) (hport : portDst frame = port) (hle : 8000 ≤ port) (hlt : port.toNat < m.srcPort)
    (hk : m.portToIp port = some address) (hm : m.ipToMac (swap32 address) = some mac) :
    ∃ data, m.processFrame frame now = some (m, [⟨0, data⟩]) ∧
      Rewritten frame data (m.iface 0).mac mac 36 (m.myPortToSrcPort port) 30 address := by
  obtain ⟨data, hd, hw⟩ := rewrite_eq (m.iface 0).mac mac (m.myPortToSrcPort port)
    address hu.length_le (Or.inr rfl) (Or.inr rfl)
  have hvalid : isValidPacket frame = some true := (isValidPacket_iff frame).mpr (Or.inl hu)
  have hp₁ : ¬ ipP frame = 1 := by rw [hu.ipP_eq]; decide
  obtain ⟨h₁, h₂, hp₂⟩ := service_ports hle
  have hp₃ : ¬ (port = 1000 ∨ port = 2000) := not_or.mpr ⟨h₁, h₂⟩
  refine ⟨data, ?_, hw⟩
  simp only [Machine.processFrame, hvalid, if_neg hp₁, if_pos hu.ipP_eq, Machine.processUdp, hport,
    if_neg hp₂, if_neg hp₃, if_pos (And.intro hle hlt), hk, Machine.natReply, hm, Option.bind_eq_bind,
    Option.bind_some, swap16_swap16, swap32_swap32, hd]

theorem processFrame_request (m : Machine) (now : Int) (hu : ValidUdp frame)
    (hd : portDst frame = 1000 ∨ portDst frame = 2000) :
    ∃ m' data, m.processFrame frame now = some (m', [⟨1, data⟩]) ∧
      Rewritten frame data (m.iface 1).mac m.macGateway 34 (swap16 m.nextPort) 26 (swap32 (m.iface 1).ip) := by
  obtain ⟨data, hr, hw⟩ := rewrite_eq (m.iface 1).mac m.macGateway (swap16 m.nextPort)
    (swap32 (m.iface 1).ip) hu.length_le (Or.inl rfl) (Or.inl rfl)
  have hn : ∃ m', m.natForward frame = some (m', [⟨1, data⟩]) := by
    rw [Machine.nextPort] at hr
    simp only [Machine.natForward, hr, Option.bind_eq_bind, Option.bind_some]
    exact ⟨_, rfl⟩
  obtain ⟨m', hn⟩ := hn
  have hvalid : isValidPacket frame = some true := (isValidPacket_iff frame).mpr (Or.inl hu)
  have hp₁ : ¬ ipP frame = 1 := by rw [hu.ipP_eq]; decide
  have hp₂ : ¬ portDst frame = 5000 := by rcases hd with h | h <;> rw [h] <;> decide
  refine ⟨m', data, ?_, hw⟩
  simp only [Machine.processFrame, hvalid, if_neg hp₁, if_pos hu.ipP_eq, Machine.processUdp, if_neg hp₂,
    if_pos hd, hn]

theorem processFrame_unmapped {now : Int} (hu : ValidUdp frame) (hle : 8000 ≤ portDst frame)
    (hk : m.portToIp (portDst frame) = none) : m.processFrame frame now = some (m, []) := by
  have hvalid : isValidPacket frame = some true := (isValidPacket_iff frame).mpr (Or.inl hu)
  have hp₁ : ¬ ipP frame = 1 := by rw [hu.ipP_eq]; decide
  obtain ⟨h₁, h₂, hp₂⟩ := service_ports hle
  have hp₃ : ¬ (portDst frame = 1000 ∨ portDst frame = 2000) := not_or.mpr ⟨h₁, h₂⟩
  simp only [Machine.processFrame, hvalid, if_neg hp₁, if_pos hu.ipP_eq, Machine.processUdp,
    if_neg hp₂, if_neg hp₃, hk, ite_self]

section Rewritten

variable {data : Bytes} {shost dhost : Mac} {i j : Nat} {port : UInt16} {address : UInt32}

theorem Rewritten.word16_eq (h : Rewritten frame data shost dhost i port j address) {k : Nat} (h₁ : 12 ≤ k)
    (h₂ : k + 2 ≤ 24 ∨ 26 ≤ k) (h₃ : k + 2 ≤ i ∨ i + 2 ≤ k) (h₄ : k + 2 ≤ j ∨ j + 4 ≤ k) :
    word16 data k = word16 frame k := by
  rw [word16, word16, h.word8_eq k (by omega) (by omega) (by omega) (by omega),
    h.word8_eq (k + 1) (by omega) (by omega) (by omega) (by omega)]

theorem Rewritten.word32_eq (h : Rewritten frame data shost dhost i port j address) {k : Nat} (h₁ : 12 ≤ k)
    (h₂ : k + 4 ≤ 24 ∨ 26 ≤ k) (h₃ : k + 4 ≤ i ∨ i + 2 ≤ k) (h₄ : k + 4 ≤ j ∨ j + 4 ≤ k) :
    word32 data k = word32 frame k := by
  rw [word32, word32, h.word8_eq k (by omega) (by omega) (by omega) (by omega),
    h.word8_eq (k + 1) (by omega) (by omega) (by omega) (by omega),
    h.word8_eq (k + 2) (by omega) (by omega) (by omega) (by omega),
    h.word8_eq (k + 3) (by omega) (by omega) (by omega) (by omega)]

end Rewritten

/-- What a requester should get: the reply from the same source, addressed to the port
and the address the request came from. -/
structure ReplyTo (request reply data : Bytes) (mac : Mac) : Prop where
  ipDst_eq : ipDst data = ipSrc request
  portDst_eq : portDst data = portSrc request
  dhost_eq : readMac data 0 = mac
  ipSrc_eq : ipSrc data = ipSrc reply
  portSrc_eq : portSrc data = portSrc reply
  payload_eq : data.drop 42 = reply.drop 42

theorem Rewritten.replyTo {request reply data : Bytes} {shost mac : Mac}
    (h : Rewritten reply data shost mac 36 (word16 request 34) 30 (word32 request 26)) :
    ReplyTo request reply data mac := by
  refine ⟨?_, ?_, h.dhost_eq, ?_, ?_, h.drop_eq⟩
  · rw [ipDst, h.address_eq, ipSrc]
  · rw [portDst, h.port_eq, portSrc]
  · rw [ipSrc, ipSrc, h.word32_eq (by decide) (by decide) (by decide) (by decide)]
  · rw [portSrc, portSrc, h.word16_eq (by decide) (by decide) (by decide) (by decide)]

theorem allocates_of_request {request : Bytes} {now : Int} {sent : Sent}
    (h : m.step (.frame request now) = some (m', [sent])) (hd : portDst request = 1000 ∨ portDst request = 2000) :
    m.allocates (.frame request now) = true := by
  have hc := Machine.processFrame_cases h
  cases hc with
  | forward hu _ _ => exact Machine.allocates_frame.mpr ⟨hu, hd⟩
  | reply hu h₁ =>
    obtain ⟨hp₁, hp₂, _⟩ := service_ports h₁
    exact absurd hd (not_or.mpr ⟨hp₁, hp₂⟩)

theorem allocates_of_own {e : Event} {sent : Sent} {ipDst : Str} {now : Int}
    (h : m.step e = some (m', [sent])) (he : e = .dsa ipDst now ∨ e = .lsa ipDst now) :
    m.allocates e = true := by
  rcases he with rfl | rfl
  · rcases Machine.step_dsa h with ⟨_, _, ho⟩ | ⟨hv, _⟩
    · cases ho
    · exact hv
  · rcases Machine.step_lsa h with ⟨_, _, ho⟩ | ⟨hv, _⟩
    · cases ho
    · exact hv

theorem PortStep.mapped {request : Bytes} {now : Int} (h : PortStep m m' (.frame request now) out)
    (ha : m.allocates (.frame request now) = true) : m'.portToIp m.nextPort = some (word32 request 26) ∧
      m'.myPortToSrcPort m.nextPort = word16 request 34 := by
  cases h with
  | other hf => rw [ha] at hf; cases hf
  | own _ hne => exact absurd rfl (hne request now)
  | forward _ _ hp hq => exact ⟨by rw [hp, Function.update_self], by rw [hq, Function.update_self]⟩

theorem PortStep.portToIp_eq_of_own {e : Event} (h : PortStep m m' e out)
    (hne : ∀ data now, e ≠ .frame data now) : m'.portToIp = m.portToIp := by
  cases h with
  | other _ _ hp => exact hp
  | own _ _ _ hp => exact hp
  | forward => exact absurd rfl (hne _ _)

section Runs

variable {iface : Fin 2 → Interface} {info : Str} {m₀ : Machine} {x : Taken Machine Event (List Sent)}
  {h₁ h₂ : List (Taken Machine Event (List Sent))}

theorem exists_after (hi : Machine.initializeMachine iface info = some m₀)
    (hr : Run Machine.step m₀ (h₁ ++ x :: h₂) m) (hfit : m.srcPort ≤ 65536)
    (ha : x.before.allocates x.event = true) : ∃ t, PortStep x.before t x.event x.output ∧
      8000 ≤ x.before.nextPort ∧ x.before.nextPort.toNat < m.srcPort ∧
      x.before.portToIp x.before.nextPort = none ∧
      m.portToIp x.before.nextPort = t.portToIp x.before.nextPort ∧
      m.myPortToSrcPort x.before.nextPort = t.myPortToSrcPort x.before.nextPort := by
  obtain ⟨t, hr₁, he, hr₂⟩ := hr.split_at
  have hstep := Machine.step_ports he
  have hkeep := run_keepsPorts hr₂
  have hbelow := run_portsBelow hi hr₁
  have hsucc : t.srcPort = x.before.srcPort + 1 := by rw [hstep.srcPort_eq, ha, if_pos rfl]
  have hle := hkeep.srcPort_le
  have hport := Machine.toNat_nextPort (m := x.before) (by omega)
  have hmin := hbelow.service_le
  refine ⟨t, hstep, ?_, by omega, hbelow.unmapped (by omega), hkeep.portToIp_eq hfit _ (by omega),
    hkeep.myPortToSrcPort_eq hfit _ (by omega)⟩
  rw [UInt16.le_iff_toNat_le, hport]
  exact hmin

/-- The first part is about the port of a forwarded request, the second about the port
of an own packet; `m` is any later state and the maps are looked up there. -/
theorem reply_to_requester (hi : Machine.initializeMachine iface info = some m₀)
    (hr : Run Machine.step m₀ (h₁ ++ x :: h₂) m) (hfit : m.srcPort ≤ 65536) {sent : Sent}
    (ho : x.output = [sent]) {reply : Bytes} (hv : isValidPacket reply = some true) (hp : ipP reply = 17)
    (hport : portDst reply = portSrc sent.frame) (now : Int) :
    (∀ request requestTime mac, x.event = .frame request requestTime →
      portDst request = 1000 ∨ portDst request = 2000 →
      storedMac (h₁ ++ x :: h₂) (ipSrc request) = some mac →
      ∃ data, m.processFrame reply now = some (m, [⟨0, data⟩]) ∧ ReplyTo request reply data mac) ∧
    (∀ ipDst sendTime, x.event = .dsa ipDst sendTime ∨ x.event = .lsa ipDst sendTime →
      m.processFrame reply now = some (m, [])) := by
  have hu := validUdp_of_accepted hv hp
  obtain ⟨_, _, he, _⟩ := hr.split_at
  rw [ho] at he
  constructor
  · intro request requestTime mac hx hd hmac
    rw [hx] at he
    have ha := allocates_of_request he hd
    obtain ⟨t, hstep, hle, hlt, _, hk, hq⟩ := exists_after hi hr hfit (hx ▸ ha)
    rw [ho, hx] at hstep
    rw [hstep.portSrc_eq ha] at hport
    obtain ⟨hk', hq'⟩ := hstep.mapped ha
    rw [hk'] at hk
    rw [hq'] at hq
    have hm : m.ipToMac (swap32 (word32 request 26)) = some mac := (run_ipToMac hi hr _).trans hmac
    obtain ⟨data, hf, hw⟩ := processFrame_mapped now hu hport hle hlt hk hm
    exact ⟨data, hf, (hq ▸ hw).replyTo⟩
  · intro ipDst sendTime hx
    have ha := allocates_of_own he hx
    obtain ⟨t, hstep, hle, hlt, hfree, hk, _⟩ := exists_after hi hr hfit ha
    rw [ho] at hstep
    rw [hstep.portSrc_eq ha] at hport
    have hne : ∀ data now, x.event ≠ .frame data now := by
      rintro data now hf
      rw [hf] at hx
      exact hx.elim nofun nofun
    refine processFrame_unmapped hu (hport ▸ hle) ?_
    rw [hport, hk, hstep.portToIp_eq_of_own hne]
    exact hfree

theorem reply_to_requester_with_own_packet : ∃ m : Machine,
    (∃ data, m.processFrame (sampleUdp 0x08080808 0x0A000002 1000 8000) 0 = some (m, [⟨0, data⟩]) ∧
      ipDst data = 0xC0A80002 ∧ portDst data = 9000 ∧ readMac data 0 = ⟨2, 0, 0, 0, 1, 2⟩) ∧
    m.processFrame (sampleUdp 0x08080808 0x0A000002 1000 8001) 0 = some (m, []) := by
  obtain ⟨m₀, h, m, hi, hr, he, hfit, hmac, ho⟩ := Machine.reaches_by sampleIface sampleInfo
    [sampleAdvertisement 0xC0A80002 [], .frame (sampleUdp 0xC0A80002 0x08080808 9000 1000) 0,
      .dsa (ascii "8.8.8.8") 0]
    (fun m h => m.srcPort ≤ 65536 ∧ storedMac h 0xC0A80002 = some ⟨2, 0, 0, 0, 1, 2⟩ ∧
      h.map (fun x => x.output.map fun sent => portSrc sent.frame) = [[], [8000], [8001]]) (by decide +kernel)
  obtain ⟨x₁, h, rfl, _, he⟩ := List.map_eq_cons_iff.mp he
  obtain ⟨x₂, h, rfl, h₂, he⟩ := List.map_eq_cons_iff.mp he
  obtain ⟨x₃, h, rfl, h₃, he⟩ := List.map_eq_cons_iff.mp he
  obtain rfl := List.map_eq_nil_iff.mp he
  simp only [List.map_cons, List.map_nil, List.cons.injEq, and_true] at ho
  obtain ⟨_, ho₂, ho₃⟩ := ho
  obtain ⟨s₂, hs₂, hp₂⟩ := List.map_eq_singleton_iff.mp ho₂
  obtain ⟨s₃, hs₃, hp₃⟩ := List.map_eq_singleton_iff.mp ho₃
  have hreply : ∀ port : UInt16, port = 8000 ∨ port = 8001 →
      isValidPacket (sampleUdp 0x08080808 0x0A000002 1000 port) = some true ∧
      ipP (sampleUdp 0x08080808 0x0A000002 1000 port) = 17 ∧
      portDst (sampleUdp 0x08080808 0x0A000002 1000 port) = port := by
    rintro port (rfl | rfl) <;> decide +kernel
  obtain ⟨hv₂, hu₂, hd₂⟩ := hreply 8000 (Or.inl rfl)
  obtain ⟨hv₃, hu₃, hd₃⟩ := hreply 8001 (Or.inr rfl)
  have hrequest : portDst (sampleUdp 0xC0A80002 0x08080808 9000 1000) = 1000 ∧
      ipSrc (sampleUdp 0xC0A80002 0x08080808 9000 1000) = 0xC0A80002 ∧
      portSrc (sampleUdp 0xC0A80002 0x08080808 9000 1000) = 9000 := by decide +kernel
  obtain ⟨hd, hs, hp⟩ := hrequest
  have hr₂ : Run Machine.step m₀ ([x₁] ++ x₂ :: [x₃]) m := hr
  have hr₃ : Run Machine.step m₀ ([x₁, x₂] ++ x₃ :: []) m := hr
  obtain ⟨data, hf, hdata⟩ := (reply_to_requester hi hr₂ hfit hs₂ hv₂ hu₂
    (hd₂.trans hp₂.symm) 0).1 _ _ _ h₂ (Or.inl hd) (hs ▸ hmac)
  refine ⟨m, ⟨data, hf, hs ▸ hdata.ipDst_eq, hp ▸ hdata.portDst_eq, hdata.dhost_eq⟩, ?_⟩
  exact (reply_to_requester hi hr₃ hfit hs₃ hv₃ hu₃
    (hd₃.trans hp₃.symm) 0).2 _ _ (Or.inl h₃)

end Runs

end Overlay
