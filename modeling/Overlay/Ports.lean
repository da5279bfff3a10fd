import Overlay.Translation

/-! Source ports: own packets and forwarded requests draw on one counter, and a reply
finds its requester by the port alone. -/

namespace Overlay

open ByteMemory Execution

namespace Machine

def allocates (m : Machine) : Event → Bool
  | .ping _ => false
  | .advertise => false
  | .dsa ipDst _ => m.table.isServerValid ipDst
  | .lsa ipDst _ => m.table.isServerValid ipDst
  | .frame data _ => decide (isValidPacket data = some true ∧ ipP data = 17 ∧
      (portDst data = 1000 ∨ portDst data = 2000))

def nextPort (m : Machine) : UInt16 := UInt16.ofNat m.srcPort

end Machine

inductive PortStep (m m' : Machine) : Event → List Sent → Prop
  | other {e : Event} {out : List Sent} : m.allocates e = false → m'.srcPort = m.srcPort →
      m'.portToIp = m.portToIp → m'.myPortToSrcPort = m.myPortToSrcPort → PortStep m m' e out
  | own {e : Event} {sent : Sent} : m.allocates e = true → (∀ data now, e ≠ .frame data now) →
      m'.srcPort = m.srcPort + 1 → m'.portToIp = m.portToIp →
      m'.myPortToSrcPort = m.myPortToSrcPort → portSrc sent.frame = m.nextPort → PortStep m m' e [sent]
  | forward {frame : Bytes} {now : Int} {sent : Sent} : m.allocates (.frame frame now) = true →
      m'.srcPort = m.srcPort + 1 →
      m'.portToIp = Function.update m.portToIp m.nextPort (some (word32 frame 26)) →
      m'.myPortToSrcPort = Function.update m.myPortToSrcPort m.nextPort (word16 frame 34) →
      portSrc sent.frame = m.nextPort → PortStep m m' (.frame frame now) [sent]

namespace Machine

variable {m m' : Machine} {frame : Bytes} {out : List Sent}

theorem portSrc_udpPacket (ipDst nextHop : UInt32) (isDsa : Bool) (etherShost etherDhost : Mac) :
    portSrc (m.udpPacket ipDst nextHop isDsa etherShost etherDhost) = m.nextPort := by
  have h : word16 (m.udpPacket ipDst nextHop isDsa etherShost etherDhost) 34 = swap16 m.nextPort :=
    join16_bytes _
  rw [portSrc, h, swap16_swap16]

theorem portDst_udpPacket (ipDst nextHop : UInt32) (isDsa : Bool) (etherShost etherDhost : Mac) :
    portDst (m.udpPacket ipDst nextHop isDsa etherShost etherDhost) = if isDsa then 1000 else 2000 := by
  have h : word16 (m.udpPacket ipDst nextHop isDsa etherShost etherDhost) 36 =
      if isDsa then swap16 1000 else swap16 2000 := join16_bytes _
  rw [portDst, h]
  cases isDsa <;> simp [swap16_swap16]

theorem sendUdpPacket_ports {e : Event} {ipDst nextHop : UInt32} {isDsa : Bool} {now : Int} {sent : Sent}
    (ha : m.allocates e = true) (hf : ∀ data now, e ≠ .frame data now)
    (h : m.sendUdpPacket ipDst nextHop isDsa now = some (m', sent)) : PortStep m m' e [sent] := by
  obtain ⟨rfl, hs⟩ := sendUdpPacket_cases h
  refine .own ha hf rfl rfl rfl ?_
  rcases hs with ⟨_, rfl⟩ | ⟨_, mac, _, rfl⟩
  · exact portSrc_udpPacket _ _ _ _ _
  · exact portSrc_udpPacket _ _ _ _ _

theorem allocates_frame {now : Int} : m.allocates (.frame frame now) = true ↔
    ValidUdp frame ∧ (portDst frame = 1000 ∨ portDst frame = 2000) := by
  rw [allocates, decide_eq_true_eq]
  constructor
  · rintro ⟨hv, hp, hd⟩
    exact ⟨validUdp_of_accepted hv hp, hd⟩
  · rintro ⟨hu, hd⟩
    exact ⟨(isValidPacket_iff frame).mpr (Or.inl hu), hu.ipP_eq, hd⟩

theorem natForward_ports {now : Int} (hu : ValidUdp frame) (hp : portDst frame = 1000 ∨ portDst frame = 2000)
    (h : m.natForward frame = some (m', out)) : PortStep m m' (.frame frame now) out := by
  obtain ⟨data, hd, rfl, rfl⟩ := natForward_cases h
  obtain ⟨data', hd', hw⟩ := rewrite_eq (m.iface 1).mac m.macGateway (swap16 m.nextPort)
    (swap32 (m.iface 1).ip) hu.length_le (Or.inl rfl) (Or.inl rfl)
  obtain rfl := Option.some.inj (hd.symm.trans hd')
  refine .forward (allocates_frame.mpr ⟨hu, hp⟩) rfl rfl rfl ?_
  show swap16 (word16 data 34) = _
  rw [hw.port_eq, swap16_swap16]

theorem allocates_frame_false {now : Int} (h : ValidUdp frame → portDst frame ≠ 1000 ∧ portDst frame ≠ 2000) :
    m.allocates (.frame frame now) = false := by
  rw [← Bool.not_eq_true, allocates_frame]
  rintro ⟨hu, hp⟩
  exact hp.elim (h hu).1 (h hu).2

theorem step_ports {e : Event} (h : m.step e = some (m', out)) : PortStep m m' e out := by
  cases step_cases h with
  | ping clock => exact .other rfl rfl rfl rfl
  | advertise _ => exact .other rfl rfl rfl rfl
  | unknown he hv => exact .other (by rcases he with rfl | rfl <;> exact hv) rfl rfl rfl
  | own he hv hs =>
    rcases he with rfl | rfl
    · exact sendUdpPacket_ports hv (fun _ _ => nofun) hs
    · exact sendUdpPacket_ports hv (fun _ _ => nofun) hs
  | frame hf =>
    cases hf with
    | rejected hv =>
      exact .other (allocates_frame_false fun hu => absurd hu (not_validUdp_of_rejected hv)) rfl rfl rfl
    | echo hi ht => exact .other (allocates_frame_false fun hu => absurd hu hi.not_validUdp) rfl rfl rfl
    | advertisement hu hp ht =>
      refine .other (allocates_frame_false fun _ => ?_) rfl rfl rfl
      rw [hp]
      decide
    | forward hu hp hf => exact natForward_ports hu hp hf
    | reply hu h₁ h₂ hk hr =>
      obtain ⟨rfl, _⟩ := natReply_cases hr
      obtain ⟨hp₁, hp₂, _⟩ := service_ports h₁
      exact .other (allocates_frame_false fun _ => ⟨hp₁, hp₂⟩) rfl rfl rfl
    | ignored hu h₁ h₂ h₃ => exact .other (allocates_frame_false fun _ => ⟨h₂, h₃⟩) rfl rfl rfl

end Machine

def allocations (h : List (Taken Machine Event (List Sent))) : Nat :=
  h.countP fun x => x.before.allocates x.event

theorem allocations_snoc (h : List (Taken Machine Event (List Sent))) (x : Taken Machine Event (List Sent)) :
    allocations (h ++ [x]) = allocations h + if x.before.allocates x.event then 1 else 0 := by
  rw [allocations, List.countP_append, List.countP_singleton]
  rfl

/-- A mapped port lies below the counter, as long as the counter fits. -/
structure PortsBelow (m : Machine) : Prop where
  service_le : 8000 ≤ m.srcPort
  mapped_lt : m.srcPort ≤ 65536 → ∀ port address, m.portToIp port = some address → port.toNat < m.srcPort

/-- What happens later to the ports below the counter: nothing, as long as it fits. -/
structure KeepsPorts (m m' : Machine) : Prop where
  srcPort_le : m.srcPort ≤ m'.srcPort
  portToIp_eq : m'.srcPort ≤ 65536 → ∀ port : UInt16, port.toNat < m.srcPort → m'.portToIp port = m.portToIp port
  myPortToSrcPort_eq : m'.srcPort ≤ 65536 → ∀ port : UInt16, port.toNat < m.srcPort →
    m'.myPortToSrcPort port = m.myPortToSrcPort port

theorem Machine.toNat_nextPort {m : Machine} (h : m.srcPort < 65536) : m.nextPort.toNat = m.srcPort := by
  rw [nextPort, UInt16.toNat_ofNat']
  exact Nat.mod_eq_of_lt h

theorem KeepsPorts.refl (m : Machine) : KeepsPorts m m :=
  ⟨Nat.le_refl _, fun _ _ _ => rfl, fun _ _ _ => rfl⟩

theorem KeepsPorts.trans {a b c : Machine} (h : KeepsPorts a b) (h' : KeepsPorts b c) : KeepsPorts a c := by
  refine ⟨h.srcPort_le.trans h'.srcPort_le, fun hc port hp => ?_, fun hc port hp => ?_⟩
  · rw [h'.portToIp_eq hc port (hp.trans_le h.srcPort_le),
      h.portToIp_eq (h'.srcPort_le.trans hc) port hp]
  · rw [h'.myPortToSrcPort_eq hc port (hp.trans_le h.srcPort_le),
      h.myPortToSrcPort_eq (h'.srcPort_le.trans hc) port hp]

section Step

variable {m m' : Machine} {e : Event} {out : List Sent}

theorem PortStep.srcPort_eq (h : PortStep m m' e out) :
    m'.srcPort = m.srcPort + if m.allocates e then 1 else 0 := by
  cases h with
  | other ha hs => rw [hs, ha]; rfl
  | own ha _ hs => rw [hs, ha]; rfl
  | forward ha hs => rw [hs, ha]; rfl

theorem PortStep.keepsPorts (h : PortStep m m' e out) : KeepsPorts m m' := by
  cases h with
  | other _ hs hp hq => exact ⟨hs.ge, fun _ _ _ => by rw [hp], fun _ _ _ => by rw [hq]⟩
  | own _ _ hs hp hq => exact ⟨by omega, fun _ _ _ => by rw [hp], fun _ _ _ => by rw [hq]⟩
  | forward _ hs hp hq =>
    have hne (hfit : m'.srcPort ≤ 65536) (port : UInt16) (hlt : port.toNat < m.srcPort) : port ≠ m.nextPort := by
      intro he
      rw [he, Machine.toNat_nextPort (by omega)] at hlt
      exact Nat.lt_irrefl _ hlt
    refine ⟨by omega, fun hfit port hlt => ?_, fun hfit port hlt => ?_⟩
    · rw [hp, Function.update_of_ne (hne hfit port hlt)]
    · rw [hq, Function.update_of_ne (hne hfit port hlt)]

theorem PortStep.portsBelow (h : PortStep m m' e out) (hm : PortsBelow m) : PortsBelow m' := by
  have hle := hm.service_le
  cases h with
  | other _ hs hp =>
    exact ⟨by omega, fun hfit port address hk => hs ▸ hm.mapped_lt (by omega) port address (hp ▸ hk)⟩
  | own _ _ hs hp =>
    refine ⟨by omega, fun hfit port address hk => ?_⟩
    have := hm.mapped_lt (by omega) port address (hp ▸ hk)
    omega
  | forward _ hs hp =>
    refine ⟨by omega, fun hfit port address hk => ?_⟩
    by_cases he : port = m.nextPort
    · rw [he, Machine.toNat_nextPort (by omega)]
      omega
    · rw [hp, Function.update_of_ne he] at hk
      have := hm.mapped_lt (by omega) port address hk
      omega

end Step

section Runs

variable {iface : Fin 2 → Interface} {info : Str} {m₀ m m' : Machine}
  {h : List (Taken Machine Event (List Sent))}

theorem run_keepsPorts (hr : Run Machine.step m h m') : KeepsPorts m m' :=
  hr.relation KeepsPorts.refl KeepsPorts.trans fun he => (Machine.step_ports he).keepsPorts

theorem srcPort_initial (hi : Machine.initializeMachine iface info = some m₀) :
    m₀.srcPort = 8000 ∧ m₀.portToIp = fun _ => none := by
  obtain ⟨t, _, rfl⟩ := Option.map_eq_some_iff.mp hi
  exact ⟨rfl, rfl⟩

theorem run_portsBelow (hi : Machine.initializeMachine iface info = some m₀) (hr : Run Machine.step m₀ h m) :
    PortsBelow m := by
  obtain ⟨hs, hp⟩ := srcPort_initial hi
  refine hr.invariant (P := PortsBelow) ⟨hs.ge, fun _ port address hk => ?_⟩ fun hm he =>
    (Machine.step_ports he).portsBelow hm
  rw [hp] at hk
  cases hk

theorem run_srcPort (hi : Machine.initializeMachine iface info = some m₀) (hr : Run Machine.step m₀ h m) :
    m.srcPort = 8000 + allocations h := by
  induction hr with
  | start => exact (srcPort_initial hi).1
  | snoc hr he ih =>
    rw [(Machine.step_ports he).srcPort_eq, allocations_snoc, ih, Nat.add_assoc]

end Runs

/-- What an allocation should do: its port is none of the service ports, a reply to it
passes the test of `processFrame`, and it belongs to nobody yet. -/
structure FreshPort (m m' : Machine) (sent : Sent) : Prop where
  service_le : 8000 ≤ portSrc sent.frame
  lt_srcPort : (portSrc sent.frame).toNat < m'.srcPort
  unmapped : m.portToIp (portSrc sent.frame) = none
  kept : ∀ port address, m.portToIp port = some address →
    m'.portToIp port = some address ∧ m'.myPortToSrcPort port = m.myPortToSrcPort port
  key_eq : ∀ port, m'.portToIp port ≠ m.portToIp port → port = portSrc sent.frame

theorem PortsBelow.unmapped {m : Machine} (hm : PortsBelow m) (hlt : m.srcPort < 65536) :
    m.portToIp m.nextPort = none := by
  rw [Option.eq_none_iff_forall_ne_some]
  intro address hk
  have h := hm.mapped_lt hlt.le _ _ hk
  rw [Machine.toNat_nextPort hlt] at h
  exact Nat.lt_irrefl _ h

theorem PortStep.fresh {m m' : Machine} {e : Event} {out : List Sent} (h : PortStep m m' e out)
    (ha : m.allocates e = true) (hm : PortsBelow m) (hlt : m.srcPort < 65536) :
    ∃ sent, out = [sent] ∧ FreshPort m m' sent := by
  have hport := Machine.toNat_nextPort hlt
  have hle : 8000 ≤ m.nextPort := by
    rw [UInt16.le_iff_toNat_le, hport]
    exact hm.service_le
  have hfree := hm.unmapped hlt
  cases h with
  | other hf => rw [ha] at hf; cases hf
  | @own _ sent _ _ hs hp hq hsrc =>
    refine ⟨sent, rfl, ⟨hsrc ▸ hle, by rw [hsrc]; omega, hsrc ▸ hfree, fun port address hk => ?_, ?_⟩⟩
    · rw [hp, hq]
      exact ⟨hk, rfl⟩
    · intro port hne
      rw [hp] at hne
      exact absurd rfl hne
  | @forward frame now sent _ hs hp hq hsrc =>
    refine ⟨sent, rfl, ⟨hsrc ▸ hle, by rw [hsrc]; omega, hsrc ▸ hfree, fun port address hk => ?_, ?_⟩⟩
    · have hne : port ≠ m.nextPort := by
        intro he
        rw [he, hfree] at hk
        cases hk
      rw [hp, hq, Function.update_of_ne hne, Function.update_of_ne hne]
      exact ⟨hk, rfl⟩
    · intro port hne
      by_contra he
      rw [hp, Function.update_of_ne (hsrc ▸ he)] at hne
      exact hne rfl

theorem PortStep.portSrc_eq {m m' : Machine} {e : Event} {sent : Sent} (h : PortStep m m' e [sent])
    (ha : m.allocates e = true) : portSrc sent.frame = m.nextPort := by
  cases h with
  | other hf => rw [ha] at hf; cases hf
  | own _ _ _ _ _ hsrc => exact hsrc
  | forward _ _ _ _ hsrc => exact hsrc

section Runs

variable {iface : Fin 2 → Interface} {info : Str} {m₀ m : Machine}
  {h : List (Taken Machine Event (List Sent))}

theorem exists_last_port (hi : Machine.initializeMachine iface info = some m₀)
    (hr : Run Machine.step m₀ h m) (hn : 57536 < allocations h) :
    ∃ x ∈ h, x.before.allocates x.event = true ∧ x.before.srcPort = 65536 ∧
      ∃ m', x.before.step x.event = some (m', x.output) := by
  obtain ⟨h₁, x, h₂, rfl, ha, hcount⟩ := exists_at_count hn
  obtain ⟨m', hr₁, he, _⟩ := hr.split_at
  refine ⟨x, by simp, ha, ?_, m', he⟩
  rw [run_srcPort hi hr₁, allocations, hcount]

/-- The ports are used up after 57536 allocations, and only then does one go wrong. -/
theorem ports_fresh_iff (hi : Machine.initializeMachine iface info = some m₀)
    (hr : Run Machine.step m₀ h m) :
    (∀ x ∈ h, x.before.allocates x.event = true → ∀ m', x.before.step x.event = some (m', x.output) →
      ∃ sent, x.output = [sent] ∧ FreshPort x.before m' sent) ↔ allocations h ≤ 57536 := by
  constructor
  · intro hall
    by_contra hn
    obtain ⟨x, hx, ha, hs, m', he⟩ := exists_last_port hi hr (Nat.lt_of_not_le hn)
    obtain ⟨sent, ho, hf⟩ := hall x hx ha m' he
    have hstep := Machine.step_ports he
    rw [ho] at hstep
    have hle := hf.service_le
    rw [hstep.portSrc_eq ha, Machine.nextPort, hs] at hle
    exact absurd hle (by decide)
  · intro hn x hx ha m' he
    obtain ⟨h₁, h₂, rfl⟩ := List.append_of_mem hx
    obtain ⟨_, hr₁, _, _⟩ := hr.split_at
    refine (Machine.step_ports he).fresh ha (run_portsBelow hi hr₁) ?_
    have hcount : allocations (h₁ ++ x :: h₂) = allocations h₁ + (allocations h₂ + 1) := by
      simp only [allocations, List.countP_append, List.countP_cons, ha, if_true]
    rw [run_srcPort hi hr₁]
    omega

theorem ports_fresh_at_first : ∃ m₀ h m, Machine.initializeMachine sampleIface sampleInfo = some m₀ ∧
    Run Machine.step m₀ h m ∧ allocations h = 2 ∧
    ∀ x ∈ h, x.before.allocates x.event = true → ∀ m', x.before.step x.event = some (m', x.output) →
      ∃ sent, x.output = [sent] ∧ FreshPort x.before m' sent := by
  obtain ⟨m₀, h, m, hi, hr, hn⟩ := Machine.reaches sampleIface sampleInfo
    [.frame (sampleUdp 0xC0A80002 0x08080808 9000 1000) 0, .dsa (ascii "8.8.8.8") 0]
    (fun _ h => allocations h = 2) (by decide +kernel)
  exact ⟨m₀, h, m, hi, hr, hn, (ports_fresh_iff hi hr).mpr (by omega)⟩

theorem step_dsa_gateway {ipDst : Str} (now : Int) (hv : m.table.isServerValid ipDst = true)
    (hg : (m.dsaNextHop ipDst).uint = m.table.ipGateway.uint) : ∃ sent,
    m.step (.dsa ipDst now) = some (m.allocateOwn now, [sent]) := by
  refine ⟨⟨1, m.udpPacket (ipIntoUint ipDst) m.table.ipGateway.uint true (m.iface 1).mac m.macGateway⟩, ?_⟩
  simp only [Machine.step, hv, if_true, Machine.sendDsaPacket, Machine.sendUdpPacket, hg, Option.map_some]

theorem exists_own_packets {ipDst : Str} (hv : m.table.isServerValid ipDst = true)
    (hg : (m.dsaNextHop ipDst).uint = m.table.ipGateway.uint) (n : Nat) :
    ∃ h m', Run Machine.step m h m' ∧ h.length = n ∧ m'.table = m.table ∧ m'.srcPort = m.srcPort + n := by
  induction n with
  | zero => exact ⟨[], m, .start, rfl, rfl, rfl⟩
  | succ n ih =>
    obtain ⟨h, m', hr, hl, ht, hs⟩ := ih
    have hg' : (m'.dsaNextHop ipDst).uint = m'.table.ipGateway.uint := by
      rw [Machine.dsaNextHop, ht]
      exact hg
    obtain ⟨sent, he⟩ := step_dsa_gateway 0 (ht ▸ hv) hg'
    refine ⟨_, _, hr.snoc he, by rw [List.length_append, hl, List.length_singleton], ht, ?_⟩
    show m'.srcPort + 1 = _
    omega

/-- The own packet after 57536 others goes out with source port 0. -/
theorem port_zero_after_57536 : ∃ m₀ h m, Machine.initializeMachine sampleIface sampleInfo = some m₀ ∧
    Run Machine.step m₀ h m ∧ h.length = 57537 ∧
    ∃ x ∈ h, x.before.allocates x.event = true ∧ ∃ sent, x.output = [sent] ∧ portSrc sent.frame = 0 := by
  obtain ⟨m₀, h₀, m, hi, hr₀, hl₀, hs₀, hv, hg⟩ := Machine.reaches sampleIface sampleInfo []
    (fun m h => h.length = 0 ∧ m.srcPort = 8000 ∧ m.table.isServerValid (ascii "8.8.8.8") = true ∧
      (m.dsaNextHop (ascii "8.8.8.8")).uint = m.table.ipGateway.uint) (by decide +kernel)
  obtain ⟨h, m', hr, hl, ht, hs⟩ := exists_own_packets hv hg 57536
  have hg' : (m'.dsaNextHop (ascii "8.8.8.8")).uint = m'.table.ipGateway.uint := by
    rw [Machine.dsaNextHop, ht]
    exact hg
  have hv' : m'.allocates (.dsa (ascii "8.8.8.8") 0) = true := by
    show m'.table.isServerValid _ = true
    rw [ht]
    exact hv
  obtain ⟨sent, he⟩ := step_dsa_gateway 0 hv' hg'
  refine ⟨m₀, _, _, hi, (hr₀.trans hr).snoc he, ?_, ⟨m', .dsa (ascii "8.8.8.8") 0, [sent]⟩, by simp, hv',
    sent, rfl, ?_⟩
  · simp only [List.length_append, List.length_singleton]
    omega
  · rw [(Machine.step_ports he).portSrc_eq hv', Machine.nextPort, hs, hs₀]
    decide

end Runs

end Overlay
