import Overlay.Acceptance

/-! Replies whose requester has no known MAC address. The map of ports is filled by
requests and the map of MAC addresses by advertisements, in whatever order they come. -/

namespace Overlay

open ByteMemory Execution OnesComplement

/-- The reply branch of `processFrame`: the port of the frame belongs to a peer. -/
def Machine.RepliesTo (m : Machine) (frame : Bytes) (ip : UInt32) : Prop :=
  isValidPacket frame = some true ∧ ipP frame = 17 ∧ 8000 ≤ portDst frame ∧
    (portDst frame).toNat < m.srcPort ∧ m.portToIp (portDst frame) = some ip

def Machine.RequestersKnown (m : Machine) : Prop :=
  ∀ reply ip, m.RepliesTo reply ip → ∃ mac, m.ipToMac (swap32 ip) = some mac

/-- The source address of a request that the node forwards. -/
def Event.requester : Event → Option UInt32
  | .frame data _ =>
    if isValidPacket data = some true ∧ ipP data = 17 ∧ (portDst data = 1000 ∨ portDst data = 2000) then
      some (ipSrc data)
    else none
  | _ => none

def Advertised (h : List (Taken Machine Event (List Sent))) (ip : UInt32) : Prop :=
  ∃ x ∈ h, ∃ mac, x.event.advertiser = some (ip, mac)

variable {m m' : Machine} {e : Event} {out : List Sent} {ip : UInt32}

theorem requester_eq_some : e.requester = some ip ↔ ∃ frame now, e = .frame frame now ∧
    m.allocates (.frame frame now) = true ∧ ip = ipSrc frame := by
  cases e with
  | frame data now =>
    simp only [Event.requester, Option.ite_none_right_eq_some, Option.some.injEq, Event.frame.injEq,
      Machine.allocates, decide_eq_true_eq]
    constructor
    · rintro ⟨hv, rfl⟩
      exact ⟨data, now, ⟨rfl, rfl⟩, hv, rfl⟩
    · rintro ⟨_, _, ⟨rfl, rfl⟩, hv, rfl⟩
      exact ⟨hv, rfl⟩
  | ping clock => simp [Event.requester]
  | advertise => simp [Event.requester]
  | dsa ipDst now => simp [Event.requester]
  | lsa ipDst now => simp [Event.requester]

theorem storedMac_snoc (h : List (Taken Machine Event (List Sent))) (x : Taken Machine Event (List Sent)) :
    storedMac (h ++ [x]) ip = x.event.macAfter ip (storedMac h ip) := List.foldl_concat ..

theorem macAfter_isSome {stored : Option Mac} :
    (∃ mac, e.macAfter ip stored = some mac) ↔
      (∃ mac, stored = some mac) ∨ ∃ mac, e.advertiser = some (ip, mac) := by
  unfold Event.macAfter
  cases ha : e.advertiser with
  | none => simp
  | some r =>
    obtain ⟨address, mac⟩ := r
    by_cases he : address = ip
    · simp [he]
    · simp [he]

theorem storedMac_isSome (h : List (Taken Machine Event (List Sent))) :
    (∃ mac, storedMac h ip = some mac) ↔ Advertised h ip := by
  induction h using List.reverseRecOn with
  | nil => simp [storedMac, Advertised]
  | append_singleton h x ih =>
    rw [storedMac_snoc, macAfter_isSome, ih]
    simp only [Advertised, List.mem_append, List.mem_singleton]
    constructor
    · rintro (⟨y, hy, hmac⟩ | hmac)
      · exact ⟨y, Or.inl hy, hmac⟩
      · exact ⟨x, Or.inr rfl, hmac⟩
    · rintro ⟨y, hy | rfl, hmac⟩
      · exact Or.inl ⟨y, hy, hmac⟩
      · exact Or.inr hmac

theorem sampleUdp_accepted (port : UInt16) :
    isValidPacket (sampleUdp 0x08080808 0x0A000002 1000 port) = some true ∧
      ipP (sampleUdp 0x08080808 0x0A000002 1000 port) = 17 ∧
      portDst (sampleUdp 0x08080808 0x0A000002 1000 port) = port := by
  refine ⟨?_, rfl, ?_⟩
  · rw [sampleUdp, List.append_assoc]
    exact (isValidPacket_built 4 rfl rfl rfl rfl rfl).mpr ⟨by decide, by decide⟩
  · have h : word16 (sampleUdp 0x08080808 0x0A000002 1000 port) 36 = swap16 port := join16_bytes _
    rw [portDst, h, swap16_swap16]

/-- The requester of every mapped service port has a known MAC address. -/
def Machine.MappedKnown (m : Machine) : Prop :=
  ∀ port ip, 8000 ≤ port → m.portToIp port = some ip → ∃ mac, m.ipToMac (swap32 ip) = some mac

theorem Machine.MappedKnown.requestersKnown (h : m.MappedKnown) : m.RequestersKnown :=
  fun _ ip hr => h _ ip hr.2.2.1 hr.2.2.2.2

theorem ipToMac_kept (h : m.step e = some (m', out)) (hk : ∃ mac, m.ipToMac ip = some mac) :
    ∃ mac, m'.ipToMac ip = some mac := by
  rw [step_ipToMac h, macAfter_isSome]
  exact Or.inl hk

/-- What a forwarded request needs for its reply, unless its port has wrapped below the
service ports. -/
def Machine.Answerable (m : Machine) (e : Event) : Prop :=
  ∀ ip, e.requester = some ip → (∃ mac, m.ipToMac ip = some mac) ∨ m.nextPort < 8000

theorem mappedKnown_step (h : m.step e = some (m', out)) (hm : m.MappedKnown) (he : m.Answerable e) :
    m'.MappedKnown := by
  intro port ip hle hk
  cases Machine.step_ports h with
  | other _ _ hp => exact ipToMac_kept h (hm port ip hle (hp ▸ hk))
  | own _ _ _ hp => exact ipToMac_kept h (hm port ip hle (hp ▸ hk))
  | @forward frame now _ ha _ hp =>
    by_cases hport : port = m.nextPort
    · rw [hp, hport, Function.update_self, Option.some.injEq] at hk
      have hr : (Event.frame frame now).requester = some (ipSrc frame) :=
        requester_eq_some.mpr ⟨frame, now, rfl, ha, rfl⟩
      rcases he _ hr with hmac | hlt
      · rw [← hk]
        exact ipToMac_kept h hmac
      · rw [hport] at hle
        exact absurd hlt (UInt16.not_lt.mpr hle)
    · rw [hp, Function.update_of_ne hport] at hk
      exact ipToMac_kept h (hm port ip hle hk)

theorem answerable_of_requestersKnown (h : m.step e = some (m', out)) (hm : m'.RequestersKnown) :
    m.Answerable e := by
  intro ip hr
  obtain ⟨frame, now, rfl, ha, rfl⟩ := (requester_eq_some (m := m)).mp hr
  by_cases hlt : m.nextPort < 8000
  · exact Or.inr hlt
  · have hle : 8000 ≤ m.nextPort := UInt16.not_lt.mp hlt
    have hnew : ∃ mac, m'.ipToMac (swap32 (word32 frame 26)) = some mac := by
      cases Machine.step_ports h with
      | other hf => rw [ha] at hf; cases hf
      | own _ hne => exact absurd rfl (hne frame now)
      | forward _ hs hp =>
        obtain ⟨hv, hudp, hport⟩ := sampleUdp_accepted m.nextPort
        have hbelow : m.nextPort.toNat < m'.srcPort := by
          have hle : m.nextPort.toNat ≤ m.srcPort := by
            rw [Machine.nextPort, UInt16.toNat_ofNat']
            exact Nat.mod_le _ _
          omega
        refine hm (sampleUdp 0x08080808 0x0A000002 1000 m.nextPort) (word32 frame 26) ⟨hv, hudp, ?_, ?_, ?_⟩
        · rwa [hport]
        · rwa [hport]
        · rw [hport, hp, Function.update_self]
    have hother : (Event.frame frame now).advertiser = none := by
      refine if_neg fun hadv => ?_
      have hd := (Machine.allocates_frame.mp ha).2
      rw [hadv.2.2] at hd
      exact absurd hd (by decide)
    rw [step_ipToMac h, macAfter_of_none hother] at hnew
    exact Or.inl hnew

section Runs

variable {iface : Fin 2 → Interface} {info : Str} {m₀ : Machine} {h : List (Taken Machine Event (List Sent))}

theorem toNat_nextPort_run (hi : Machine.initializeMachine iface info = some m₀) (hr : Run Machine.step m₀ h m) :
    m.nextPort.toNat = (8000 + allocations h) % 65536 := by
  rw [Machine.nextPort, UInt16.toNat_ofNat', run_srcPort hi hr]

/-- The condition is on the request alone: who sends it must have advertised before. -/
theorem requesters_known_iff (hi : Machine.initializeMachine iface info = some m₀)
    (hr : Run Machine.step m₀ h m) : Visits h m Machine.RequestersKnown ↔
      ∀ h₁ x h₂, h = h₁ ++ x :: h₂ → ∀ ip, x.event.requester = some ip →
        Advertised h₁ ip ∨ (8000 + allocations h₁) % 65536 < 8000 := by
  have hzero : m₀.MappedKnown := by
    intro port ip _ hk
    rw [(srcPort_initial hi).2] at hk
    cases hk
  have hanswer : (∀ x ∈ h, x.before.Answerable x.event) ↔ Visits h m Machine.RequestersKnown := by
    refine hr.visits_iff hzero Machine.MappedKnown.requestersKnown fun _ _ hm he => ⟨?_, ?_⟩
    · exact mappedKnown_step he hm
    · exact answerable_of_requestersKnown he
  have hcondition {h₁ h₂ : List (Taken Machine Event (List Sent))} {x : Taken Machine Event (List Sent)}
      (hx : h = h₁ ++ x :: h₂) : x.before.Answerable x.event ↔ ∀ ip, x.event.requester = some ip →
        Advertised h₁ ip ∨ (8000 + allocations h₁) % 65536 < 8000 := by
    obtain ⟨_, hr₁, _, _⟩ := (hx ▸ hr).split_at
    have hport : x.before.nextPort < 8000 ↔ (8000 + allocations h₁) % 65536 < 8000 := by
      rw [UInt16.lt_iff_toNat_lt, toNat_nextPort_run hi hr₁]
      rfl
    simp only [Machine.Answerable, hport, run_ipToMac hi hr₁, storedMac_isSome]
  rw [← hanswer]
  constructor
  · intro hc h₁ x h₂ hx
    exact (hcondition hx).mp (hc x (by rw [hx]; simp))
  · intro hc x hx
    obtain ⟨h₁, h₂, hx⟩ := List.append_of_mem hx
    exact (hcondition hx).mpr (hc h₁ x h₂ hx)

theorem requesters_known_advertised : ∃ m₀ h m, Machine.initializeMachine sampleIface sampleInfo = some m₀ ∧
    Run Machine.step m₀ h m ∧ (∃ x ∈ h, x.event.requester = some 0xC0A80002) ∧
    Visits h m Machine.RequestersKnown := by
  obtain ⟨m₀, h, m, hi, hr, ha, hq⟩ := Machine.reaches sampleIface sampleInfo
    [sampleAdvertisement 0xC0A80002 [], .frame (sampleUdp 0xC0A80002 0x08080808 9000 1000) 0]
    (fun _ h => h.map (·.event.advertiser) = [some (0xC0A80002, ⟨2, 0, 0, 0, 1, 2⟩), none] ∧
      h.map (·.event.requester) = [none, some 0xC0A80002]) (by decide +kernel)
  obtain ⟨x, h, rfl, hx, hq⟩ := List.map_eq_cons_iff.mp hq
  obtain ⟨y, rfl, hy⟩ := List.map_eq_singleton_iff.mp hq
  have hadv : x.event.advertiser = some (0xC0A80002, ⟨2, 0, 0, 0, 1, 2⟩) := (List.cons.inj ha).1
  refine ⟨m₀, _, m, hi, hr, ⟨y, by simp, hy⟩, (requesters_known_iff hi hr).mpr ?_⟩
  intro h₁ z h₂ hz ip hip
  rcases List.cons_eq_append_iff.mp hz with ⟨rfl, hx'⟩ | ⟨k, rfl, hk⟩
  · obtain ⟨rfl, _⟩ := List.cons.inj hx'
    rw [hx] at hip
    cases hip
  · rcases List.cons_eq_append_iff.mp hk with ⟨rfl, hy'⟩ | ⟨k', _, hk'⟩
    · obtain ⟨rfl, _⟩ := List.cons.inj hy'
      rw [hy, Option.some.injEq] at hip
      exact Or.inl ⟨x, by simp, _, hip ▸ hadv⟩
    · simp at hk'

/-- A peer that sends a request without having advertised: the reply is accepted, and its
copy reads the null pointer. -/
theorem requester_unknown : ∃ m₀ h m reply ip,
    Machine.initializeMachine sampleIface sampleInfo = some m₀ ∧ Run Machine.step m₀ h m ∧
    m.RepliesTo reply ip ∧ m.ipToMac (swap32 ip) = none ∧ m.step (.frame reply 0) = none := by
  obtain ⟨m₀, h, m, hi, hr, hk, hs, hm, hf⟩ := Machine.reaches sampleIface sampleInfo
    [.frame (sampleUdp 0xC0A80002 0x08080808 9000 1000) 0]
    (fun m _ => m.portToIp 8000 = some 0x0200A8C0 ∧ m.srcPort = 8001 ∧ m.ipToMac 0xC0A80002 = none ∧
      (m.step (.frame (sampleUdp 0x08080808 0x0A000002 1000 8000) 0)).isNone = true) (by decide +kernel)
  obtain ⟨hv, hp, hport⟩ := sampleUdp_accepted 8000
  refine ⟨m₀, h, m, sampleUdp 0x08080808 0x0A000002 1000 8000, 0x0200A8C0, hi, hr,
    ⟨hv, hp, ?_, ?_, ?_⟩, hm, Option.isNone_iff_eq_none.mp hf⟩
  · rw [hport]
    decide
  · rw [hport, hs]
    decide
  · rw [hport]
    exact hk

end Runs

end Overlay
