import Overlay.Interleaving
import Overlay.Network
import Overlay.Requesters

/-! All traffic between the nodes: advertisements, packets that leave by way of a peer, and
the replies that the peer hands back. On the link between the nodes a frame never causes
another one, so there are no loops, and a reply reaches the node whose packet it answers. -/

namespace Overlay

open ByteMemory Execution Interleaving

/-- What `processFrame` writes to the console about a UDP packet: `isDsa` for "DSA", else "LSA". -/
inductive Message
  | forwarded (isDsa : Bool) (ipDst : Str)
  | replyForwarded (isDsa : Bool) (ipSrc : Str)
  | replyReceived (isDsa : Bool) (port time : UInt16)
  deriving DecidableEq

namespace Machine

/-- The kind of packet by its port at the server, 1000 or 2000; none is printed otherwise. -/
def kindOf (port : UInt16) : Option Bool := if port = 1000 then some true else if port = 2000 then some false else none

def printed (m : Machine) (frame : Bytes) (now : Int) : Option Message :=
  let port := portDst frame
  if ¬ (isValidPacket frame = some true ∧ ipP frame = 17) ∨ port = 5000 then none
  else if port = 1000 ∨ port = 2000 then (kindOf port).map (.forwarded · (ipUintIntoStr (ipDst frame)))
  else if 8000 ≤ port ∧ port.toNat < m.srcPort then
    if (m.portToIp port).isSome then (kindOf (portSrc frame)).map (.replyForwarded · (ipUintIntoStr (ipSrc frame)))
    else (kindOf (portSrc frame)).map (.replyReceived · port (milliseconds (now - m.sentTimes port)))
  else none

end Machine

/-- The nodes on their link, interface 0. On its own a node takes its commands, and from the
gateway what is neither an advertisement nor a request. -/
def link : Parties Machine Event (List Sent) Bytes Int where
  step := Machine.step
  own e := e.advertiser.isNone && e.requester.isNone
  sends _ out := (out.filter fun sent => sent.iface = 0).map Sent.frame
  arrival := .frame

abbrev LinkMoment (ι : Type*) := Taken (World ι Machine Bytes) (Move ι Event Int) (List Sent)

def broadcast : Mac := ⟨255, 255, 255, 255, 255, 255⟩

/-! What one event of a node puts on the link. -/

inductive LinkSend (m : Machine) (e : Event) (data : Bytes) : Prop
  | advertise (ipDst : UInt32) (advertiseData : Bytes) : e = .advertise →
      data = (Machine.advertisePacket m.iface ipDst broadcast advertiseData).frame → LinkSend m e data
  | own (ipDst : Str) (now : Int) (nextHop : UInt32) (isDsa : Bool) (mac : Mac) :
      e = (if isDsa then .dsa ipDst now else .lsa ipDst now) → m.table.isServerValid ipDst = true →
      nextHop ≠ m.table.ipGateway.uint → m.ipToMac nextHop = some mac →
      data = m.udpPacket (ipIntoUint ipDst) nextHop isDsa (m.iface 0).mac mac → LinkSend m e data
  | reply (reply : Bytes) (now : Int) (address : UInt32) (mac : Mac) : e = .frame reply now → ValidUdp reply →
      8000 ≤ portDst reply → m.portToIp (portDst reply) = some address → m.ipToMac (swap32 address) = some mac →
      Rewritten reply data (m.iface 0).mac mac 36 (m.myPortToSrcPort (portDst reply)) 30 address → LinkSend m e data

section Step

variable {m m' : Machine} {e : Event} {out : List Sent} {frame : Bytes}

theorem linkSend_own {ipDst : Str} {now : Int} {nextHop : UInt32} {isDsa : Bool} {sent : Sent}
    (hv : m.table.isServerValid ipDst = true)
    (h : m.sendUdpPacket (ipIntoUint ipDst) nextHop isDsa now = some (m', sent)) (h₀ : sent.iface = 0) :
    LinkSend m (if isDsa then .dsa ipDst now else .lsa ipDst now) sent.frame := by
  obtain ⟨_, ⟨_, rfl⟩ | ⟨hg, mac, hm, rfl⟩⟩ := Machine.sendUdpPacket_cases h
  · cases h₀
  · exact .own ipDst now nextHop isDsa mac rfl hv hg hm rfl

theorem linkSend_of_step (h : m.step e = some (m', out)) {sent : Sent} (hm : sent ∈ out) (h₀ : sent.iface = 0) :
    LinkSend m e sent.frame := by
  cases e with
  | ping clock =>
    obtain ⟨rfl, rfl⟩ := Prod.mk.inj (Option.some.inj h)
    obtain ⟨i, _, rfl⟩ := List.mem_map.mp hm
    cases h₀
  | advertise =>
    obtain ⟨data, _, _, rfl⟩ := Machine.step_advertise h
    obtain rfl := List.mem_singleton.mp hm
    have hmac : macIntoByte (ascii "FF:FF:FF:FF:FF:FF") = broadcast := by decide +kernel
    rw [hmac]
    exact .advertise _ data rfl rfl
  | dsa ipDst now =>
    rcases Machine.step_dsa h with ⟨_, _, rfl⟩ | ⟨hv, sent', hs, rfl⟩
    · cases hm
    · obtain rfl := List.mem_singleton.mp hm
      exact linkSend_own hv hs h₀
  | lsa ipDst now =>
    rcases Machine.step_lsa h with ⟨_, _, rfl⟩ | ⟨hv, sent', hs, rfl⟩
    · cases hm
    · obtain rfl := List.mem_singleton.mp hm
      exact linkSend_own hv hs h₀
  | frame data now =>
    cases Machine.processFrame_cases h with
    | rejected _ => cases hm
    | echo _ _ => cases hm
    | advertisement _ _ _ => cases hm
    | forward _ _ hf =>
      obtain ⟨_, _, rfl, _⟩ := Machine.natForward_cases hf
      obtain rfl := List.mem_singleton.mp hm
      cases h₀
    | reply hu hle _ hk hr =>
      obtain ⟨_, mac, rewritten, hmac, hd, rfl⟩ := Machine.natReply_cases hr
      obtain rfl := List.mem_singleton.mp hm
      obtain ⟨rewritten', hd', hw⟩ := rewrite_eq (m.iface 0).mac mac (m.myPortToSrcPort (portDst data)) _
        hu.length_le (Or.inr rfl) (Or.inr rfl)
      rw [swap16_swap16, swap32_swap32] at hd
      obtain rfl := Option.some.inj (hd.symm.trans hd')
      exact .reply data now _ mac rfl hu hle hk hmac hw
    | ignored _ _ _ _ _ => cases hm

theorem etherShost_advertisePacket (iface : Fin 2 → Interface) (ipDst : UInt32) (macDst : Mac) (advertiseData : Bytes) :
    etherShost (Machine.advertisePacket iface ipDst macDst advertiseData).frame = (iface 0).mac := rfl

theorem udpPacket_fields (m : Machine) (ipDst : UInt32) {nextHop : UInt32} (isDsa : Bool) (etherShost etherDhost : Mac)
    (hg : nextHop ≠ m.table.ipGateway.uint) :
    let frame := m.udpPacket ipDst nextHop isDsa etherShost etherDhost
    portDst frame = (if isDsa then 1000 else 2000) ∧ ipSrc frame = (m.iface 0).ip := by
  have hs : word32 (m.udpPacket ipDst nextHop isDsa etherShost etherDhost) 26 =
      swap32 (m.iface (if decide (nextHop = m.table.ipGateway.uint) then 1 else 0)).ip := join32_bytes _
  constructor
  · exact Machine.portDst_udpPacket _ _ _ _ _
  · rw [ipSrc, hs, swap32_swap32]
    simp [hg]

/-- A port that a packet of the node's own went out with. -/
structure OwnPort (m : Machine) (port : UInt16) : Prop where
  service_le : 8000 ≤ port
  lt_srcPort : port.toNat < m.srcPort
  unmapped : m.portToIp port = none

theorem OwnPort.kept {port : UInt16} (h : OwnPort m port) (hk : KeepsPorts m m') (hfit : m'.srcPort ≤ 65536) :
    OwnPort m' port := by
  refine ⟨h.service_le, h.lt_srcPort.trans_le hk.srcPort_le, ?_⟩
  rw [hk.portToIp_eq hfit port h.lt_srcPort]
  exact h.unmapped

theorem LinkSend.ownPort (h : m.step e = some (m', out)) (hp : PortsBelow m) (hfit : m'.srcPort ≤ 65536)
    (he : m.allocates e = true) (hne : ∀ data now, e ≠ .frame data now) : OwnPort m' m.nextPort := by
  have hstep := Machine.step_ports h
  have hsucc : m'.srcPort = m.srcPort + 1 := by rw [hstep.srcPort_eq, he, if_pos rfl]
  have hport := Machine.toNat_nextPort (m := m) (by omega)
  have hle := hp.service_le
  refine ⟨?_, by omega, ?_⟩
  · rw [UInt16.le_iff_toNat_le, hport]
    exact hle
  · rw [hstep.portToIp_eq_of_own hne]
    exact hp.unmapped (by omega)

/-- What happens later to the times of the ports below the counter: nothing, as long as it fits. -/
structure KeepsTimes (m m' : Machine) : Prop where
  srcPort_le : m.srcPort ≤ m'.srcPort
  sentTimes_eq : m'.srcPort ≤ 65536 → ∀ port : UInt16, port.toNat < m.srcPort → m'.sentTimes port = m.sentTimes port

theorem KeepsTimes.trans {a b c : Machine} (h : KeepsTimes a b) (h' : KeepsTimes b c) : KeepsTimes a c := by
  refine ⟨h.srcPort_le.trans h'.srcPort_le, fun hc port hp => ?_⟩
  rw [h'.sentTimes_eq hc port (hp.trans_le h.srcPort_le), h.sentTimes_eq (h'.srcPort_le.trans hc) port hp]

theorem keepsTimes_of_eq (h : m.step e = some (m', out)) (ht : m'.sentTimes = m.sentTimes) : KeepsTimes m m' :=
  ⟨(Machine.step_ports h).keepsPorts.srcPort_le, fun _ _ _ => by rw [ht]⟩

theorem step_keepsTimes (h : m.step e = some (m', out)) : KeepsTimes m m' := by
  cases Machine.step_cases h with
  | ping clock => exact keepsTimes_of_eq h rfl
  | advertise _ => exact keepsTimes_of_eq h rfl
  | unknown _ _ => exact keepsTimes_of_eq h rfl
  | own _ _ hs =>
    obtain ⟨rfl, _⟩ := Machine.sendUdpPacket_cases hs
    refine ⟨Nat.le_succ _, fun hfit port hlt => Function.update_of_ne ?_ _ _⟩
    rintro rfl
    have hport := Machine.toNat_nextPort (m := m) (Nat.lt_of_succ_le hfit)
    exact Nat.lt_irrefl _ (hport ▸ hlt)
  | frame hf =>
    cases hf with
    | forward _ _ hf =>
      obtain ⟨_, _, _, rfl⟩ := Machine.natForward_cases hf
      exact keepsTimes_of_eq h rfl
    | reply _ _ _ _ hr => exact keepsTimes_of_eq h (by rw [(Machine.natReply_cases hr).1])
    | _ => exact keepsTimes_of_eq h rfl

theorem sentTimes_own {ipDst : Str} {now : Int} {sent : Sent} (he : e = .dsa ipDst now ∨ e = .lsa ipDst now)
    (h : m.step e = some (m', [sent])) : m'.sentTimes m.nextPort = now := by
  have hnew {nextHop : UInt32} {isDsa : Bool}
      (hs : m.sendUdpPacket (ipIntoUint ipDst) nextHop isDsa now = some (m', sent)) : m'.sentTimes m.nextPort = now := by
    obtain ⟨rfl, _⟩ := Machine.sendUdpPacket_cases hs
    exact Function.update_self ..
  rcases he with rfl | rfl
  · rcases Machine.step_dsa h with ⟨_, _, ho⟩ | ⟨_, sent', hs, ho⟩
    · cases ho
    · obtain rfl := (List.cons.inj ho).1
      exact hnew hs
  · rcases Machine.step_lsa h with ⟨_, _, ho⟩ | ⟨_, sent', hs, ho⟩
    · cases ho
    · obtain rfl := (List.cons.inj ho).1
      exact hnew hs

theorem printed_received {now : Int} (hv : isValidPacket frame = some true) (hp : ipP frame = 17)
    (ho : OwnPort m (portDst frame)) : m.printed frame now =
      (Machine.kindOf (portSrc frame)).map
        (.replyReceived · (portDst frame) (milliseconds (now - m.sentTimes (portDst frame)))) := by
  obtain ⟨h₁, h₂, h₃⟩ := service_ports ho.service_le
  simp [Machine.printed, hv, hp, h₁, h₂, h₃, ho.service_le, ho.lt_srcPort, ho.unmapped]

end Step

/-! What holds of the nodes and of the frames on the link. -/

section Link

variable {ι : Type*} {iface : ι → Fin 2 → Interface} {info : ι → Str}
  {w₀ w w' : World ι Machine Bytes} {p : ι} {frame : Bytes}

/-- Nodes that have just started and that their addresses on the link tell apart. -/
structure Linked (iface : ι → Fin 2 → Interface) (info : ι → Str) (w₀ : World ι Machine Bytes) : Prop where
  node : ∀ p, Machine.initializeMachine (iface p) (info p) = some (w₀.party p)
  pool_eq : w₀.pool = []
  address_inj : ∀ p q, (iface p 0).ip = (iface q 0).ip → p = q
  mac_inj : ∀ p q, (iface p 0).mac = (iface q 0).mac → p = q
  mac_ne_broadcast : ∀ p, (iface p 0).mac ≠ broadcast

/-- The link hands a frame to the node it is addressed to, or to all of them. -/
def Addressed (iface : ι → Fin 2 → Interface) (x : LinkMoment ι) : Prop :=
  match x.event with
  | .own _ _ => True
  | .deliver i k _ => ∀ message ∈ x.before.pool[k]?,
    readMac message.2 0 = (iface i 0).mac ∨ readMac message.2 0 = broadcast

instance (iface : ι → Fin 2 → Interface) (x : LinkMoment ι) :
    Decidable (Addressed iface x) :=
  match x with
  | ⟨_, .own _ _, _⟩ => isTrue trivial
  | ⟨w, .deliver i k _, _⟩ => inferInstanceAs (Decidable (∀ message ∈ w.pool[k]?,
      readMac message.2 0 = (iface i 0).mac ∨ readMac message.2 0 = broadcast))

theorem Addressed.receiver {x : LinkMoment ι} {i : ι} {k : Nat} {now : Int} (hx : Addressed iface x) (hev : x.event = .deliver i k now)
    (hk : x.before.pool[k]? = some (p, frame)) :
    readMac frame 0 = (iface i 0).mac ∨ readMac frame 0 = broadcast := by
  rw [Addressed, hev] at hx
  exact hx _ hk

inductive Carried (iface : ι → Fin 2 → Interface) (w : World ι Machine Bytes) (p : ι) (frame : Bytes) : Prop
  | advertisement : portDst frame = 5000 → ipSrc frame = (iface p 0).ip → etherShost frame = (iface p 0).mac →
      Carried iface w p frame
  | request : portDst frame = 1000 ∨ portDst frame = 2000 → ipSrc frame = (iface p 0).ip →
      OwnPort (w.party p) (portSrc frame) → Carried iface w p frame
  | reply (a : ι) : OwnPort (w.party a) (portDst frame) → readMac frame 0 = (iface a 0).mac → Carried iface w p frame

structure Sound (iface : ι → Fin 2 → Interface) (w : World ι Machine Bytes) : Prop where
  iface_eq : ∀ p, (w.party p).iface = iface p
  ports : ∀ p, PortsBelow (w.party p)
  carried : ∀ message ∈ w.pool, Carried iface w message.1 message.2
  stored : ∀ p ip mac, (w.party p).ipToMac ip = some mac → ∃ q, ip = (iface q 0).ip ∧ mac = (iface q 0).mac
  mapped : ∀ p port address, (w.party p).portToIp port = some address →
    ∃ a, swap32 address = (iface a 0).ip ∧ OwnPort (w.party a) (swap16 ((w.party p).myPortToSrcPort port))

theorem Carried.kept (h : Carried iface w p frame) (hk : ∀ q, KeepsPorts (w.party q) (w'.party q))
    (hfit : ∀ q, (w'.party q).srcPort ≤ 65536) : Carried iface w' p frame := by
  cases h with
  | advertisement hd hs hm => exact .advertisement hd hs hm
  | request hd hs ho => exact .request hd hs (ho.kept (hk p) (hfit p))
  | reply a ho hm => exact .reply a (ho.kept (hk a) (hfit a)) hm

theorem Linked.sound (hs : Linked iface info w₀) : Sound iface w₀ := by
  have hnode (p : ι) : (w₀.party p).iface = iface p ∧ (w₀.party p).ipToMac = fun _ => none := by
    obtain ⟨t, _, ht⟩ := Option.map_eq_some_iff.mp (hs.node p)
    rw [← ht]
    exact ⟨rfl, rfl⟩
  refine ⟨fun p => (hnode p).1, fun p => run_portsBelow (hs.node p) .start, ?_, fun p ip mac h => ?_, fun p port address h => ?_⟩
  · rw [hs.pool_eq]
    exact fun _ h => absurd h (by simp)
  · rw [(hnode p).2] at h
    cases h
  · rw [(srcPort_initial (hs.node p)).2] at h
    cases h

theorem Carried.own_of_le (hs : Linked iface info w₀) (h : Carried iface w p frame) {i : ι}
    (hto : readMac frame 0 = (iface i 0).mac ∨ readMac frame 0 = broadcast) (hle : 8000 ≤ portDst frame) :
    OwnPort (w.party i) (portDst frame) := by
  obtain ⟨h₁, h₂, h₃⟩ := service_ports hle
  cases h with
  | advertisement hd _ _ => exact absurd hd h₃
  | request hd _ _ => exact absurd hd (not_or.mpr ⟨h₁, h₂⟩)
  | reply a ho hm =>
    rcases hto with hto | hto
    · obtain rfl := hs.mac_inj a i (hm.symm.trans hto)
      exact ho
    · exact absurd (hm.symm.trans hto) (hs.mac_ne_broadcast a)

variable {mv : Move ι Event Int} {out : List Sent}

theorem link_turn {j : ι} {e : Event} (ht : link.turn w mv = some (j, e)) :
    mv = .own j e ∧ e.advertiser = none ∧ e.requester = none ∨
      ∃ k now q frame, mv = .deliver j k now ∧ w.pool[k]? = some (q, frame) ∧ e = .frame frame now := by
  rcases Parties.turn_cases ht with ⟨rfl, ho⟩ | ⟨k, now, q, frame, rfl, hk, rfl⟩
  · obtain ⟨ha, hr⟩ := Bool.and_eq_true_iff.mp ho
    exact Or.inl ⟨rfl, Option.isNone_iff_eq_none.mp ha, Option.isNone_iff_eq_none.mp hr⟩
  · exact Or.inr ⟨k, now, q, frame, rfl, hk, rfl⟩

/-- What a node does about a frame from the link stays off the link. -/
theorem delivered_off_link {x : LinkMoment ι} {i q : ι} {k : Nat} {now : Int} {s : Machine} (hw : Sound iface x.before) (hs : Linked iface info w₀) (hx : Addressed iface x)
    (hev : x.event = .deliver i k now) (hk : x.before.pool[k]? = some (q, frame))
    (he : (x.before.party i).step (.frame frame now) = some (s, x.output)) : ∀ sent ∈ x.output, sent.iface = 1 := by
  intro sent hm
  by_contra hne
  have h₀ : sent.iface = 0 := by
    have := sent.iface.isLt
    omega
  cases linkSend_of_step he hm h₀ with
  | advertise _ _ he => cases he
  | own _ _ _ isDsa _ he => cases isDsa <;> cases he
  | reply reply _ _ _ he _ hle hk' =>
    obtain ⟨rfl, rfl⟩ := Event.frame.inj he
    have hown := (hw.carried _ (List.mem_of_getElem? hk)).own_of_le hs (hx.receiver hev hk) hle
    rw [hown.unmapped] at hk'
    cases hk'

/-- A request or an advertisement that a node takes came over the link. -/
theorem exists_delivered {j : ι} {data : Bytes} {now : Int} (ht : link.turn w mv = some (j, .frame data now))
    (he : (Event.frame data now).advertiser ≠ none ∨ (Event.frame data now).requester ≠ none) :
    ∃ k q, mv = .deliver j k now ∧ w.pool[k]? = some (q, data) := by
  rcases link_turn ht with ⟨_, ha, hr⟩ | ⟨k, now', q, frame, rfl, hk, heq⟩
  · exact he.elim (absurd ha) (absurd hr)
  · obtain ⟨rfl, rfl⟩ := Event.frame.inj heq
    exact ⟨k, q, rfl, hk⟩

theorem LinkSend.carried {j : ι} {e : Event} {s : Machine} {data : Bytes} (h : LinkSend (w.party j) e data)
    (hw : Sound iface w) (hs : Linked iface info w₀) (hx : Addressed iface ⟨w, mv, out⟩)
    (ht : link.turn w mv = some (j, e)) (he : (w.party j).step e = some (s, out)) (hp : w'.party j = s)
    (hk : ∀ q, KeepsPorts (w.party q) (w'.party q)) (hfit : ∀ q, (w'.party q).srcPort ≤ 65536) :
    Carried iface w' j data := by
  cases h with
  | advertise ipDst advertiseData _ hd =>
    rw [hd]
    refine .advertisement (portDst_advertisePacket _ _ _ _) ?_ ?_
    · rw [ipSrc_advertisePacket, hw.iface_eq]
    · rw [etherShost_advertisePacket, hw.iface_eq]
  | own ipDst now nextHop isDsa mac hev hv hg _ hd =>
    rw [hd]
    obtain ⟨hport, hsrc⟩ := udpPacket_fields (w.party j) (ipIntoUint ipDst) isDsa ((w.party j).iface 0).mac mac hg
    have hown : OwnPort (w'.party j) (w.party j).nextPort := by
      rw [hp]
      refine LinkSend.ownPort he (hw.ports j) (hp ▸ hfit j) ?_ ?_
      · cases isDsa <;> rw [hev] <;> exact hv
      · intro data now hf
        cases isDsa <;> rw [hev] at hf <;> cases hf
    refine .request ?_ ?_ ?_
    · rw [hport]
      cases isDsa <;> simp
    · rw [hsrc, hw.iface_eq]
    · rw [Machine.portSrc_udpPacket]
      exact hown
  | reply reply now address mac hev hu hle hk' hm hr =>
    rcases link_turn ht with ⟨rfl, _, _⟩ | ⟨k, now', q, frame, rfl, hpool, hframe⟩
    · obtain ⟨a, haddr, hown⟩ := hw.mapped j _ _ hk'
      obtain ⟨b, hb, hmac⟩ := hw.stored j _ _ hm
      obtain rfl := hs.address_inj a b (haddr.symm.trans hb)
      refine .reply a ?_ (hr.dhost_eq.trans hmac)
      rw [portDst, hr.port_eq]
      exact hown.kept (hk a) (hfit a)
    · obtain ⟨rfl, rfl⟩ := Event.frame.inj (hev.symm.trans hframe)
      have hown := (hw.carried _ (List.mem_of_getElem? hpool)).own_of_le hs (hx.receiver rfl hpool) hle
      rw [hown.unmapped] at hk'
      cases hk'

/-- The address and MAC address that a node learns are both those of one peer. -/
theorem stored_step {j : ι} {e : Event} {s : Machine} (hw : Sound iface w) (ht : link.turn w mv = some (j, e))
    (he : (w.party j).step e = some (s, out)) {ip : UInt32} {mac : Mac} (h : s.ipToMac ip = some mac) :
    ∃ q, ip = (iface q 0).ip ∧ mac = (iface q 0).mac := by
  rw [step_ipToMac he] at h
  unfold Event.macAfter at h
  cases ha : e.advertiser with
  | none =>
    rw [ha] at h
    exact hw.stored j ip mac h
  | some r =>
    rw [ha] at h
    by_cases hr : r.1 = ip
    · simp only [hr, if_true, Option.some.injEq] at h
      cases e with
      | frame data now =>
        obtain ⟨k, q, rfl, hk⟩ := exists_delivered ht (Or.inl (by simp [ha]))
        simp only [Event.advertiser, Option.ite_none_right_eq_some, Option.some.injEq] at ha
        obtain ⟨⟨_, _, hport⟩, rfl⟩ := ha
        cases hw.carried _ (List.mem_of_getElem? hk) with
        | advertisement _ hsrc hmac => exact ⟨q, hr.symm.trans hsrc, h.symm.trans hmac⟩
        | request hd _ _ =>
          rw [hport] at hd
          exact absurd hd (by decide)
        | reply a ho _ => exact absurd hport (service_ports ho.service_le).2.2
      | _ => cases ha
    · simp only [hr, if_false] at h
      exact hw.stored j ip mac h

/-- A request that is forwarded came from a packet of the peer it is mapped to. -/
theorem mapped_step {j : ι} {e : Event} {s : Machine} (hw : Sound iface w) (ht : link.turn w mv = some (j, e))
    (he : (w.party j).step e = some (s, out)) {port : UInt16} {address : UInt32}
    (h : s.portToIp port = some address) :
    ∃ a, swap32 address = (iface a 0).ip ∧ OwnPort (w.party a) (swap16 (s.myPortToSrcPort port)) := by
  cases Machine.step_ports he with
  | other _ _ hpi hmy => exact hmy ▸ hw.mapped j port address (hpi ▸ h)
  | own _ _ _ hpi hmy => exact hmy ▸ hw.mapped j port address (hpi ▸ h)
  | @forward data now _ hal _ hpi hmy =>
    by_cases hport : port = (w.party j).nextPort
    · rw [hpi, hport, Function.update_self, Option.some.injEq] at h
      rw [hmy, hport, Function.update_self]
      have hr : (Event.frame data now).requester = some (ipSrc data) :=
        requester_eq_some.mpr ⟨data, now, rfl, hal, rfl⟩
      obtain ⟨k, q, rfl, hk⟩ := exists_delivered ht (Or.inr (by simp [hr]))
      have hd := (Machine.allocates_frame.mp hal).2
      cases hw.carried _ (List.mem_of_getElem? hk) with
      | advertisement hd' _ _ =>
        rw [hd'] at hd
        exact absurd hd (by decide)
      | request _ hsrc ho =>
        rw [← h]
        exact ⟨q, hsrc, ho⟩
      | reply a ho _ =>
        obtain ⟨h₁, h₂, _⟩ := service_ports ho.service_le
        exact absurd hd (not_or.mpr ⟨h₁, h₂⟩)
    · rw [hpi, Function.update_of_ne hport] at h
      rw [hmy, Function.update_of_ne hport]
      exact hw.mapped j port address h

variable [DecidableEq ι]

theorem link_cases (he : link.move w mv = some (w', out)) : ∃ j e, link.turn w mv = some (j, e) ∧
    (w.party j).step e = some (w'.party j, out) ∧ (∀ p, p ≠ j → w'.party p = w.party p) ∧
    w'.pool = w.pool ++ (link.sends e out).map fun data => (j, data) := by
  obtain ⟨j, e, s, hturn, hstep, rfl⟩ := Parties.move_cases he
  refine ⟨j, e, hturn, ?_, fun p hp => Function.update_of_ne hp _ _, rfl⟩
  show (w.party j).step e = some (Function.update w.party j s j, out)
  rw [Function.update_self]
  exact hstep

theorem keepsPorts_move (he : link.move w mv = some (w', out)) (q : ι) : KeepsPorts (w.party q) (w'.party q) := by
  obtain ⟨j, e, _, hstep, hother, _⟩ := link_cases he
  by_cases hq : q = j
  · rw [hq]
    exact (Machine.step_ports hstep).keepsPorts
  · rw [hother q hq]
    exact .refl _

theorem Sound.move (hw : Sound iface w) (hs : Linked iface info w₀) (hx : Addressed iface ⟨w, mv, out⟩)
    (he : link.move w mv = some (w', out)) (hfit : ∀ p, (w'.party p).srcPort ≤ 65536) : Sound iface w' := by
  have hkeeps := keepsPorts_move he
  obtain ⟨j, e, hturn, hstep, hother, hpool⟩ := link_cases he
  have hkept {a : ι} {d : UInt16} (ho : OwnPort (w.party a) d) : OwnPort (w'.party a) d := ho.kept (hkeeps a) (hfit a)
  refine ⟨fun p => ?_, fun p => ?_, fun message hm => ?_, fun p ip mac h => ?_, fun p port address h => ?_⟩
  · by_cases hp : p = j
    · rw [hp, step_iface hstep]
      exact hw.iface_eq j
    · rw [hother p hp]
      exact hw.iface_eq p
  · by_cases hp : p = j
    · rw [hp]
      exact (Machine.step_ports hstep).portsBelow (hw.ports j)
    · rw [hother p hp]
      exact hw.ports p
  · rw [hpool] at hm
    rcases List.mem_append.mp hm with hm | hm
    · exact (hw.carried message hm).kept hkeeps hfit
    · obtain ⟨data, hd, rfl⟩ := List.mem_map.mp hm
      obtain ⟨sent, hsent, rfl⟩ := List.mem_map.mp hd
      obtain ⟨hsent, h₀⟩ := List.mem_filter.mp hsent
      exact (linkSend_of_step hstep hsent (of_decide_eq_true h₀)).carried hw hs hx hturn hstep rfl hkeeps hfit
  · by_cases hp : p = j
    · rw [hp] at h
      exact stored_step hw hturn hstep h
    · rw [hother p hp] at h
      exact hw.stored p ip mac h
  · by_cases hp : p = j
    · rw [hp] at h ⊢
      obtain ⟨a, ha, ho⟩ := mapped_step hw hturn hstep h
      exact ⟨a, ha, hkept ho⟩
    · rw [hother p hp] at h ⊢
      obtain ⟨a, ha, ho⟩ := hw.mapped p port address h
      exact ⟨a, ha, hkept ho⟩

variable {h : List (LinkMoment ι)}

theorem run_keeps (hr : Run link.move w h w') (q : ι) : KeepsPorts (w.party q) (w'.party q) :=
  hr.relation (R := fun a b => KeepsPorts (a.party q) (b.party q)) (fun _ => .refl _) .trans
    fun he => keepsPorts_move he q

/-- A run of the nodes in which no counter of ports comes round. -/
structure LinkRun (iface : ι → Fin 2 → Interface) (info : ι → Str) (w₀ : World ι Machine Bytes)
    (h : List (LinkMoment ι)) (w : World ι Machine Bytes) : Prop where
  linked : Linked iface info w₀
  run : Run link.move w₀ h w
  addressed : ∀ x ∈ h, Addressed iface x
  fits : ∀ p, (w.party p).srcPort ≤ 65536

theorem LinkRun.before {h₁ h₂ : List (LinkMoment ι)} {x : LinkMoment ι}
    (hr : LinkRun iface info w₀ (h₁ ++ x :: h₂) w) : LinkRun iface info w₀ h₁ x.before := by
  obtain ⟨t, hr₁, he, hr₂⟩ := hr.run.split_at
  refine ⟨hr.linked, hr₁, fun y hy => hr.addressed y (List.mem_append_left _ hy), fun p => ?_⟩
  exact ((keepsPorts_move he p).trans (run_keeps hr₂ p)).srcPort_le.trans (hr.fits p)

theorem LinkRun.sound (hr : LinkRun iface info w₀ h w) : Sound iface w := by
  obtain ⟨hs, hrun, hx, hfit⟩ := hr
  induction hrun with
  | start => exact hs.sound
  | snoc hr he ih =>
    have hbefore (p : ι) := (keepsPorts_move he p).srcPort_le.trans (hfit p)
    exact (ih (fun x hm => hx x (List.mem_append_left _ hm)) hbefore).move hs (hx _ (by simp)) he hfit

/-! Where a frame on the link comes from. -/

theorem exists_mapping {m₀ m : Machine} {k : List (Taken Machine Event (List Sent))} {port : UInt16}
    {address : UInt32} (h₀ : m₀.portToIp = fun _ => none) (hr : Run Machine.step m₀ k m)
    (hk : m.portToIp port = some address) : ∃ k₁ y k₂ request now, k = k₁ ++ y :: k₂ ∧
      y.event = .frame request now ∧ y.before.allocates y.event = true ∧ y.before.nextPort = port ∧
      address = word32 request 26 ∧ m.myPortToSrcPort port = word16 request 34 := by
  induction hr with
  | start =>
    rw [h₀] at hk
    cases hk
  | @snoc k v u e o hr he ih =>
    have hold (hp : u.portToIp port = v.portToIp port) (hq : u.myPortToSrcPort port = v.myPortToSrcPort port) :
        ∃ k₁ y k₂ request now, k ++ [⟨v, e, o⟩] = k₁ ++ y :: k₂ ∧ y.event = .frame request now ∧
          y.before.allocates y.event = true ∧ y.before.nextPort = port ∧ address = word32 request 26 ∧
          u.myPortToSrcPort port = word16 request 34 := by
      obtain ⟨k₁, y, k₂, request, now, rfl, hy⟩ := ih (hp ▸ hk)
      exact ⟨k₁, y, k₂ ++ [⟨v, e, o⟩], request, now, by simp, hq ▸ hy⟩
    cases Machine.step_ports he with
    | other _ _ hp hq => exact hold (by rw [hp]) (by rw [hq])
    | own _ _ _ hp hq => exact hold (by rw [hp]) (by rw [hq])
    | @forward request now _ ha _ hp hq =>
      by_cases hport : port = v.nextPort
      · rw [hp, hport, Function.update_self, Option.some.injEq] at hk
        exact ⟨k, _, [], request, now, rfl, rfl, ha, hport.symm, hk.symm, by rw [hq, hport, Function.update_self]⟩
      · exact hold (by rw [hp, Function.update_of_ne hport]) (by rw [hq, Function.update_of_ne hport])

theorem LinkRun.origin (hr : LinkRun iface info w₀ h w) (hm : (p, frame) ∈ w.pool) :
    ∃ h₁ x h₂ e, h = h₁ ++ x :: h₂ ∧ link.turn x.before x.event = some (p, e) ∧
      (∃ s, (x.before.party p).step e = some (s, x.output)) ∧ ⟨0, frame⟩ ∈ x.output ∧
      LinkSend (x.before.party p) e frame := by
  obtain ⟨h₁, x, h₂, e, rfl, hturn, hsend⟩ := Parties.origin hr.run hr.linked.pool_eq hm
  obtain ⟨_, _, hmove, _⟩ := hr.run.split_at
  obtain ⟨j, e', hturn', hstep, _, _⟩ := link_cases hmove
  obtain ⟨rfl, rfl⟩ := Prod.mk.inj (Option.some.inj (hturn.symm.trans hturn'))
  obtain ⟨sent, hsent, rfl⟩ := List.mem_map.mp hsend
  obtain ⟨hsent, h₀⟩ := List.mem_filter.mp hsent
  obtain ⟨i, data⟩ := sent
  obtain rfl : i = 0 := of_decide_eq_true h₀
  exact ⟨h₁, x, h₂, e, rfl, hturn, ⟨_, hstep⟩, hsent, linkSend_of_step hstep hsent rfl⟩

/-- The way of a packet of `a` by way of the peer `q`: it is sent in `y` and forwarded in `z`,
and in `r` the peer hands the reply of the server back, as the frame `data`. -/
structure RoundTrip (iface : ι → Fin 2 → Interface) (y z r : LinkMoment ι) (a q : ι) (sendTime : Int)
    (request reply data : Bytes) : Prop where
  sends : ∃ ipDst, y.event = .own a (.dsa ipDst sendTime) ∨ y.event = .own a (.lsa ipDst sendTime)
  request_eq : y.output = [⟨0, request⟩]
  forwards : ∃ k now, z.event = .deliver q k now ∧ z.before.pool[k]? = some (a, request)
  forwarded : ∃ forwarded, z.output = [⟨1, forwarded⟩] ∧ portDst reply = portSrc forwarded
  answered : ∃ now, r.event = .own q (.frame reply now)
  data_eq : r.output = [⟨0, data⟩]
  replyTo : ReplyTo request reply data (iface a 0).mac

/-- A frame for a port of a peer is a reply that its sender handed back. -/
theorem LinkRun.handed (hr : LinkRun iface info w₀ h w) (hm : (p, frame) ∈ w.pool) (hle : 8000 ≤ portDst frame) :
    ∃ h₁ r h₂ reply now address mac, h = h₁ ++ r :: h₂ ∧ r.event = .own p (.frame reply now) ∧
      r.output = [⟨0, frame⟩] ∧ (r.before.party p).portToIp (portDst reply) = some address ∧
      (r.before.party p).ipToMac (swap32 address) = some mac ∧
      Rewritten reply frame ((r.before.party p).iface 0).mac mac 36
        ((r.before.party p).myPortToSrcPort (portDst reply)) 30 address := by
  obtain ⟨h₁, r, h₂, e, rfl, hturn, ⟨s, hstep⟩, hout, hsend⟩ := hr.origin hm
  have hw := hr.before.sound
  obtain ⟨h₃, h₄, h₅⟩ := service_ports hle
  cases hsend with
  | advertise _ _ _ hd =>
    rw [hd, portDst_advertisePacket] at h₅
    exact absurd rfl h₅
  | own ipDst now nextHop isDsa mac _ _ hg _ hd =>
    obtain ⟨hport, _⟩ := udpPacket_fields (r.before.party p) (ipIntoUint ipDst) isDsa
      ((r.before.party p).iface 0).mac mac hg
    rw [hd, hport] at h₃ h₄
    cases isDsa <;> simp at h₃ h₄
  | reply reply now address mac he hu hle' hk hmac hrw =>
    have hlt := (hw.ports p).mapped_lt (hr.before.fits p) _ _ hk
    obtain ⟨data, hf, _⟩ := processFrame_mapped now hu rfl hle' hlt hk hmac
    rw [he] at hstep
    obtain ⟨_, ho⟩ := Prod.mk.inj (Option.some.inj (hstep.symm.trans hf))
    rw [ho, List.mem_singleton] at hout
    rw [← hout] at ho
    rcases link_turn hturn with ⟨hev, _⟩ | ⟨k, now', q, data', hev, hpool, hframe⟩
    · exact ⟨h₁, r, h₂, reply, now, address, mac, rfl, he ▸ hev, ho, hk, hmac, hrw⟩
    · obtain ⟨rfl, rfl⟩ := Event.frame.inj (he.symm.trans hframe)
      have hoff := delivered_off_link hw hr.linked (hr.addressed r (by simp)) hev hpool hstep ⟨0, frame⟩ (by simp [ho])
      cases hoff

/-- A frame for the port 1000 or 2000 is a packet of its sender's own. -/
theorem LinkRun.requested (hr : LinkRun iface info w₀ h w) (hm : (p, frame) ∈ w.pool)
    (hd : portDst frame = 1000 ∨ portDst frame = 2000) :
    ∃ h₁ y h₂ e ipDst now, h = h₁ ++ y :: h₂ ∧ (e = .dsa ipDst now ∨ e = .lsa ipDst now) ∧ y.event = .own p e ∧
      y.output = [⟨0, frame⟩] ∧ (y.before.party p).allocates e = true ∧
      portSrc frame = (y.before.party p).nextPort ∧ ipSrc frame = (iface p 0).ip := by
  obtain ⟨h₁, y, h₂, e, rfl, hturn, ⟨s, hstep⟩, hout, hsend⟩ := hr.origin hm
  have hw := hr.before.sound
  cases hsend with
  | advertise _ _ _ hdata =>
    rw [hdata, portDst_advertisePacket] at hd
    exact absurd hd (by decide)
  | reply reply now address mac _ _ _ hk _ hrw =>
    obtain ⟨_, _, hown⟩ := hw.mapped p _ _ hk
    obtain ⟨h₃, h₄, _⟩ := service_ports hown.service_le
    rw [portDst, hrw.port_eq] at hd
    exact absurd hd (not_or.mpr ⟨h₃, h₄⟩)
  | own ipDst now nextHop isDsa mac he hv hg _ hdata =>
    obtain ⟨_, hsrc⟩ := udpPacket_fields (y.before.party p) (ipIntoUint ipDst) isDsa
      ((y.before.party p).iface 0).mac mac hg
    have he : e = .dsa ipDst now ∨ e = .lsa ipDst now := by cases isDsa <;> simp [he]
    have hev : y.event = .own p e := by
      rcases link_turn hturn with ⟨hev, _⟩ | ⟨_, _, _, _, _, _, hframe⟩
      · exact hev
      · rw [hframe] at he
        rcases he with he | he
        · cases he
        · cases he
    refine ⟨h₁, y, h₂, e, ipDst, now, rfl, he, hev, ?_, ?_, ?_, ?_⟩
    · have hone : ∃ sent, y.output = [sent] := by
        rcases he with rfl | rfl
        · rcases Machine.step_dsa hstep with ⟨hv', _⟩ | ⟨_, sent, _, ho⟩
          · rw [hv] at hv'
            cases hv'
          · exact ⟨sent, ho⟩
        · rcases Machine.step_lsa hstep with ⟨hv', _⟩ | ⟨_, sent, _, ho⟩
          · rw [hv] at hv'
            cases hv'
          · exact ⟨sent, ho⟩
      obtain ⟨sent, ho⟩ := hone
      rw [ho, List.mem_singleton] at hout
      rw [ho, hout]
    · rcases he with rfl | rfl
      · exact hv
      · exact hv
    · rw [hdata, Machine.portSrc_udpPacket]
    · rw [hdata, hsrc, hw.iface_eq]

/-- The request behind a mapped port came over the link and left towards the gateway. -/
theorem LinkRun.forwarded (hr : LinkRun iface info w₀ h w) {port : UInt16} {address : UInt32}
    (hk : (w.party p).portToIp port = some address) : ∃ h₁ z h₂ k now a request forwarded, h = h₁ ++ z :: h₂ ∧
      z.event = .deliver p k now ∧ z.before.pool[k]? = some (a, request) ∧ z.output = [⟨1, forwarded⟩] ∧
      portSrc forwarded = port ∧ (portDst request = 1000 ∨ portDst request = 2000) ∧ address = word32 request 26 ∧
      (w.party p).myPortToSrcPort port = word16 request 34 := by
  have hparty := Parties.run_party hr.run p
  obtain ⟨k₁, z', k₂, request, now, hsplit, hev, hal, hport, haddr, hmy⟩ :=
    exists_mapping (srcPort_initial (hr.linked.node p)).2 hparty hk
  obtain ⟨h₁, z, h₂, rfl, _, _, hturn, hbefore, _⟩ := Parties.history_split hsplit
  rw [hev] at hturn hal
  obtain ⟨hu, hd⟩ := Machine.allocates_frame.mp hal
  have hreq : (Event.frame request now).requester = some (ipSrc request) :=
    (requester_eq_some (m := z'.before)).mpr ⟨request, now, rfl, hal, rfl⟩
  obtain ⟨k, a, hzev, hpool⟩ := exists_delivered hturn (Or.inr (by simp [hreq]))
  obtain ⟨t, _, hmove, _⟩ := hr.run.split_at
  obtain ⟨j, e, hturn', hstep, _, _⟩ := link_cases hmove
  obtain ⟨rfl, rfl⟩ := Prod.mk.inj (Option.some.inj (hturn.symm.trans hturn'))
  obtain ⟨m', forwarded, hf, _⟩ := processFrame_request (z.before.party p) now hu hd
  obtain ⟨_, ho⟩ := Prod.mk.inj (Option.some.inj (hstep.symm.trans hf))
  rw [hbefore] at hal hport
  have hports := Machine.step_ports hstep
  rw [ho] at hports
  exact ⟨h₁, z, h₂, k, now, a, request, forwarded, rfl, hzev, hpool, ho, (hports.portSrc_eq hal).trans hport, hd,
    haddr, hmy⟩

theorem LinkRun.sentTimes_eq {h₁ h₂ : List (LinkMoment ι)} {y : LinkMoment ι} {a : ι} {e : Event} {ipDst : Str}
    {now : Int} (hr : LinkRun iface info w₀ (h₁ ++ y :: h₂) w) (he : e = .dsa ipDst now ∨ e = .lsa ipDst now)
    (hev : y.event = .own a e) {sent : Sent} (ho : y.output = [sent]) (hal : (y.before.party a).allocates e = true) :
    (w.party a).sentTimes (y.before.party a).nextPort = now := by
  obtain ⟨t, _, hmove, hr₂⟩ := hr.run.split_at
  obtain ⟨j, e', hturn, hstep, _, _⟩ := link_cases hmove
  have hje : j = a ∧ e' = e := by
    rcases link_turn hturn with ⟨hev', _⟩ | ⟨_, _, _, _, hev', _⟩
    · rw [hev] at hev'
      cases hev'
      exact ⟨rfl, rfl⟩
    · rw [hev] at hev'
      cases hev'
  obtain ⟨rfl, rfl⟩ := hje
  rw [ho] at hstep
  have hkeeps : KeepsTimes (t.party j) (w.party j) := (Parties.run_party hr₂ j).relation
    (fun _ => ⟨le_refl _, fun _ _ _ => rfl⟩) .trans fun he => step_keepsTimes he
  have hsucc : (t.party j).srcPort = (y.before.party j).srcPort + 1 := by
    rw [(Machine.step_ports hstep).srcPort_eq, hal, if_pos rfl]
  have hport := Machine.toNat_nextPort (m := y.before.party j) (hr.before.fits j |>.lt_of_ne ?_)
  · rw [hkeeps.sentTimes_eq (hr.fits j) _ (by omega)]
    exact sentTimes_own he hstep
  · have := hkeeps.srcPort_le.trans (hr.fits j)
    omega

/-- What a node gets back by way of a peer answers a packet it sent itself: it keeps the
frame for itself, and the time it prints is that since it sent the packet. -/
theorem reply_answers_own_packet {h₁ h₂ : List (LinkMoment ι)} {x : LinkMoment ι} {a : ι} {k : Nat} {now : Int}
    (hr : LinkRun iface info w₀ (h₁ ++ x :: h₂) w) (hev : x.event = .deliver a k now)
    (hk : x.before.pool[k]? = some (p, frame)) (hv : isValidPacket frame = some true) (hp : ipP frame = 17)
    (hle : 8000 ≤ portDst frame) :
    (x.before.party a).processFrame frame now = some (x.before.party a, []) ∧
    ∃ g₁ y g₂ z g₃ r g₄ sendTime request reply, h₁ = g₁ ++ y :: (g₂ ++ z :: (g₃ ++ r :: g₄)) ∧
      RoundTrip iface y z r a p sendTime request reply frame ∧
      (x.before.party a).printed frame now = (Machine.kindOf (portSrc reply)).map
        (.replyReceived · (portSrc request) (milliseconds (now - sendTime))) := by
  have hb := hr.before
  have hm := List.mem_of_getElem? hk
  have hto := (hr.addressed x (by simp)).receiver hev hk
  have hown := (hb.sound.carried _ hm).own_of_le hr.linked hto hle
  have hu := validUdp_of_accepted hv hp
  refine ⟨processFrame_unmapped hu hle hown.unmapped, ?_⟩
  obtain ⟨g, r, g₄, reply, replyTime, address, mac, rfl, hrev, hrout, hmapped, hmac, hrw⟩ := hb.handed hm hle
  have hb₁ := hb.before
  obtain ⟨g', z, g₃, k', forwardTime, a', request, forwarded, rfl, hzev, hzk, hzout, hzport, hd, rfl, hmy⟩ :=
    hb₁.forwarded hmapped
  have hb₂ := hb₁.before
  obtain ⟨g₁, y, g₂, e, ipDst, sendTime, rfl, he, hyev, hyout, hal, hyport, hsrc⟩ :=
    hb₂.requested (List.mem_of_getElem? hzk) hd
  -- the MAC address stored for the requester is its own, and the link handed the frame to it
  have hmac' : mac = (iface a' 0).mac := by
    obtain ⟨b, hb, hmacb⟩ := hb₁.sound.stored p _ _ hmac
    rw [hr.linked.address_inj a' b (hsrc.symm.trans hb)]
    exact hmacb
  have haa : a' = a := by
    rcases hto with hto | hto
    · exact hr.linked.mac_inj a' a (hmac'.symm.trans (hrw.dhost_eq.symm.trans hto))
    · exact absurd (hmac'.symm.trans (hrw.dhost_eq.symm.trans hto)) (hr.linked.mac_ne_broadcast a')
  subst haa
  rw [hmy] at hrw
  have hreply := hmac' ▸ hrw.replyTo
  have hassoc : (g₁ ++ y :: g₂) ++ z :: g₃ ++ r :: g₄ = g₁ ++ y :: (g₂ ++ z :: (g₃ ++ r :: g₄)) := by simp
  refine ⟨g₁, y, g₂, z, g₃, r, g₄, sendTime, request, reply, hassoc, ?_, ?_⟩
  · refine ⟨⟨ipDst, ?_⟩, hyout, ⟨k', forwardTime, hzev, hzk⟩, ⟨forwarded, hzout, hzport.symm⟩, ⟨replyTime, hrev⟩,
      hrout, hreply⟩
    rcases he with rfl | rfl
    · exact Or.inl hyev
    · exact Or.inr hyev
  · have htimes := (hassoc ▸ hb).sentTimes_eq he hyev hyout hal
    rw [printed_received hv hp hown, hreply.portSrc_eq, hreply.portDst_eq, ← htimes, hyport]

theorem sends_le_one {m m' : Machine} {e : Event} (h : m.step e = some (m', out)) : (link.sends e out).length ≤ 1 := by
  show ((out.filter fun sent => sent.iface = 0).map Sent.frame).length ≤ 1
  rw [List.length_map]
  cases Machine.step_cases h with
  | ping clock =>
    have hnone : (m.ping clock).2.filter (fun sent => sent.iface = 0) = [] := by
      refine List.filter_eq_nil_iff.mpr fun sent hs => ?_
      obtain ⟨i, _, rfl⟩ := List.mem_map.mp hs
      simp [Machine.icmpPacket]
    rw [hnone]
    exact Nat.zero_le 1
  | advertise _ => exact List.length_filter_le _ _
  | unknown _ _ => exact Nat.zero_le 1
  | own _ _ _ => exact List.length_filter_le _ _
  | frame hf =>
    refine (List.length_filter_le _ _).trans ?_
    cases hf with
    | forward _ _ hf =>
      obtain ⟨_, _, rfl, _⟩ := Machine.natForward_cases hf
      exact le_refl _
    | reply _ _ _ _ hr =>
      obtain ⟨_, _, _, _, _, rfl⟩ := Machine.natReply_cases hr
      exact le_refl _
    | _ => exact Nat.zero_le 1

def isOwn : Move ι Event Int → Bool
  | .own _ _ => true
  | .deliver _ _ _ => false

def ownMoves (h : List (LinkMoment ι)) : Nat := h.countP fun x => isOwn x.event

/-- A frame from the link never causes another one there: what a node does about it leaves
towards the gateway, and the link carries at most one frame for each command and each
frame from a gateway. -/
theorem link_without_loops (hr : LinkRun iface info w₀ h w) :
    (∀ x ∈ h, isOwn x.event = false → ∀ sent ∈ x.output, sent.iface = 1) ∧
      w.pool.length ≤ ownMoves h := by
  have hoff : ∀ x ∈ h, isOwn x.event = false → ∀ sent ∈ x.output, sent.iface = 1 := by
    intro x hx hown
    obtain ⟨h₁, h₂, rfl⟩ := List.append_of_mem hx
    obtain ⟨t, _, he, _⟩ := hr.run.split_at
    obtain ⟨j, e, hturn, hstep, _, _⟩ := link_cases he
    rcases link_turn hturn with ⟨hev, _⟩ | ⟨k, now, q, frame, hev, hk, rfl⟩
    · rw [hev] at hown
      cases hown
    · exact delivered_off_link hr.before.sound hr.linked (hr.addressed x (by simp)) hev hk hstep
  refine ⟨hoff, ?_⟩
  have hpool := hr.linked.pool_eq
  have hrun := hr.run
  clear hr
  induction hrun with
  | start => simp [hpool]
  | @snoc h t u mv o hrun he ih =>
    have hlen := ih (fun x hx => hoff x (List.mem_append_left _ hx))
    obtain ⟨j, e, hturn, hstep, _, hsends⟩ := link_cases he
    have hcount : ownMoves (h ++ [⟨t, mv, o⟩]) = ownMoves h + if isOwn mv then 1 else 0 := by
      rw [ownMoves, List.countP_append, List.countP_singleton]
      rfl
    rw [hsends, hcount, List.length_append, List.length_map]
    by_cases hown : isOwn mv = true
    · have hone := sends_le_one hstep
      rw [if_pos hown]
      omega
    · have hnone : link.sends e o = [] := by
        have hlast := hoff ⟨t, mv, o⟩ (by simp) (Bool.eq_false_iff.mpr hown)
        refine List.map_eq_nil_iff.mpr (List.filter_eq_nil_iff.mpr fun sent hs => ?_)
        rw [hlast sent hs]
        decide
      rw [hnone, if_neg hown]
      exact hlen

end Link

/-! Two nodes, of which one reaches the server by way of the other. -/

theorem twoLinked {m₀ m₁ : Machine} (h₀ : Machine.initializeMachine (twoIface false) sampleInfo = some m₀)
    (h₁ : Machine.initializeMachine (twoIface true) sampleInfo = some m₁) :
    Linked twoIface (fun _ => sampleInfo) ⟨fun p => if p then m₁ else m₀, []⟩ := by
  refine ⟨fun p => ?_, rfl, by decide, by decide, by decide⟩
  cases p
  · exact h₀
  · exact h₁

theorem exists_linkRun (moves : List (Move Bool Event Int))
    (P : World Bool Machine Bytes → List (LinkMoment Bool) → Prop) [∀ w h, Decidable (P w h)]
    (hp : ((Machine.initializeMachine (twoIface false) sampleInfo).bind fun m₀ =>
      (Machine.initializeMachine (twoIface true) sampleInfo).bind fun m₁ =>
        (exec link.move ⟨fun p => if p then m₁ else m₀, []⟩ moves).map fun r =>
          decide ((∀ x ∈ r.2, Addressed twoIface x) ∧ (∀ p, (r.1.party p).srcPort ≤ 65536) ∧ P r.1 r.2)) = some true) :
    ∃ w₀ h w, LinkRun twoIface (fun _ => sampleInfo) w₀ h w ∧ h.map (·.event) = moves ∧ P w h := by
  obtain ⟨m₀, h₀, hp⟩ := Option.bind_eq_some_iff.mp hp
  obtain ⟨m₁, h₁, hp⟩ := Option.bind_eq_some_iff.mp hp
  obtain ⟨⟨w, h⟩, he, hp⟩ := Option.map_eq_some_iff.mp hp
  obtain ⟨hx, hfit, hp⟩ := of_decide_eq_true hp
  exact ⟨_, h, w, ⟨twoLinked h₀ h₁, run_of_exec he, hx, hfit⟩, exec_events he, hp⟩

/-- The peer measures the server and advertises it; the node then sends it a packet, which
comes back with the reply of the server. -/
def twoMoves : List (Move Bool Event Int) :=
  [.own true (.ping fun _ => 0), .own true (sampleEcho 0x08080808 0 10000000), .own true .advertise, .deliver false 0 0,
    .own false .advertise, .deliver true 1 0, .own false (.dsa (ascii "8.8.8.8") 1000000), .deliver true 2 2000000,
    .own true (.frame (sampleUdp 0x08080808 0x0A000003 1000 8000) 3000000)]

theorem link_without_loops_by_way_of_peer : ∃ w₀ h w, LinkRun twoIface (fun _ => sampleInfo) w₀ h w ∧
    (∃ x ∈ h, isOwn x.event = false ∧ x.output ≠ []) ∧ w.pool.length = 4 ∧ ownMoves h = 6 ∧
    (∀ x ∈ h, isOwn x.event = false → ∀ sent ∈ x.output, sent.iface = 1) := by
  obtain ⟨w₀, h, w, hr, _, hx, hpool, hown⟩ := exists_linkRun twoMoves
    (fun w h => (∃ x ∈ h, isOwn x.event = false ∧ x.output.length ≠ 0) ∧ w.pool.length = 4 ∧ ownMoves h = 6)
    (by decide +kernel)
  obtain ⟨x, hm, hev, hout⟩ := hx
  exact ⟨w₀, h, w, hr, ⟨x, hm, hev, fun hn => hout (by rw [hn]; rfl)⟩, hpool, hown, (link_without_loops hr).1⟩

theorem reply_answers_own_packet_by_way_of_peer : ∃ m : Machine, ∃ frame,
    m.processFrame frame 5000000 = some (m, []) ∧ m.printed frame 5000000 = some (.replyReceived true 8000 4) ∧
    ∃ g₁ y g₂ z g₃ r g₄ request reply, (g₁ ++ y :: (g₂ ++ z :: (g₃ ++ r :: g₄))).map (·.event) = twoMoves ∧
      RoundTrip twoIface y z r false true 1000000 request reply frame ∧ portSrc request = 8000 := by
  obtain ⟨w₀, h, w, hr, hmoves, x, hx, ⟨q, frame⟩, hk, hfrom, hv, hp, hle, hprinted⟩ :=
    exists_linkRun (twoMoves ++ [.deliver false 3 5000000])
      (fun _ h => ∃ x ∈ h.getLast?, ∃ message ∈ x.before.pool[3]?, message.1 = true ∧
        isValidPacket message.2 = some true ∧ ipP message.2 = 17 ∧ 8000 ≤ portDst message.2 ∧
          (x.before.party false).printed message.2 5000000 = some (.replyReceived true 8000 4)) (by decide +kernel)
  obtain ⟨h₁, h₂, rfl, hfirst, hlast⟩ := List.map_eq_append_iff.mp hmoves
  obtain ⟨x', rfl, hev⟩ := List.map_eq_singleton_iff.mp hlast
  obtain rfl : x' = x := by simpa using hx
  obtain rfl : q = true := hfrom
  obtain ⟨hf, g₁, y, g₂, z, g₃, r, g₄, sendTime, request, reply, rfl, htrip, hprint⟩ :=
    reply_answers_own_packet hr hev hk hv hp hle
  -- the only own packet of the run is that of one second
  obtain ⟨ipDst, hsends⟩ := htrip.sends
  have hmem : y.event ∈ twoMoves := hfirst ▸ List.mem_map_of_mem (by simp)
  have htime : sendTime = 1000000 := by
    rcases hsends with hy | hy
    · rw [hy] at hmem
      have hsent : ipDst = ascii "8.8.8.8" ∧ sendTime = 1000000 := by
        simpa [twoMoves, sampleEcho, sampleUdp] using hmem
      exact hsent.2
    · rw [hy] at hmem
      simp [twoMoves] at hmem
  subst htime
  obtain ⟨_, _, hmessage⟩ := Option.map_eq_some_iff.mp (hprint.symm.trans hprinted)
  obtain ⟨-, hport, -⟩ := Message.replyReceived.inj hmessage
  exact ⟨_, _, hf, hprinted, g₁, y, g₂, z, g₃, r, g₄, request, reply, hfirst, htrip, hport⟩

end Overlay
