import Overlay.Routes
import Overlay.Ports

/-! Where an own packet goes. The frame leaves on the interface and for the MAC address of a
next hop: the one of the row that `ip_to_id` gives for the destination. -/

namespace Overlay

open ByteMemory Execution

def RoutingInfo.nextHop (route : RoutingInfo) (isDsa : Bool) : UInt32 :=
  if isDsa then route.ipNextHopRtt.uint else route.ipNextHopLost.uint

namespace Machine

variable {m : Machine} {hop hop' : UInt32} {isDsa : Bool} {ipDst : Str} {now : Int}

/-- The interface and the MAC address by which a next hop is reached. -/
def wayTo (m : Machine) (hop : UInt32) : Option (Fin 2 × Mac) :=
  if hop = m.table.ipGateway.uint then some (1, m.macGateway) else (m.ipToMac hop).map fun mac => (0, mac)

def SameWay (m : Machine) (hop hop' : UInt32) : Prop := ∃ way, m.wayTo hop = some way ∧ m.wayTo hop' = some way

/-- The command for an own packet puts out one frame, a packet of its kind for the
destination that goes the way to the hop. -/
def SendsTo (m : Machine) (hop : UInt32) (isDsa : Bool) (ipDst : Str) (now : Int) : Prop :=
  ∃ m' sent, m.step (if isDsa then .dsa ipDst now else .lsa ipDst now) = some (m', [sent]) ∧
    Overlay.ipDst sent.frame = ipIntoUint ipDst ∧ portDst sent.frame = (if isDsa then 1000 else 2000) ∧
    m.wayTo hop = some (sent.iface, readMac sent.frame 0)

theorem wayTo_isSome : (m.wayTo hop).isSome ↔ m.Knows hop := by
  by_cases h : hop = m.table.ipGateway.uint <;> simp [wayTo, Knows, h]

theorem sameWay_of_knows (h : m.Knows hop) : m.SameWay hop hop := by
  obtain ⟨way, hway⟩ := Option.isSome_iff_exists.mp (wayTo_isSome.mpr h)
  exact ⟨way, hway, hway⟩

theorem sendUdpPacket_wayTo (m : Machine) (ipDst hop : UInt32) (isDsa : Bool) (now : Int) :
    m.sendUdpPacket ipDst hop isDsa now = (m.wayTo hop).map fun way =>
      (m.allocateOwn now, ⟨way.1, m.udpPacket ipDst hop isDsa (m.iface way.1).mac way.2⟩) := by
  unfold sendUdpPacket wayTo
  by_cases hg : hop = m.table.ipGateway.uint
  · rw [if_pos hg, if_pos hg, Option.map_some]
  · rw [if_neg hg, if_neg hg, Option.map_map]
    rfl

theorem step_own (hv : m.table.isServerValid ipDst = true) {route : RoutingInfo}
    (hroute : route = (m.table.serverInfoes (m.table.ipToId (ipIntoUint ipDst))).forwardingTable) :
    m.step (if isDsa then .dsa ipDst now else .lsa ipDst now) = (m.wayTo (route.nextHop isDsa)).map fun way =>
      (m.allocateOwn now,
        [⟨way.1, m.udpPacket (ipIntoUint ipDst) (route.nextHop isDsa) isDsa (m.iface way.1).mac way.2⟩]) := by
  subst hroute
  have hstep : m.step (if isDsa then .dsa ipDst now else .lsa ipDst now) = (m.sendUdpPacket (ipIntoUint ipDst)
      ((m.table.serverInfoes (m.table.ipToId (ipIntoUint ipDst))).forwardingTable.nextHop isDsa) isDsa now).map
        fun r => (r.1, [r.2]) := by
    cases isDsa with
    | false => exact if_pos hv
    | true => exact if_pos hv
  rw [hstep, sendUdpPacket_wayTo, Option.map_map]
  rfl

theorem udpPacket_wire (m : Machine) (ipDst hop : UInt32) (isDsa : Bool) (etherShost etherDhost : Mac) :
    let frame := m.udpPacket ipDst hop isDsa etherShost etherDhost
    Overlay.ipDst frame = ipDst ∧ portDst frame = (if isDsa then 1000 else 2000) ∧ readMac frame 0 = etherDhost := by
  have hi : word32 (m.udpPacket ipDst hop isDsa etherShost etherDhost) 30 = swap32 ipDst := join32_bytes _
  refine ⟨?_, portDst_udpPacket _ _ _ _ _, rfl⟩
  rw [Overlay.ipDst, hi, swap32_swap32]

/-- The frame goes by the row that is looked up. -/
theorem sendsTo_iff (hv : m.table.isServerValid ipDst = true) : m.SendsTo hop isDsa ipDst now ↔
    m.SameWay ((m.table.serverInfoes (m.table.ipToId (ipIntoUint ipDst))).forwardingTable.nextHop isDsa) hop := by
  set route := (m.table.serverInfoes (m.table.ipToId (ipIntoUint ipDst))).forwardingTable with hroute
  have hwire (way : Fin 2 × Mac) := m.udpPacket_wire (ipIntoUint ipDst) (route.nextHop isDsa) isDsa
    (m.iface way.1).mac way.2
  rw [SendsTo, step_own hv hroute]
  constructor
  · rintro ⟨m', sent, he, -, -, hhop⟩
    obtain ⟨way, hway, he⟩ := Option.map_eq_some_iff.mp he
    obtain rfl := List.singleton_inj.mp (Prod.mk.inj he).2
    exact ⟨way, hway, by rw [hhop, (hwire way).2.2]⟩
  · rintro ⟨way, hway, hhop⟩
    obtain ⟨hi, hp, hm⟩ := hwire way
    rw [hway]
    exact ⟨_, _, rfl, hi, hp, by rw [hhop, hm]⟩

end Machine

section Runs

variable {iface : Fin 2 → Interface} {info : Str} {m₀ m : Machine}
  {h : List (Taken Machine Event (List Sent))}

/-- An own packet is routed by the last configured row of its destination, and by row 0 for
a destination learned from a peer. It is sent to the next hop of that row, and to the one of
another row of the destination exactly when both hops are reached the same way. -/
theorem own_packet_next_hop_iff (hi : Machine.initializeMachine iface info = some m₀)
    (hr : Run Machine.step m₀ h m) {ipDst : Str} (hv : m.table.isServerValid ipDst = true) :
    (∃ i < m.table.known, (m.table.serverInfoes i).ip.uint = ipIntoUint ipDst) ∧
    (∀ i < m.table.known, (m.table.serverInfoes i).ip.uint = ipIntoUint ipDst → ∀ (isDsa : Bool) (now : Int),
      m.SendsTo ((m.table.serverInfoes i).forwardingTable.nextHop isDsa) isDsa ipDst now ↔
        m.SameWay ((m.table.serverInfoes (m.table.startRow (ipIntoUint ipDst))).forwardingTable.nextHop isDsa)
          ((m.table.serverInfoes i).forwardingTable.nextHop isDsa)) ∧
    (∀ i < m.table.configured, (m.table.serverInfoes i).ip.uint = ipIntoUint ipDst →
      (∀ j < m.table.configured, i < j → (m.table.serverInfoes j).ip.uint ≠ ipIntoUint ipDst) →
      m.table.startRow (ipIntoUint ipDst) = i ∧ ∀ (isDsa : Bool) (now : Int),
        m.SendsTo ((m.table.serverInfoes i).forwardingTable.nextHop isDsa) isDsa ipDst now) ∧
    ((∀ i < m.table.configured, (m.table.serverInfoes i).ip.uint ≠ ipIntoUint ipDst) →
      m.table.startRow (ipIntoUint ipDst) = 0) := by
  have hsends {hop : UInt32} {isDsa : Bool} {now : Int} : m.SendsTo hop isDsa ipDst now ↔ m.SameWay
      ((m.table.serverInfoes (m.table.startRow (ipIntoUint ipDst))).forwardingTable.nextHop isDsa) hop := by
    rw [Machine.sendsTo_iff hv, run_ipToId hi hr]
  refine ⟨?_, fun i _ _ isDsa now => hsends, fun i hc hu hlast => ?_, fun hn => ServerTable.lastRow_eq_zero hn⟩
  · obtain ⟨i, hk, hs⟩ := ServerTable.isServerValid_iff.mp hv
    exact ⟨i, hk, by rw [← run_named hi hr i hk, hs]⟩
  · have hstart : m.table.startRow (ipIntoUint ipDst) = i := by
      obtain ⟨hle, hlt, hu'⟩ := ServerTable.lastRow_spec hc hu
      by_contra hne
      exact hlast _ hlt (lt_of_le_of_ne hle (Ne.symm hne)) hu'
    refine ⟨hstart, fun isDsa now => hsends.mpr ?_⟩
    rw [hstart]
    have hknown := (run_configured_routable hi hr i hc).1
    cases isDsa with
    | false => exact Machine.sameWay_of_knows hknown.2
    | true => exact Machine.sameWay_of_knows hknown.1

/-- A peer has the better way to `8.8.8.8`. -/
theorem own_packet_next_hop_configured : ∃ m₀ h m, Machine.initializeMachine sampleIface sampleInfo = some m₀ ∧
    Run Machine.step m₀ h m ∧ m.wayTo 0xC0A80002 = some (0, ⟨2, 0, 0, 0, 1, 2⟩) ∧
    ∀ isDsa, (m.table.serverInfoes 0).forwardingTable.nextHop isDsa = 0xC0A80002 ∧
      m.SendsTo 0xC0A80002 isDsa (ascii "8.8.8.8") 0 := by
  obtain ⟨m₀, h, m, hi, hr, hv, hc, hu, hway, hhop⟩ := Machine.reaches sampleIface sampleInfo
    [sampleAdvertisement 0xC0A80002 [sampleRow 0x08080808 10 1 1], .advertise]
    (fun m _ => m.table.isServerValid (ascii "8.8.8.8") = true ∧ m.table.configured = 1 ∧
      (m.table.serverInfoes 0).ip.uint = ipIntoUint (ascii "8.8.8.8") ∧
      m.wayTo 0xC0A80002 = some (0, ⟨2, 0, 0, 0, 1, 2⟩) ∧
      ∀ isDsa, (m.table.serverInfoes 0).forwardingTable.nextHop isDsa = 0xC0A80002) (by decide +kernel)
  have hsends := (own_packet_next_hop_iff hi hr hv).2.2.1 0 (by omega) hu (by omega)
  exact ⟨m₀, h, m, hi, hr, hway, fun isDsa => ⟨hhop isDsa, hhop isDsa ▸ hsends.2 isDsa 0⟩⟩

/-- A server learned from a peer, after the peer's route has been put into the
forwarding table: the packet goes to the gateway, as one for `8.8.8.8` does. -/
theorem own_packet_next_hop_of_learned : ∃ m₀ h m, Machine.initializeMachine sampleIface sampleInfo = some m₀ ∧
    Run Machine.step m₀ h m ∧ m.table.isServerValid (ascii "9.9.9.9") = true ∧ 1 < m.table.known ∧
    (m.table.serverInfoes 1).ip.uint = ipIntoUint (ascii "9.9.9.9") ∧
    (m.table.serverInfoes 1).forwardingTable.nextHop true = 0xC0A80002 ∧
    (∃ m' sent, m.step (.dsa (ascii "9.9.9.9") 0) = some (m', [sent]) ∧ sent.iface = 1 ∧
      readMac sent.frame 0 = m.macGateway) ∧ ¬ m.SendsTo 0xC0A80002 true (ascii "9.9.9.9") 0 := by
  obtain ⟨m₀, h, m, hi, hr, hv, hk, hu, hhop, hway, hsent⟩ := Machine.reaches sampleIface sampleInfo
    [sampleAdvertisement 0xC0A80002 [sampleRow 0x09090909 10 1 1], .advertise]
    (fun m _ => m.table.isServerValid (ascii "9.9.9.9") = true ∧ 1 < m.table.known ∧
      (m.table.serverInfoes 1).ip.uint = ipIntoUint (ascii "9.9.9.9") ∧
      (m.table.serverInfoes 1).forwardingTable.nextHop true = 0xC0A80002 ∧
      (m.wayTo 0xC0A80002).map Prod.fst = some 0 ∧
      (m.step (.dsa (ascii "9.9.9.9") 0)).map (fun r => r.2.map fun sent => (sent.iface, readMac sent.frame 0)) =
        some [(1, m.macGateway)]) (by decide +kernel)
  obtain ⟨⟨m', out⟩, he, hout⟩ := Option.map_eq_some_iff.mp hsent
  obtain ⟨sent, rfl, hs⟩ := List.map_eq_singleton_iff.mp hout
  obtain ⟨hiface, hmac⟩ := Prod.mk.inj hs
  refine ⟨m₀, h, m, hi, hr, hv, hk, hu, hhop, ⟨m', sent, he, hiface, hmac⟩, ?_⟩
  rintro ⟨m'', sent', he', -, -, hway'⟩
  obtain ⟨-, hsame⟩ := Prod.mk.inj (Option.some.inj (he.symm.trans he'))
  obtain rfl := List.singleton_inj.mp hsame
  rw [hway', Option.map_some, hiface] at hway
  cases hway

end Runs

end Overlay
