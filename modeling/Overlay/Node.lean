import Overlay.Headers
import Overlay.Advertise

/-! One node: its interfaces, the server table, the port maps, and the two threads' entry
points as one step function. Console output is left out. -/

namespace Overlay

open ByteMemory

/-- A frame handed to `sendFrame` with the index of its interface. -/
structure Sent where
  iface : Fin 2
  frame : Bytes

/-- `src_port` is an `int` while the keys of the maps have 16 bits. `operator[]` gives 0
for a missing key, except that the presence of a key is read in `port_to_ip`, and that a
missing MAC address is a null pointer. -/
structure Machine where
  iface : Fin 2 → Interface
  macGateway : Mac
  table : ServerTable
  srcPort : Nat
  portToIp : UInt16 → Option UInt32
  myPortToSrcPort : UInt16 → UInt16
  ipToMac : UInt32 → Option Mac
  sentTimes : UInt16 → Int

namespace Machine

def initializeMachine (iface : Fin 2 → Interface) (info : Str) : Option Machine :=
  (ServerTable.initializeTable (tokens info)).map fun table =>
    { iface, table, macGateway := macIntoByte ((tokens info).getD 1 []), srcPort := 8000,
      portToIp := fun _ => none, myPortToSrcPort := fun _ => 0, ipToMac := fun _ => none,
      sentTimes := fun _ => 0 }

def advertisePacket (iface : Fin 2 → Interface) (ipDst : UInt32) (macDst : Mac) (advertiseData : Bytes) :
    Sent :=
  let eth : Eth := { etherType := swap16 0x0800, etherDhost := macDst, etherShost := (iface 0).mac }
  let ip := setIpHeader iface ipDst .udp advertiseData.length false false
  let udp : Udp :=
    { length := swap16 (UInt16.ofNat (8 + advertiseData.length)), portDst := swap16 5000,
      portSrc := swap16 5000, udpSum := 0 }
  ⟨0, eth.bytes ++ ip.bytes ++ udp.bytes ++ advertiseData⟩

variable (m : Machine)

def icmpPacket (serverInfo : ServerInformation) : Sent :=
  let eth : Eth := { etherShost := (m.iface 1).mac, etherDhost := m.macGateway, etherType := swap16 0x0800 }
  let ip := setIpHeader m.iface serverInfo.ip.uint .icmp 0 false false
  let icmp := setIcmpHeaderInPingPacket serverInfo.sequenceId
  ⟨1, eth.bytes ++ ip.bytes ++ icmp.bytes⟩

/-- The command `ping`; every request is built from its row after the check. -/
def ping (clock : Nat → Int) : Machine × List Sent :=
  ({ m with table := m.table.ping clock }, (List.range m.table.configured).map fun i =>
    m.icmpPacket (m.table.checkConnectionsIsAlive.serverInfoes i))

def advertise : Option (Machine × List Sent) := do
  let advertiseData ← m.table.advertiseData
  let sent := advertisePacket m.iface (ipIntoUint (ascii "255.255.255.255"))
    (macIntoByte (ascii "FF:FF:FF:FF:FF:FF")) advertiseData
  some ({ m with table := m.table.fillForwardingTable.resetLearningTable }, [sent])

/-- The frame of `send_udp_packet`, except for its two MAC addresses. -/
def udpPacket (ipDst nextHop : UInt32) (isDsa : Bool) (etherShost etherDhost : Mac) : Bytes :=
  let eth : Eth := { etherType := swap16 0x0800, etherShost, etherDhost }
  let ip := setIpHeader m.iface ipDst .udp 4 true (nextHop = m.table.ipGateway.uint)
  let udp : Udp :=
    { length := swap16 (8 + 4), portDst := if isDsa then swap16 1000 else swap16 2000,
      portSrc := swap16 (UInt16.ofNat m.srcPort), udpSum := 0 }
  eth.bytes ++ ip.bytes ++ udp.bytes ++ bytes32 (swap32 0x12345678)

def allocateOwn (now : Int) : Machine :=
  { m with srcPort := m.srcPort + 1
           sentTimes := Function.update m.sentTimes (UInt16.ofNat (m.srcPort + 1 - 1)) now }

/-- `none` is a copy from the null pointer that stands for an unknown MAC address. -/
def sendUdpPacket (ipDst nextHop : UInt32) (isDsa : Bool) (now : Int) : Option (Machine × Sent) :=
  if nextHop = m.table.ipGateway.uint then
    some (m.allocateOwn now, ⟨1, m.udpPacket ipDst nextHop isDsa (m.iface 1).mac m.macGateway⟩)
  else
    (m.ipToMac nextHop).map fun mac =>
      (m.allocateOwn now, ⟨0, m.udpPacket ipDst nextHop isDsa (m.iface 0).mac mac⟩)

/-- `next_hop_ip` in `send_lsa_packet`. -/
def lsaNextHop (ipDst : Str) : IpInfo :=
  (m.table.serverInfoes (m.table.ipToId (ipIntoUint ipDst))).forwardingTable.ipNextHopLost

/-- `next_hop_ip` in `send_dsa_packet`. -/
def dsaNextHop (ipDst : Str) : IpInfo :=
  (m.table.serverInfoes (m.table.ipToId (ipIntoUint ipDst))).forwardingTable.ipNextHopRtt

def sendLsaPacket (ipDst : Str) (now : Int) : Option (Machine × Sent) :=
  m.sendUdpPacket (ipIntoUint ipDst) (m.lsaNextHop ipDst).uint false now

def sendDsaPacket (ipDst : Str) (now : Int) : Option (Machine × Sent) :=
  m.sendUdpPacket (ipIntoUint ipDst) (m.dsaNextHop ipDst).uint true now

def storeMacAddrToMap (ip : UInt32) (macAddr : Mac) : Machine :=
  { m with ipToMac := Function.update m.ipToMac ip (some macAddr) }

def receiveAdvertiseData (advertiseData : Bytes) (ipSrc : UInt32) (macShost : Mac) : Option Machine :=
  (m.table.receiveAdvertiseData advertiseData ipSrc).map fun table =>
    { m with table }.storeMacAddrToMap ipSrc macShost

/-- The stores into a copy of a frame, then its IP checksum anew. -/
def rewrite (frame : Bytes) (stores : List (Nat × Bytes)) : Option Bytes := do
  let data ← (stores ++ [(24, bytes16 0)]).foldlM (fun data (s : Nat × Bytes) => store data s.1 s.2) frame
  store data 24 (bytes16 (checkSumIp data 14 (ipHl data)))

/-- The branch for the ports 1000 and 2000: the packet of a peer goes to the gateway. -/
def natForward (frame : Bytes) : Option (Machine × List Sent) := do
  let port := UInt16.ofNat m.srcPort
  let data ← rewrite frame
    [(6, (m.iface 1).mac.bytes), (0, m.macGateway.bytes), (34, bytes16 (swap16 port)),
      (26, bytes32 (swap32 (m.iface 1).ip))]
  some ({ m with portToIp := Function.update m.portToIp port (some (word32 frame 26))
                 myPortToSrcPort := Function.update m.myPortToSrcPort port (word16 frame 34)
                 srcPort := m.srcPort + 1 }, [⟨1, data⟩])

/-- The branch for a port mapped to a peer's address: the reply goes to that peer. -/
def natReply (frame : Bytes) (port : UInt16) (ip : UInt32) : Option (Machine × List Sent) := do
  let mainPort := swap16 (m.myPortToSrcPort port)
  let mainIp := swap32 ip
  let mac ← m.ipToMac mainIp
  let data ← rewrite frame
    [(6, (m.iface 0).mac.bytes), (0, mac.bytes), (36, bytes16 (swap16 mainPort)),
      (30, bytes32 (swap32 mainIp))]
  some (m, [⟨0, data⟩])

def processUdp (frame : Bytes) : Option (Machine × List Sent) :=
  let port := portDst frame
  if port = 5000 then
    (m.receiveAdvertiseData (frame.drop 42) (ipSrc frame) (etherShost frame)).map (·, [])
  else if port = 1000 ∨ port = 2000 then m.natForward frame
  else if 8000 ≤ port ∧ port.toNat < m.srcPort then
    match m.portToIp port with
    | some ip => m.natReply frame port ip
    | none => some (m, [])
  else some (m, [])

def processFrame (frame : Bytes) (pingReceivedTime : Int) : Option (Machine × List Sent) :=
  match isValidPacket frame with
  | none => none
  | some false => some (m, [])
  | some true =>
    if ipP frame = 1 then
      (m.table.receivePingPacket (ipSrc frame) pingReceivedTime (sequenceId frame)).map fun table =>
        ({ m with table }, [])
    else if ipP frame = 17 then m.processUdp frame
    else some (m, [])

end Machine

/-- The commands that do more than print, and the arrival of a frame. -/
inductive Event
  | ping (clock : Nat → Int)
  | advertise
  | dsa (ipDst : Str) (now : Int)
  | lsa (ipDst : Str) (now : Int)
  | frame (data : Bytes) (now : Int)

def Machine.step (m : Machine) : Event → Option (Machine × List Sent)
  | .ping clock => some (m.ping clock)
  | .advertise => m.advertise
  | .dsa ipDst now =>
    if m.table.isServerValid ipDst then (m.sendDsaPacket ipDst now).map fun r => (r.1, [r.2])
    else some (m, [])
  | .lsa ipDst now =>
    if m.table.isServerValid ipDst then (m.sendLsaPacket ipDst now).map fun r => (r.1, [r.2])
    else some (m, [])
  | .frame data now => m.processFrame data now

/-- Everything a received frame can do: the branch taken, its guards and its result. -/
inductive FrameStep (m : Machine) (frame : Bytes) (now : Int) : Machine → List Sent → Prop
  | rejected : isValidPacket frame = some false → FrameStep m frame now m []
  | echo {table : ServerTable} : ValidIcmp frame →
      m.table.receivePingPacket (ipSrc frame) now (sequenceId frame) = some table →
      FrameStep m frame now { m with table } []
  | advertisement {table : ServerTable} : ValidUdp frame → portDst frame = 5000 →
      m.table.receiveAdvertiseData (frame.drop 42) (ipSrc frame) = some table →
      FrameStep m frame now ({ m with table }.storeMacAddrToMap (ipSrc frame) (etherShost frame)) []
  | forward {m' : Machine} {out : List Sent} : ValidUdp frame → portDst frame = 1000 ∨ portDst frame = 2000 →
      m.natForward frame = some (m', out) → FrameStep m frame now m' out
  | reply {ip : UInt32} {m' : Machine} {out : List Sent} : ValidUdp frame → 8000 ≤ portDst frame →
      (portDst frame).toNat < m.srcPort → m.portToIp (portDst frame) = some ip →
      m.natReply frame (portDst frame) ip = some (m', out) → FrameStep m frame now m' out
  | ignored : ValidUdp frame → portDst frame ≠ 5000 → portDst frame ≠ 1000 → portDst frame ≠ 2000 →
      (8000 ≤ portDst frame → (portDst frame).toNat < m.srcPort → m.portToIp (portDst frame) = none) →
      FrameStep m frame now m []

theorem Machine.processFrame_cases {m m' : Machine} {frame : Bytes} {now : Int} {out : List Sent}
    (h : m.processFrame frame now = some (m', out)) : FrameStep m frame now m' out := by
  unfold processFrame at h
  cases hv : isValidPacket frame with
  | none => rw [hv] at h; cases h
  | some valid =>
    rw [hv] at h
    cases valid with
    | false =>
      obtain ⟨rfl, rfl⟩ := Prod.mk.inj (Option.some.inj h)
      exact .rejected hv
    | true =>
      rcases (isValidPacket_iff frame).mp hv with hu | hi
      · have hp : ¬ ipP frame = 1 := by rw [hu.ipP_eq]; decide
        simp only [if_neg hp, if_pos hu.ipP_eq] at h
        unfold processUdp at h
        by_cases h₁ : portDst frame = 5000
        · rw [if_pos h₁] at h
          obtain ⟨w, hw, he⟩ := Option.map_eq_some_iff.mp h
          obtain ⟨table, ht, rfl⟩ := Option.map_eq_some_iff.mp hw
          obtain ⟨rfl, rfl⟩ := Prod.mk.inj he
          exact .advertisement hu h₁ ht
        · rw [if_neg h₁] at h
          by_cases h₂ : portDst frame = 1000 ∨ portDst frame = 2000
          · rw [if_pos h₂] at h
            exact .forward hu h₂ h
          · rw [if_neg h₂] at h
            push Not at h₂
            by_cases h₃ : 8000 ≤ portDst frame ∧ (portDst frame).toNat < m.srcPort
            · rw [if_pos h₃] at h
              cases hk : m.portToIp (portDst frame) with
              | some ip =>
                rw [hk] at h
                exact .reply hu h₃.1 h₃.2 hk h
              | none =>
                rw [hk] at h
                obtain ⟨rfl, rfl⟩ := Prod.mk.inj (Option.some.inj h)
                exact .ignored hu h₁ h₂.1 h₂.2 fun _ _ => hk
            · rw [if_neg h₃] at h
              obtain ⟨rfl, rfl⟩ := Prod.mk.inj (Option.some.inj h)
              exact .ignored hu h₁ h₂.1 h₂.2 fun h₄ h₅ => absurd ⟨h₄, h₅⟩ h₃
      · simp only [if_pos hi.ipP_eq] at h
        obtain ⟨table, ht, he⟩ := Option.map_eq_some_iff.mp h
        obtain ⟨rfl, rfl⟩ := Prod.mk.inj he
        exact .echo hi ht

inductive TableEvent
  | ping (clock : Nat → Int)
  | advertise
  | echo (ip : UInt32) (now : Int) (sequenceId : UInt16)
  | advertisement (advertiseData : Bytes) (ipSrc : UInt32)

def ServerTable.step (t : ServerTable) : TableEvent → Option ServerTable
  | .ping clock => some (t.ping clock)
  | .advertise => t.advertiseData.map fun _ => t.fillForwardingTable.resetLearningTable
  | .echo ip now sequenceId => t.receivePingPacket ip now sequenceId
  | .advertisement advertiseData ipSrc => t.receiveAdvertiseData advertiseData ipSrc

def TableEvent.isAdvertisement : TableEvent → Bool
  | .advertisement .. => true
  | _ => false

/-- An advertisement is the only event of the table that comes with a MAC address. -/
def TableEvent.StoresMac (before after : UInt32 → Option Mac) : TableEvent → Prop
  | .advertisement _ ipSrc => ∃ mac, after = Function.update before ipSrc (some mac)
  | _ => after = before

def Event.onTable : Event → Option TableEvent
  | .ping clock => some (.ping clock)
  | .advertise => some .advertise
  | .dsa _ _ => none
  | .lsa _ _ => none
  | .frame data now =>
    if isValidPacket data = some true then
      if ipP data = 1 then some (.echo (ipSrc data) now (sequenceId data))
      else if portDst data = 5000 then some (.advertisement (data.drop 42) (ipSrc data))
      else none
    else none

theorem Event.onTable_echo {frame : Bytes} (h : ValidIcmp frame) (now : Int) :
    (Event.frame frame now).onTable = some (.echo (ipSrc frame) now (sequenceId frame)) := by
  rw [Event.onTable, if_pos ((isValidPacket_iff frame).mpr (Or.inr h)), if_pos h.ipP_eq]

theorem Event.onTable_udp {frame : Bytes} (h : ValidUdp frame) (now : Int) :
    (Event.frame frame now).onTable =
      if portDst frame = 5000 then some (.advertisement (frame.drop 42) (ipSrc frame)) else none := by
  have hp : ¬ ipP frame = 1 := by rw [h.ipP_eq]; decide
  rw [Event.onTable, if_pos ((isValidPacket_iff frame).mpr (Or.inl h)), if_neg hp]

namespace Machine

variable {m m' : Machine} {frame : Bytes} {out : List Sent}

theorem sendUdpPacket_cases {ipDst nextHop : UInt32} {isDsa : Bool} {now : Int} {sent : Sent}
    (h : m.sendUdpPacket ipDst nextHop isDsa now = some (m', sent)) : m' = m.allocateOwn now ∧
      (nextHop = m.table.ipGateway.uint ∧
          sent = ⟨1, m.udpPacket ipDst nextHop isDsa (m.iface 1).mac m.macGateway⟩ ∨
        nextHop ≠ m.table.ipGateway.uint ∧ ∃ mac, m.ipToMac nextHop = some mac ∧
          sent = ⟨0, m.udpPacket ipDst nextHop isDsa (m.iface 0).mac mac⟩) := by
  unfold sendUdpPacket at h
  by_cases hg : nextHop = m.table.ipGateway.uint
  · rw [if_pos hg] at h
    obtain ⟨rfl, rfl⟩ := Prod.mk.inj (Option.some.inj h)
    exact ⟨rfl, Or.inl ⟨hg, rfl⟩⟩
  · rw [if_neg hg] at h
    obtain ⟨mac, hm, he⟩ := Option.map_eq_some_iff.mp h
    obtain ⟨rfl, rfl⟩ := Prod.mk.inj he
    exact ⟨rfl, Or.inr ⟨hg, mac, hm, rfl⟩⟩

theorem natForward_cases (h : m.natForward frame = some (m', out)) : ∃ data,
    rewrite frame [(6, (m.iface 1).mac.bytes), (0, m.macGateway.bytes),
      (34, bytes16 (swap16 (UInt16.ofNat m.srcPort))), (26, bytes32 (swap32 (m.iface 1).ip))] = some data ∧
    out = [⟨1, data⟩] ∧ m' = { m with
      portToIp := Function.update m.portToIp (UInt16.ofNat m.srcPort) (some (word32 frame 26))
      myPortToSrcPort := Function.update m.myPortToSrcPort (UInt16.ofNat m.srcPort) (word16 frame 34)
      srcPort := m.srcPort + 1 } := by
  obtain ⟨data, hd, he⟩ := Option.bind_eq_some_iff.mp h
  obtain ⟨rfl, rfl⟩ := Prod.mk.inj (Option.some.inj he)
  exact ⟨data, hd, rfl, rfl⟩

theorem natReply_cases {port : UInt16} {ip : UInt32} (h : m.natReply frame port ip = some (m', out)) :
    m' = m ∧ ∃ mac data, m.ipToMac (swap32 ip) = some mac ∧
      rewrite frame [(6, (m.iface 0).mac.bytes), (0, mac.bytes),
        (36, bytes16 (swap16 (swap16 (m.myPortToSrcPort port)))),
        (30, bytes32 (swap32 (swap32 ip)))] = some data ∧ out = [⟨0, data⟩] := by
  obtain ⟨mac, hm, h⟩ := Option.bind_eq_some_iff.mp h
  obtain ⟨data, hd, he⟩ := Option.bind_eq_some_iff.mp h
  obtain ⟨rfl, rfl⟩ := Prod.mk.inj (Option.some.inj he)
  exact ⟨rfl, mac, data, hm, hd, rfl⟩

theorem step_dsa {ipDst : Str} {now : Int} (h : m.step (.dsa ipDst now) = some (m', out)) :
    m.table.isServerValid ipDst = false ∧ m' = m ∧ out = [] ∨
      m.table.isServerValid ipDst = true ∧
        ∃ sent, m.sendDsaPacket ipDst now = some (m', sent) ∧ out = [sent] := by
  unfold step at h
  cases hv : m.table.isServerValid ipDst with
  | false =>
    simp only [hv, Bool.false_eq_true, if_false] at h
    obtain ⟨rfl, rfl⟩ := Prod.mk.inj (Option.some.inj h)
    exact Or.inl ⟨rfl, rfl, rfl⟩
  | true =>
    simp only [hv, if_true] at h
    obtain ⟨r, hr, he⟩ := Option.map_eq_some_iff.mp h
    obtain ⟨rfl, rfl⟩ := Prod.mk.inj he
    exact Or.inr ⟨rfl, r.2, hr, rfl⟩

theorem step_lsa {ipDst : Str} {now : Int} (h : m.step (.lsa ipDst now) = some (m', out)) :
    m.table.isServerValid ipDst = false ∧ m' = m ∧ out = [] ∨
      m.table.isServerValid ipDst = true ∧
        ∃ sent, m.sendLsaPacket ipDst now = some (m', sent) ∧ out = [sent] := by
  unfold step at h
  cases hv : m.table.isServerValid ipDst with
  | false =>
    simp only [hv, Bool.false_eq_true, if_false] at h
    obtain ⟨rfl, rfl⟩ := Prod.mk.inj (Option.some.inj h)
    exact Or.inl ⟨rfl, rfl, rfl⟩
  | true =>
    simp only [hv, if_true] at h
    obtain ⟨r, hr, he⟩ := Option.map_eq_some_iff.mp h
    obtain ⟨rfl, rfl⟩ := Prod.mk.inj he
    exact Or.inr ⟨rfl, r.2, hr, rfl⟩

theorem step_advertise (h : m.step .advertise = some (m', out)) : ∃ advertiseData,
    m.table.advertiseData = some advertiseData ∧
    m' = { m with table := m.table.fillForwardingTable.resetLearningTable } ∧
    out = [advertisePacket m.iface (ipIntoUint (ascii "255.255.255.255"))
      (macIntoByte (ascii "FF:FF:FF:FF:FF:FF")) advertiseData] := by
  obtain ⟨data, hd, he⟩ := Option.bind_eq_some_iff.mp h
  obtain ⟨rfl, rfl⟩ := Prod.mk.inj (Option.some.inj he)
  exact ⟨data, hd, rfl, rfl⟩

end Machine

inductive MachineStep (m : Machine) : Event → Machine → List Sent → Prop
  | ping (clock : Nat → Int) : MachineStep m (.ping clock) (m.ping clock).1 (m.ping clock).2
  | advertise {advertiseData : Bytes} : m.table.advertiseData = some advertiseData →
      MachineStep m .advertise { m with table := m.table.fillForwardingTable.resetLearningTable }
        [Machine.advertisePacket m.iface (ipIntoUint (ascii "255.255.255.255"))
          (macIntoByte (ascii "FF:FF:FF:FF:FF:FF")) advertiseData]
  | unknown {e : Event} {ipDst : Str} {now : Int} : e = .dsa ipDst now ∨ e = .lsa ipDst now →
      m.table.isServerValid ipDst = false → MachineStep m e m []
  | own {e : Event} {ipDst : Str} {now : Int} {nextHop : UInt32} {isDsa : Bool} {m' : Machine} {sent : Sent} :
      e = .dsa ipDst now ∨ e = .lsa ipDst now → m.table.isServerValid ipDst = true →
      m.sendUdpPacket (ipIntoUint ipDst) nextHop isDsa now = some (m', sent) → MachineStep m e m' [sent]
  | frame {frame : Bytes} {now : Int} {m' : Machine} {out : List Sent} : FrameStep m frame now m' out →
      MachineStep m (.frame frame now) m' out

namespace Machine

variable {m m' : Machine} {frame : Bytes} {out : List Sent}

theorem step_cases {e : Event} (h : m.step e = some (m', out)) : MachineStep m e m' out := by
  cases e with
  | ping clock =>
    obtain ⟨rfl, rfl⟩ := Prod.mk.inj (Option.some.inj h)
    exact .ping clock
  | advertise =>
    obtain ⟨data, hd, rfl, rfl⟩ := step_advertise h
    exact .advertise hd
  | dsa ipDst now =>
    rcases step_dsa h with ⟨hv, rfl, rfl⟩ | ⟨hv, sent, hs, rfl⟩
    · exact .unknown (Or.inl rfl) hv
    · exact .own (Or.inl rfl) hv hs
  | lsa ipDst now =>
    rcases step_lsa h with ⟨hv, rfl, rfl⟩ | ⟨hv, sent, hs, rfl⟩
    · exact .unknown (Or.inr rfl) hv
    · exact .own (Or.inr rfl) hv hs
  | frame data now => exact .frame (processFrame_cases h)

theorem step_table {e : Event} (h : m.step e = some (m', out)) :
    (e.onTable = none ∧ m'.table = m.table ∧ m'.ipToMac = m.ipToMac) ∨
      ∃ te, e.onTable = some te ∧ m.table.step te = some m'.table ∧ te.StoresMac m.ipToMac m'.ipToMac := by
  cases step_cases h with
  | ping clock => exact Or.inr ⟨_, rfl, rfl, rfl⟩
  | advertise hd => exact Or.inr ⟨_, rfl, by simp [ServerTable.step, hd], rfl⟩
  | unknown he => exact Or.inl ⟨by rcases he with rfl | rfl <;> rfl, rfl, rfl⟩
  | own he _ hs =>
    obtain ⟨rfl, _⟩ := sendUdpPacket_cases hs
    exact Or.inl ⟨by rcases he with rfl | rfl <;> rfl, rfl, rfl⟩
  | @frame data now _ _ hf =>
    cases hf with
    | rejected hv => exact Or.inl ⟨by simp [Event.onTable, hv], rfl, rfl⟩
    | echo hi ht => exact Or.inr ⟨_, Event.onTable_echo hi now, ht, rfl⟩
    | advertisement hu hp ht => exact Or.inr ⟨_, (Event.onTable_udp hu now).trans (if_pos hp), ht, _, rfl⟩
    | forward hu hp hf =>
      obtain ⟨_, _, _, rfl⟩ := natForward_cases hf
      have hp' : ¬ portDst data = 5000 := by rcases hp with hp | hp <;> rw [hp] <;> decide
      exact Or.inl ⟨(Event.onTable_udp hu now).trans (if_neg hp'), rfl, rfl⟩
    | reply hu h₁ h₂ hk hr =>
      obtain ⟨rfl, _⟩ := natReply_cases hr
      exact Or.inl ⟨(Event.onTable_udp hu now).trans (if_neg (service_ports h₁).2.2), rfl, rfl⟩
    | ignored hu hp => exact Or.inl ⟨(Event.onTable_udp hu now).trans (if_neg hp), rfl, rfl⟩

end Machine

/-! A node of a small overlay, for the concrete runs: one configured server, and peers
that advertise rows of four numbers each. -/

def sampleIface (i : Fin 2) : Interface :=
  if i = 0 then ⟨0xC0A80001, ⟨2, 0, 0, 0, 0, 1⟩⟩ else ⟨0x0A000002, ⟨2, 0, 0, 0, 0, 2⟩⟩

def sampleInfo : Str := ascii "10.0.0.1 02:00:00:00:00:03 1 8.8.8.8"

def sampleRow (ip : UInt32) (rttTime pingSent pingReceived : UInt16) : ServerInformation :=
  { ServerInformation.zero with ip := ⟨ip, []⟩, rttTime, pingSent, pingReceived }

def sampleAdvertisement (ipSrc : UInt32) (rows : List ServerInformation) : Event :=
  .frame (Machine.advertisePacket (fun _ => ⟨ipSrc, ⟨2, 0, 0, 0, 1, ipSrc.toUInt8⟩⟩) 0xFFFFFFFF
    ⟨255, 255, 255, 255, 255, 255⟩ (rows.flatMap ServerInformation.encode ++ bytes32 0)).frame 0

def sampleEcho (ipSrc : UInt32) (sequenceId : UInt16) (now : Int) : Event :=
  let eth : Eth :=
    { etherDhost := (sampleIface 1).mac, etherShost := ⟨2, 0, 0, 0, 0, 3⟩, etherType := swap16 0x0800 }
  let ip := setIpHeader (fun _ => ⟨ipSrc, eth.etherShost⟩) (sampleIface 1).ip .icmp 0 false false
  .frame (eth.bytes ++ ip.bytes ++
    ({ setIcmpHeaderInPingPacket sequenceId with type := 0 } : Icmp).bytes) now

def sampleUdp (ipSrc ipDst : UInt32) (portSrc portDst : UInt16) : Bytes :=
  let eth : Eth :=
    { etherDhost := (sampleIface 0).mac, etherShost := ⟨2, 0, 0, 0, 1, ipSrc.toUInt8⟩, etherType := swap16 0x0800 }
  let ip := setIpHeader (fun _ => ⟨ipSrc, eth.etherShost⟩) ipDst .udp 4 false false
  let udp : Udp := { portSrc := swap16 portSrc, portDst := swap16 portDst, length := swap16 12, udpSum := 0 }
  eth.bytes ++ ip.bytes ++ udp.bytes ++ bytes32 (swap32 0x12345678)

theorem Machine.reaches_by (iface : Fin 2 → Interface) (info : Str) (events : List Event)
    (P : Machine → List (Execution.Taken Machine Event (List Sent)) → Prop) [∀ m h, Decidable (P m h)]
    (hp : ((Machine.initializeMachine iface info).bind fun m =>
      (Execution.exec Machine.step m events).map fun r => decide (P r.1 r.2)) = some true) :
    ∃ m₀ h m, Machine.initializeMachine iface info = some m₀ ∧ Execution.Run Machine.step m₀ h m ∧
      h.map (·.event) = events ∧ P m h :=
  Execution.exists_run id events P hp

theorem Machine.reaches (iface : Fin 2 → Interface) (info : Str) (events : List Event)
    (P : Machine → List (Execution.Taken Machine Event (List Sent)) → Prop) [∀ m h, Decidable (P m h)]
    (hp : ((Machine.initializeMachine iface info).bind fun m =>
      (Execution.exec Machine.step m events).map fun r => decide (P r.1 r.2)) = some true) :
    ∃ m₀ h m, Machine.initializeMachine iface info = some m₀ ∧ Execution.Run Machine.step m₀ h m ∧ P m h := by
  obtain ⟨m₀, h, m, hi, hr, _, hp⟩ := Machine.reaches_by iface info events P hp
  exact ⟨m₀, h, m, hi, hr, hp⟩

end Overlay
