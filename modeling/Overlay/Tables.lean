import Overlay.Addresses
import Overlay.Execution
import Mathlib.Logic.Function.Basic

/-! The server table: configured rows first, then the rows learned from peers. Each
operation of the node on it is one function; `none` is an access outside the array. -/

namespace Overlay

structure IpInfo where
  uint : UInt32
  str : Str
  deriving DecidableEq

structure RoutingInfo where
  ipNextHopRtt : IpInfo
  ipNextHopLost : IpInfo
  rttTime : UInt16
  lostRate : Float
  isActive : Bool

structure ServerInformation where
  ip : IpInfo
  pingLostRate : Float
  pingSent : UInt16
  pingReceived : UInt16
  rttTime : UInt16
  sequenceId : UInt16
  pingLostNumbers : UInt16
  pingSendTime : Int
  isReceivedLastPing : Bool
  forwardingTable : RoutingInfo
  learningTable : RoutingInfo

/-! The globals start zeroed, as static storage does. -/

def IpInfo.zero : IpInfo := ⟨0, []⟩

def RoutingInfo.zero : RoutingInfo := ⟨.zero, .zero, 0, 0, false⟩

def ServerInformation.zero : ServerInformation := ⟨.zero, 0, 0, 0, 0, 0, 0, 0, false, .zero, .zero⟩

def maxServerNumbers : Int := 1000

/-- `serverInfoes`, its two counts, the gateway and `ip_to_id`, whose `operator[]` gives 0
for a key it does not have. -/
structure ServerTable where
  numberOfServers : Int
  numberOfAllServers : Int
  serverInfoes : Nat → ServerInformation
  ipGateway : IpInfo
  ipToId : UInt32 → Nat

namespace ServerTable

def configured (t : ServerTable) : Nat := t.numberOfServers.toNat

def known (t : ServerTable) : Nat := t.numberOfAllServers.toNat

/-- A loop over the first `n` rows whose pass changes only its own row. -/
def mapRows (t : ServerTable) (n : Nat) (f : Nat → ServerInformation → ServerInformation) :
    ServerTable :=
  { t with serverInfoes := fun i => if i < n then f i (t.serverInfoes i) else t.serverInfoes i }

def setRow (t : ServerTable) (i : Nat) (row : ServerInformation) : ServerTable :=
  { t with serverInfoes := Function.update t.serverInfoes i row }

def initializeServerInformation (t : ServerTable) (id : Nat) (serverId : Str) : ServerTable :=
  let r : RoutingInfo :=
    { ipNextHopRtt := t.ipGateway, ipNextHopLost := t.ipGateway, rttTime := 65535, lostRate := 1,
      isActive := false }
  let uint := ipIntoUint serverId
  { t.setRow id { t.serverInfoes id with
      forwardingTable := r, learningTable := r, ip := ⟨uint, serverId⟩, pingLostRate := 1,
      pingReceived := 0, pingSent := 0, rttTime := 65535, sequenceId := 0, pingLostNumbers := 0 } with
    ipToId := Function.update t.ipToId uint id }

/-- The loop of `initialize` over the remaining tokens; an extraction from an exhausted
stream leaves `server_temp` as it was. -/
def initializeRows (t : ServerTable) (id : Nat) (serverTemp : Str) : Nat → List Str → ServerTable
  | 0, _ => t
  | n + 1, [] => (t.initializeServerInformation id serverTemp).initializeRows (id + 1) serverTemp n []
  | n + 1, token :: rest =>
    (t.initializeServerInformation id token).initializeRows (id + 1) token n rest

def initializeTable (info : List Str) : Option ServerTable :=
  let ip := info.getD 0 []
  let numberOfServers := atoi ((info.getD 2 []).takeWhile (· ≠ 0))
  let t : ServerTable :=
    { numberOfServers, numberOfAllServers := numberOfServers, serverInfoes := fun _ => .zero,
      ipGateway := ⟨ipIntoUint ip, ip⟩, ipToId := fun _ => 0 }
  if numberOfServers ≤ maxServerNumbers then
    some (t.initializeRows 0 [] numberOfServers.toNat (info.drop 3))
  else none

def getIndexByIp (t : ServerTable) (ip : UInt32) : Option Nat :=
  (List.range t.known).find? fun i => (t.serverInfoes i).ip.uint == ip

def isServerValid (t : ServerTable) (serverIp : Str) : Bool :=
  (List.range t.known).any fun i => (t.serverInfoes i).ip.str == serverIp

/-- What `insert_into_server_infoes` writes into the row behind the last known one; the
row keeps its other fields, the forwarding entry and the learned next hops among them. -/
def inserted (t : ServerTable) (svIn : ServerInformation) : ServerTable :=
  let row := t.serverInfoes t.known
  { t.setRow t.known { row with
      ip := svIn.ip, isReceivedLastPing := false, pingLostRate := 1, rttTime := 65535,
      learningTable := { row.learningTable with lostRate := 1, rttTime := 65535 } } with
    numberOfAllServers := t.numberOfAllServers + 1 }

def insertIntoServerInfoes (t : ServerTable) (svIn : ServerInformation) : Option ServerTable :=
  if 0 ≤ t.numberOfAllServers ∧ t.numberOfAllServers < maxServerNumbers then some (t.inserted svIn)
  else none

end ServerTable

def RoutingInfo.learn (r : RoutingInfo) (serverInfo : ServerInformation) (ip : IpInfo) : RoutingInfo :=
  let r := { r with isActive := true }
  let r :=
    if ip.uint = r.ipNextHopRtt.uint ∨ r.rttTime > serverInfo.rttTime then
      { r with ipNextHopRtt := ip, rttTime := serverInfo.rttTime }
    else r
  if ip.uint = r.ipNextHopLost.uint ∨ r.lostRate > serverInfo.pingLostRate then
    { r with ipNextHopLost := ip, lostRate := serverInfo.pingLostRate }
  else r

def RoutingInfo.TakesRtt (r : RoutingInfo) (serverInfo : ServerInformation) (ip : IpInfo) : Prop :=
  ip.uint = r.ipNextHopRtt.uint ∨ serverInfo.rttTime < r.rttTime

def RoutingInfo.TakesLost (r : RoutingInfo) (serverInfo : ServerInformation) (ip : IpInfo) : Prop :=
  ip.uint = r.ipNextHopLost.uint ∨ serverInfo.pingLostRate < r.lostRate

instance (r : RoutingInfo) (serverInfo : ServerInformation) (ip : IpInfo) :
    Decidable (r.TakesRtt serverInfo ip) := inferInstanceAs (Decidable (_ ∨ _))

instance (r : RoutingInfo) (serverInfo : ServerInformation) (ip : IpInfo) :
    Decidable (r.TakesLost serverInfo ip) := inferInstanceAs (Decidable (_ ∨ _))

theorem RoutingInfo.learn_eq (r : RoutingInfo) (serverInfo : ServerInformation) (ip : IpInfo) :
    r.learn serverInfo ip =
      { ipNextHopRtt := if r.TakesRtt serverInfo ip then ip else r.ipNextHopRtt
        ipNextHopLost := if r.TakesLost serverInfo ip then ip else r.ipNextHopLost
        rttTime := if r.TakesRtt serverInfo ip then serverInfo.rttTime else r.rttTime
        lostRate := if r.TakesLost serverInfo ip then serverInfo.pingLostRate else r.lostRate
        isActive := true } := by
  by_cases h₁ : ip.uint = r.ipNextHopRtt.uint ∨ serverInfo.rttTime < r.rttTime <;>
    by_cases h₂ : ip.uint = r.ipNextHopLost.uint ∨ serverInfo.pingLostRate < r.lostRate <;>
    simp [learn, TakesRtt, TakesLost, h₁, h₂]

namespace ServerTable

def learnAt (t : ServerTable) (id : Nat) (serverInfo : ServerInformation) (ip : IpInfo) : ServerTable :=
  let row := t.serverInfoes id
  t.setRow id { row with learningTable := row.learningTable.learn serverInfo ip }

def updateLearningTable (t : ServerTable) (serverInfo : ServerInformation) (ip : IpInfo) :
    Option ServerTable :=
  match t.getIndexByIp serverInfo.ip.uint with
  | some id => some (t.learnAt id serverInfo ip)
  | none => (t.insertIntoServerInfoes serverInfo).map fun u => u.learnAt t.known serverInfo ip

def fillForwardingTable (t : ServerTable) : ServerTable :=
  t.mapRows t.known fun _ row => { row with forwardingTable := { row.forwardingTable with
    ipNextHopLost := row.learningTable.ipNextHopLost
    ipNextHopRtt := row.learningTable.ipNextHopRtt } }

def resetLearningTable (t : ServerTable) : ServerTable :=
  t.mapRows t.known fun _ row => { row with learningTable := { row.learningTable with
    ipNextHopLost := t.ipGateway
    rttTime := row.rttTime
    ipNextHopRtt := t.ipGateway
    lostRate := row.pingLostRate } }

end ServerTable

def ServerInformation.checkAlive (row : ServerInformation) : ServerInformation :=
  if row.isReceivedLastPing then row
  else
    let row := if row.pingLostNumbers = 2 then { row with pingLostRate := 1, rttTime := 65535 } else row
    { row with pingLostNumbers := row.pingLostNumbers + 1 }

def lostRateOf (received sent : UInt16) : Float := 1 - received.toFloat / sent.toFloat

def ServerInformation.updateServerInformation (row : ServerInformation) (ipGateway : IpInfo) (now : Int) :
    ServerInformation :=
  let row := { row with sequenceId := row.sequenceId + 1, pingSendTime := now }
  let row :=
    if row.rttTime ≠ 65535 then
      { row with pingSent := row.pingSent + 1
                 pingLostRate := lostRateOf row.pingReceived (row.pingSent + 1) }
    else row
  let row :=
    if row.learningTable.ipNextHopLost.uint = ipGateway.uint then
      { row with learningTable := { row.learningTable with lostRate := row.pingLostRate } }
    else row
  { row with isReceivedLastPing := false }

/-- The duration between two clock readings in nanoseconds, as the 16-bit number of
milliseconds it is stored in. -/
def milliseconds (duration : Int) : UInt16 := UInt16.ofInt (duration.tdiv 1000000)

def ServerInformation.pingReceivedAt (row : ServerInformation) (pingReceivedTime : Int) :
    ServerInformation :=
  let pingTime := milliseconds (pingReceivedTime - row.pingSendTime)
  let row :=
    if row.rttTime = 65535 then { row with rttTime := pingTime, pingSent := row.pingSent + 1 }
    else { row with rttTime := UInt16.ofNat ((row.rttTime.toNat + pingTime.toNat) / 2) }
  { row with
    pingReceived := row.pingReceived + 1
    isReceivedLastPing := true
    pingLostNumbers := 0
    pingLostRate := lostRateOf (row.pingReceived + 1) row.pingSent }

/-! The three updates of a row by field, so that what one of them leaves alone is read off. -/

namespace ServerInformation

theorem checkAlive_eq (row : ServerInformation) : row.checkAlive = { row with
    pingLostRate := if row.isReceivedLastPing = false ∧ row.pingLostNumbers = 2 then 1 else row.pingLostRate
    rttTime := if row.isReceivedLastPing = false ∧ row.pingLostNumbers = 2 then 65535 else row.rttTime
    pingLostNumbers :=
      if row.isReceivedLastPing = false then row.pingLostNumbers + 1 else row.pingLostNumbers } := by
  unfold checkAlive
  by_cases h₁ : row.isReceivedLastPing = true
  · have hn : ¬ row.isReceivedLastPing = false := by simp [h₁]
    rw [if_pos h₁, if_neg hn, if_neg fun h => hn h.1, if_neg fun h => hn h.1]
  · by_cases h₂ : row.pingLostNumbers = 2 <;> simp [h₁, h₂]

/-- The lost rate after a request, which a row that is down keeps. -/
def nextLostRate (row : ServerInformation) : Float :=
  if row.rttTime = 65535 then row.pingLostRate else lostRateOf row.pingReceived (row.pingSent + 1)

theorem updateServerInformation_eq (row : ServerInformation) (ipGateway : IpInfo) (now : Int) :
    row.updateServerInformation ipGateway now = { row with
      sequenceId := row.sequenceId + 1
      pingSendTime := now
      pingSent := if row.rttTime = 65535 then row.pingSent else row.pingSent + 1
      pingLostRate := row.nextLostRate
      learningTable := { row.learningTable with
        lostRate := if row.learningTable.ipNextHopLost.uint = ipGateway.uint then row.nextLostRate
          else row.learningTable.lostRate }
      isReceivedLastPing := false } := by
  unfold updateServerInformation nextLostRate
  by_cases h₁ : row.rttTime = 65535 <;>
    by_cases h₂ : row.learningTable.ipNextHopLost.uint = ipGateway.uint <;> simp [h₁, h₂]

theorem pingReceivedAt_eq (row : ServerInformation) (pingReceivedTime : Int) :
    row.pingReceivedAt pingReceivedTime = { row with
      rttTime :=
        if row.rttTime = 65535 then milliseconds (pingReceivedTime - row.pingSendTime)
        else UInt16.ofNat
          ((row.rttTime.toNat + (milliseconds (pingReceivedTime - row.pingSendTime)).toNat) / 2)
      pingSent := if row.rttTime = 65535 then row.pingSent + 1 else row.pingSent
      pingReceived := row.pingReceived + 1
      isReceivedLastPing := true
      pingLostNumbers := 0
      pingLostRate := lostRateOf (row.pingReceived + 1)
        (if row.rttTime = 65535 then row.pingSent + 1 else row.pingSent) } := by
  unfold pingReceivedAt
  by_cases h : row.rttTime = 65535 <;> simp [h]

end ServerInformation

namespace ServerTable

def checkConnectionsIsAlive (t : ServerTable) : ServerTable :=
  t.mapRows t.configured fun _ row => row.checkAlive

/-- What the command `ping` does to the table; `clock i` is the time the `i`-th request is
sent at. -/
def ping (t : ServerTable) (clock : Nat → Int) : ServerTable :=
  let t := t.checkConnectionsIsAlive
  t.mapRows t.configured fun i row => row.updateServerInformation t.ipGateway (clock i)

/-- Row `i` takes an echo reply for the address; the sequence numbers are compared as `int`. -/
def Accepts (t : ServerTable) (i : Nat) (ip : UInt32) (sequenceId : UInt16) : Prop :=
  (t.serverInfoes i).ip.uint = ip ∧ sequenceId.toNat + 1 = (t.serverInfoes i).sequenceId.toNat

instance (t : ServerTable) (i : Nat) (ip : UInt32) (sequenceId : UInt16) :
    Decidable (t.Accepts i ip sequenceId) := inferInstanceAs (Decidable (_ ∧ _))

def receivePingRow (ip : UInt32) (pingReceivedTime : Int) (sequenceId : UInt16) (t : ServerTable) (i : Nat) :
    Option ServerTable :=
  if t.Accepts i ip sequenceId then
    let row := (t.serverInfoes i).pingReceivedAt pingReceivedTime
    (t.setRow i row).updateLearningTable row t.ipGateway
  else some t

def receivePingPacket (t : ServerTable) (ip : UInt32) (pingReceivedTime : Int) (sequenceId : UInt16) :
    Option ServerTable :=
  (List.range t.configured).foldlM (receivePingRow ip pingReceivedTime sequenceId) t

/-! What one operation can do to the table. -/

section Facts

variable {t u v : ServerTable} {i j id : Nat} {ip : IpInfo} {serverInfo row : ServerInformation}

@[simp] theorem setRow_serverInfoes : (t.setRow i row).serverInfoes = Function.update t.serverInfoes i row :=
  rfl

@[simp] theorem setRow_known : (t.setRow i row).known = t.known := rfl

@[simp] theorem learnAt_serverInfoes_self : (t.learnAt i serverInfo ip).serverInfoes i =
    { t.serverInfoes i with learningTable := (t.serverInfoes i).learningTable.learn serverInfo ip } :=
  Function.update_self ..

theorem learnAt_serverInfoes_of_ne (h : j ≠ i) :
    (t.learnAt i serverInfo ip).serverInfoes j = t.serverInfoes j := Function.update_of_ne h ..

theorem learnAt_serverInfoes : (t.learnAt i serverInfo ip).serverInfoes j =
    { t.serverInfoes j with learningTable :=
        if j = i then (t.serverInfoes j).learningTable.learn serverInfo ip
        else (t.serverInfoes j).learningTable } := by
  by_cases h : j = i
  · rw [h, learnAt_serverInfoes_self, if_pos rfl]
  · rw [learnAt_serverInfoes_of_ne h, if_neg h]

theorem fillForwardingTable_row (hi : i < t.known) : t.fillForwardingTable.serverInfoes i =
    { t.serverInfoes i with forwardingTable := { (t.serverInfoes i).forwardingTable with
        ipNextHopLost := (t.serverInfoes i).learningTable.ipNextHopLost
        ipNextHopRtt := (t.serverInfoes i).learningTable.ipNextHopRtt } } := if_pos hi

theorem resetLearningTable_row (hi : i < t.known) : t.resetLearningTable.serverInfoes i =
    { t.serverInfoes i with learningTable := { (t.serverInfoes i).learningTable with
        ipNextHopLost := t.ipGateway
        rttTime := (t.serverInfoes i).rttTime
        ipNextHopRtt := t.ipGateway
        lostRate := (t.serverInfoes i).pingLostRate } } := if_pos hi

theorem ping_row {clock : Nat → Int} (hi : i < t.configured) : (t.ping clock).serverInfoes i =
    (t.serverInfoes i).checkAlive.updateServerInformation t.ipGateway (clock i) := by
  have hc : t.checkConnectionsIsAlive.serverInfoes i = (t.serverInfoes i).checkAlive := if_pos hi
  rw [← hc]
  exact if_pos hi

theorem ping_row_of_le {clock : Nat → Int} (hi : t.configured ≤ i) :
    (t.ping clock).serverInfoes i = t.serverInfoes i := by
  have hc : t.checkConnectionsIsAlive.serverInfoes i = t.serverInfoes i := if_neg (by omega)
  rw [← hc]
  exact if_neg (show ¬ i < t.configured by omega)

theorem getIndexByIp_eq_some {uint : UInt32} : t.getIndexByIp uint = some i ↔
    i < t.known ∧ (t.serverInfoes i).ip.uint = uint ∧ ∀ j < i, (t.serverInfoes j).ip.uint ≠ uint := by
  simp only [getIndexByIp, List.find?_range_eq_some, List.mem_range, beq_iff_eq, Bool.not_eq_true',
    beq_eq_false_iff_ne, ne_eq]
  tauto

theorem getIndexByIp_eq_none {uint : UInt32} : t.getIndexByIp uint = none ↔
    ∀ i < t.known, (t.serverInfoes i).ip.uint ≠ uint := by
  simp [getIndexByIp]

theorem known_inserted (h : 0 ≤ t.numberOfAllServers) : (t.inserted serverInfo).known = t.known + 1 := by
  simp only [known, inserted]
  omega

theorem inserted_serverInfoes_of_ne (h : j ≠ t.known) :
    (t.inserted serverInfo).serverInfoes j = t.serverInfoes j := Function.update_of_ne h ..

theorem updateLearningTable_cases (h : t.updateLearningTable serverInfo ip = some u) :
    (∃ id, t.getIndexByIp serverInfo.ip.uint = some id ∧ u = t.learnAt id serverInfo ip) ∨
    (t.getIndexByIp serverInfo.ip.uint = none ∧ 0 ≤ t.numberOfAllServers ∧
      t.numberOfAllServers < maxServerNumbers ∧
      u = (t.inserted serverInfo).learnAt t.known serverInfo ip) := by
  simp only [updateLearningTable] at h
  cases hg : t.getIndexByIp serverInfo.ip.uint with
  | some id =>
    rw [hg] at h
    exact Or.inl ⟨id, rfl, (Option.some.inj h).symm⟩
  | none =>
    rw [hg] at h
    obtain ⟨w, hw, rfl⟩ := Option.map_eq_some_iff.mp h
    simp only [insertIntoServerInfoes, Option.ite_none_right_eq_some, Option.some.injEq] at hw
    obtain ⟨⟨h₀, h₁⟩, rfl⟩ := hw
    exact Or.inr ⟨rfl, h₀, h₁, rfl⟩

theorem updateLearningTable_of_found (h : t.getIndexByIp serverInfo.ip.uint = some id) :
    t.updateLearningTable serverInfo ip = some (t.learnAt id serverInfo ip) := by
  simp only [updateLearningTable, h]

/-- What no operation undoes: the counts, the gateway, the map of indices and the
addresses of the known rows. -/
structure Extends (t u : ServerTable) : Prop where
  numberOfServers_eq : u.numberOfServers = t.numberOfServers
  ipGateway_eq : u.ipGateway = t.ipGateway
  ipToId_eq : u.ipToId = t.ipToId
  known_le : t.numberOfAllServers ≤ u.numberOfAllServers
  ip_eq : ∀ i < t.known, (u.serverInfoes i).ip = (t.serverInfoes i).ip

theorem Extends.refl (t : ServerTable) : t.Extends t := ⟨rfl, rfl, rfl, le_refl _, fun _ _ => rfl⟩

theorem Extends.known (h : t.Extends u) : t.known ≤ u.known := Int.toNat_le_toNat h.known_le

theorem Extends.configured (h : t.Extends u) : u.configured = t.configured := by
  rw [ServerTable.configured, h.numberOfServers_eq, ServerTable.configured]

theorem Extends.trans (h : t.Extends u) (h' : u.Extends v) : t.Extends v :=
  ⟨h'.numberOfServers_eq.trans h.numberOfServers_eq, h'.ipGateway_eq.trans h.ipGateway_eq,
    h'.ipToId_eq.trans h.ipToId_eq, h.known_le.trans h'.known_le,
    fun i hi => (h'.ip_eq i (hi.trans_le h.known)).trans (h.ip_eq i hi)⟩

theorem extends_mapRows {n : Nat} {f : Nat → ServerInformation → ServerInformation}
    (hf : ∀ i row, (f i row).ip = row.ip) : t.Extends (t.mapRows n f) := by
  refine ⟨rfl, rfl, rfl, le_refl _, fun i _ => ?_⟩
  simp only [mapRows]
  split_ifs
  · exact hf i _
  · rfl

theorem extends_setRow (h : row.ip = (t.serverInfoes i).ip) : t.Extends (t.setRow i row) := by
  refine ⟨rfl, rfl, rfl, le_refl _, fun j _ => ?_⟩
  by_cases hj : j = i
  · subst hj
    simpa using h
  · simp [Function.update_of_ne hj]

theorem extends_learnAt : t.Extends (t.learnAt i serverInfo ip) := extends_setRow rfl

theorem extends_inserted : t.Extends (t.inserted serverInfo) := by
  refine ⟨rfl, rfl, rfl, ?_, fun j hj => ?_⟩
  · simp only [inserted]
    omega
  · rw [inserted_serverInfoes_of_ne (by omega)]

theorem extends_updateLearningTable (h : t.updateLearningTable serverInfo ip = some u) : t.Extends u := by
  rcases updateLearningTable_cases h with ⟨id, _, rfl⟩ | ⟨_, _, _, rfl⟩
  · exact extends_learnAt
  · exact extends_inserted.trans extends_learnAt

end Facts

end ServerTable

end Overlay
