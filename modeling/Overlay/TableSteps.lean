import Overlay.Node

/-! The table along a run: what start-up makes of the custom information, what every
later step keeps, and the loops of `receive_ping_packet` and `receive_advertise_data`
reduced to their single calls. -/

namespace Overlay

open ByteMemory Execution

def ServerInformation.initial (ipGateway : IpInfo) (serverId : Str) : ServerInformation :=
  let r : RoutingInfo := ⟨ipGateway, ipGateway, 65535, 1, false⟩
  { ServerInformation.zero with
    forwardingTable := r, learningTable := r, ip := ⟨ipIntoUint serverId, serverId⟩,
    pingLostRate := 1, rttTime := 65535 }

namespace ServerTable

variable {t u : ServerTable} {i : Nat}

structure Initial (t : ServerTable) : Prop where
  counts : t.numberOfAllServers = t.numberOfServers
  configured_le : t.numberOfServers ≤ maxServerNumbers
  configured_row : ∀ i < t.configured, ∃ serverId, t.serverInfoes i = .initial t.ipGateway serverId
  unused_row : ∀ i, t.configured ≤ i → t.serverInfoes i = .zero

def lastRow (t : ServerTable) (uint : UInt32) : Nat → Nat
  | 0 => 0
  | n + 1 => if (t.serverInfoes n).ip.uint = uint then n else t.lastRow uint n

/-- The row that `ip_to_id` leads to: the last configured one of the address, else row 0. -/
def startRow (t : ServerTable) (uint : UInt32) : Nat := t.lastRow uint t.configured

theorem lastRow_congr {uint : UInt32} {n : Nat}
    (h : ∀ i < n, (u.serverInfoes i).ip.uint = (t.serverInfoes i).ip.uint) :
    u.lastRow uint n = t.lastRow uint n := by
  induction n with
  | zero => rfl
  | succ n ih =>
    rw [lastRow, lastRow, h n (Nat.lt_succ_self n), ih fun i hi => h i (Nat.lt_succ_of_lt hi)]

theorem lastRow_spec {uint : UInt32} {n : Nat} (hi : i < n) (h : (t.serverInfoes i).ip.uint = uint) :
    i ≤ t.lastRow uint n ∧ t.lastRow uint n < n ∧ (t.serverInfoes (t.lastRow uint n)).ip.uint = uint := by
  induction n with
  | zero => omega
  | succ n ih =>
    rw [lastRow]
    by_cases hn : (t.serverInfoes n).ip.uint = uint
    · rw [if_pos hn]
      exact ⟨by omega, by omega, hn⟩
    · have hne : i ≠ n := fun he => hn (he ▸ h)
      obtain ⟨h₁, h₂, h₃⟩ := ih (by omega)
      rw [if_neg hn]
      exact ⟨h₁, by omega, h₃⟩

theorem lastRow_eq_zero {uint : UInt32} {n : Nat} (h : ∀ i < n, (t.serverInfoes i).ip.uint ≠ uint) :
    t.lastRow uint n = 0 := by
  induction n with
  | zero => rfl
  | succ n ih =>
    rw [lastRow, if_neg (h n (Nat.lt_succ_self n))]
    exact ih fun i hi => h i (Nat.lt_succ_of_lt hi)

theorem lastRow_lt {uint : UInt32} {n : Nat} (hn : 0 < n) : t.lastRow uint n < n := by
  by_cases h : ∃ i < n, (t.serverInfoes i).ip.uint = uint
  · obtain ⟨i, hi, hu⟩ := h
    exact (lastRow_spec hi hu).2.1
  · rwa [lastRow_eq_zero fun i hi hu => h ⟨i, hi, hu⟩]

structure Filled (t : ServerTable) (id : Nat) : Prop where
  row : ∀ i < id, ∃ serverId, t.serverInfoes i = .initial t.ipGateway serverId
  unused : ∀ i, id ≤ i → t.serverInfoes i = .zero
  ipToId : ∀ uint, t.ipToId uint = t.lastRow uint id

theorem Filled.next {id : Nat} (h : t.Filled id) (serverId : Str) :
    (t.initializeServerInformation id serverId).Filled (id + 1) := by
  have hself : (t.initializeServerInformation id serverId).serverInfoes id =
      .initial t.ipGateway serverId := by
    simp only [initializeServerInformation, setRow_serverInfoes, Function.update_self,
      h.unused id (le_refl _)]
    rfl
  have hother {i : Nat} (hi : i ≠ id) :
      (t.initializeServerInformation id serverId).serverInfoes i = t.serverInfoes i :=
    Function.update_of_ne hi ..
  refine ⟨fun i hi => ?_, fun i hi => ?_, fun uint => ?_⟩
  · rcases Nat.lt_succ_iff_lt_or_eq.mp hi with hi | rfl
    · rw [hother (by omega)]
      exact h.row i hi
    · exact ⟨serverId, hself⟩
  · rw [hother (by omega)]
    exact h.unused i (by omega)
  · have hsame : (t.initializeServerInformation id serverId).lastRow uint id = t.lastRow uint id :=
      lastRow_congr fun i hi => by rw [hother (by omega)]
    rw [lastRow, hself, hsame, ← h.ipToId uint]
    show Function.update t.ipToId (ipIntoUint serverId) id uint =
      if ipIntoUint serverId = uint then id else t.ipToId uint
    rw [Function.update_apply]
    by_cases hu : uint = ipIntoUint serverId
    · rw [if_pos hu, if_pos hu.symm]
    · rw [if_neg hu, if_neg (Ne.symm hu)]

theorem Filled.initializeRows {id : Nat} (h : t.Filled id) (n : Nat) (serverTemp : Str) (rest : List Str) :
    (t.initializeRows id serverTemp n rest).Filled (id + n) ∧
      (t.initializeRows id serverTemp n rest).numberOfServers = t.numberOfServers ∧
      (t.initializeRows id serverTemp n rest).numberOfAllServers = t.numberOfAllServers := by
  induction n generalizing t id serverTemp rest with
  | zero => exact ⟨h, rfl, rfl⟩
  | succ n ih =>
    rw [Nat.add_comm n 1, ← Nat.add_assoc, Nat.add_comm 1 n]
    cases rest with
    | nil => exact ih (h.next serverTemp) serverTemp []
    | cons token rest => exact ih (h.next token) token rest

theorem initial_of_initializeTable {info : List Str} (h : initializeTable info = some t) :
    t.Initial ∧ ∀ uint, t.ipToId uint = t.startRow uint := by
  unfold initializeTable at h
  simp only [Option.ite_none_right_eq_some, Option.some.injEq] at h
  obtain ⟨hn, rfl⟩ := h
  set n := atoi ((info.getD 2 []).takeWhile (· ≠ 0))
  have hz : Filled ⟨n, n, fun _ => .zero, ⟨ipIntoUint (info.getD 0 []), info.getD 0 []⟩, fun _ => 0⟩ 0 :=
    ⟨fun i hi => absurd hi (by omega), fun _ _ => rfl, fun _ => rfl⟩
  obtain ⟨hf, h₁, h₂⟩ := hz.initializeRows n.toNat [] (info.drop 3)
  rw [Nat.zero_add] at hf
  refine ⟨⟨h₂.trans h₁.symm, h₁.trans_le hn, ?_, ?_⟩, fun uint => ?_⟩
  · rw [configured, h₁]
    exact hf.row
  · rw [configured, h₁]
    exact hf.unused
  · rw [startRow, configured, h₁]
    exact hf.ipToId uint

/-! Each loop that calls `update_learning_table` keeps what one call keeps. -/

theorem receivePingPacket_induction {P : ServerTable → Prop} {ip : UInt32} {now : Int}
    {sequenceId : UInt16} (h : t.receivePingPacket ip now sequenceId = some u) (h0 : P t)
    (hstep : ∀ {i v w}, i < t.configured → P v → v.Accepts i ip sequenceId →
      (v.setRow i ((v.serverInfoes i).pingReceivedAt now)).updateLearningTable
        ((v.serverInfoes i).pingReceivedAt now) v.ipGateway = some w → P w) : P u := by
  refine foldlM_induction h0 (fun {v i w} hi hv hw => ?_) h
  unfold receivePingRow at hw
  by_cases ha : v.Accepts i ip sequenceId
  · rw [if_pos ha] at hw
    exact hstep (List.mem_range.mp hi) hv ha hw
  · rw [if_neg ha] at hw
    exact Option.some.inj hw ▸ hv

theorem receiveAdvertiseData_induction {P : ServerTable → Prop} {advertiseData : Bytes} {ipSrc : UInt32}
    (h : t.receiveAdvertiseData advertiseData ipSrc = some u) (h0 : P t)
    (hstep : ∀ {records serverInfo v w}, decodeRecords advertiseData = some records →
      serverInfo ∈ records → P v →
      v.updateLearningTable serverInfo ⟨ipSrc, ipUintIntoStr ipSrc⟩ = some w → P w) : P u := by
  rw [receiveAdvertiseData_eq] at h
  obtain ⟨records, hd, h⟩ := Option.bind_eq_some_iff.mp h
  exact foldlM_induction h0 (fun hr hv hw => hstep hd hr hv hw) h

@[simp] theorem checkAlive_ip (row : ServerInformation) : row.checkAlive.ip = row.ip := by
  rw [ServerInformation.checkAlive_eq]

@[simp] theorem updateServerInformation_ip (row : ServerInformation) (gateway : IpInfo) (now : Int) :
    (row.updateServerInformation gateway now).ip = row.ip := by
  rw [ServerInformation.updateServerInformation_eq]

@[simp] theorem pingReceivedAt_ip (row : ServerInformation) (now : Int) :
    (row.pingReceivedAt now).ip = row.ip := by
  rw [ServerInformation.pingReceivedAt_eq]

theorem extends_pingReceivedAt (t : ServerTable) (i : Nat) (now : Int) :
    t.Extends (t.setRow i ((t.serverInfoes i).pingReceivedAt now)) := extends_setRow (pingReceivedAt_ip _ now)

theorem extends_ping (t : ServerTable) (clock : Nat → Int) : t.Extends (t.ping clock) := by
  have h₁ : t.Extends t.checkConnectionsIsAlive := extends_mapRows fun _ row => checkAlive_ip row
  exact h₁.trans (extends_mapRows fun _ row => updateServerInformation_ip row _ _)

theorem extends_routes (t : ServerTable) : t.Extends t.fillForwardingTable.resetLearningTable := by
  have h₁ : t.Extends t.fillForwardingTable := extends_mapRows fun _ _ => rfl
  exact h₁.trans (extends_mapRows fun _ _ => rfl)

theorem extends_step {te : TableEvent} (h : t.step te = some u) : t.Extends u := by
  cases te with
  | ping clock => exact Option.some.inj h ▸ extends_ping t clock
  | advertise =>
    obtain ⟨_, _, rfl⟩ := Option.map_eq_some_iff.mp h
    exact extends_routes t
  | echo ip now sequenceId =>
    refine receivePingPacket_induction (P := t.Extends) h (.refl t) fun {i v w} _ hv _ hw => ?_
    exact (hv.trans (extends_pingReceivedAt v i now)).trans (extends_updateLearningTable hw)
  | advertisement advertiseData ipSrc =>
    refine receiveAdvertiseData_induction (P := t.Extends) h (.refl t) fun _ _ hv hw => ?_
    exact hv.trans (extends_updateLearningTable hw)

/-- Configured rows come first, rows stay within the array, and a row not yet in use is
as static storage left it. -/
structure WellFormed (t : ServerTable) : Prop where
  configured_le : t.numberOfServers ≤ t.numberOfAllServers
  known_le : t.numberOfAllServers ≤ maxServerNumbers
  unused_row : ∀ i, t.known ≤ i → t.serverInfoes i = .zero

theorem WellFormed.configured_le_known (h : t.WellFormed) : t.configured ≤ t.known :=
  Int.toNat_le_toNat h.configured_le

theorem Initial.wellFormed (h : t.Initial) : t.WellFormed := by
  refine ⟨h.counts.ge, h.counts.trans_le h.configured_le, fun i hi => h.unused_row i ?_⟩
  rwa [configured, ← h.counts]

theorem WellFormed.mapRows (h : t.WellFormed) {n : Nat} (hn : n ≤ t.known)
    (f : Nat → ServerInformation → ServerInformation) : (t.mapRows n f).WellFormed := by
  refine ⟨h.configured_le, h.known_le, fun i hi => ?_⟩
  have hi' : t.known ≤ i := hi
  simp only [ServerTable.mapRows, if_neg (show ¬ i < n by omega)]
  exact h.unused_row i hi'

theorem WellFormed.setRow (h : t.WellFormed) (hi : i < t.known) (row : ServerInformation) :
    (t.setRow i row).WellFormed := by
  refine ⟨h.configured_le, h.known_le, fun j hj => ?_⟩
  have hj' : t.known ≤ j := hj
  rw [setRow_serverInfoes, Function.update_of_ne (by omega)]
  exact h.unused_row j hj'

theorem WellFormed.inserted (h : t.WellFormed) (h₀ : 0 ≤ t.numberOfAllServers)
    (h₁ : t.numberOfAllServers < maxServerNumbers) (serverInfo : ServerInformation) :
    (t.inserted serverInfo).WellFormed := by
  have hc := h.configured_le
  refine ⟨?_, ?_, fun j hj => ?_⟩
  · simp only [ServerTable.inserted, ServerTable.setRow]
    omega
  · simp only [ServerTable.inserted]
    omega
  · rw [known_inserted h₀] at hj
    rw [inserted_serverInfoes_of_ne (by omega)]
    exact h.unused_row j (by omega)

theorem WellFormed.updateLearningTable {serverInfo : ServerInformation} {ip : IpInfo} (h : t.WellFormed)
    (he : t.updateLearningTable serverInfo ip = some u) : u.WellFormed := by
  rcases updateLearningTable_cases he with ⟨id, hid, rfl⟩ | ⟨_, h₀, h₁, rfl⟩
  · exact h.setRow (getIndexByIp_eq_some.mp hid).1 _
  · exact (h.inserted h₀ h₁ _).setRow (by rw [known_inserted h₀]; omega) _

theorem WellFormed.step {te : TableEvent} (h : t.WellFormed) (he : t.step te = some u) : u.WellFormed := by
  have hc := h.configured_le_known
  cases te with
  | ping clock =>
    obtain rfl := Option.some.inj he
    have h₁ : t.checkConnectionsIsAlive.WellFormed := h.mapRows hc _
    unfold ping
    exact h₁.mapRows hc _
  | advertise =>
    obtain ⟨_, _, rfl⟩ := Option.map_eq_some_iff.mp he
    exact (h.mapRows (le_refl _) _).mapRows (le_refl _) _
  | echo ip now sequenceId =>
    have hp : u.WellFormed ∧ t.configured ≤ u.known := by
      refine receivePingPacket_induction (P := fun v => v.WellFormed ∧ t.configured ≤ v.known) he ⟨h, hc⟩
        fun hi hv _ hw => ⟨?_, ?_⟩
      · exact (hv.1.setRow (hi.trans_le hv.2) _).updateLearningTable hw
      · exact hv.2.trans (extends_updateLearningTable hw).known
    exact hp.1
  | advertisement advertiseData ipSrc =>
    exact receiveAdvertiseData_induction (P := WellFormed) he h fun _ _ hv hw => hv.updateLearningTable hw

end ServerTable

theorem Machine.run_table {iface : Fin 2 → Interface} {info : Str} {m₀ m : Machine}
    {h : List (Taken Machine Event (List Sent))} (hi : Machine.initializeMachine iface info = some m₀)
    (hr : Run Machine.step m₀ h m) :
    m₀.table.Initial ∧ m₀.table.Extends m.table ∧ m.table.WellFormed := by
  obtain ⟨t, ht, rfl⟩ := Option.map_eq_some_iff.mp hi
  obtain ⟨h₀, _⟩ := ServerTable.initial_of_initializeTable ht
  refine ⟨h₀, ?_⟩
  refine hr.invariant (P := fun m => t.Extends m.table ∧ m.table.WellFormed)
    ⟨.refl t, h₀.wellFormed⟩ fun {m e m' o} hm he => ?_
  rcases Machine.step_table he with ⟨_, hs, _⟩ | ⟨te, _, hs, _⟩
  · rwa [hs]
  · exact ⟨hm.1.trans (ServerTable.extends_step hs), hm.2.step hs⟩

end Overlay
