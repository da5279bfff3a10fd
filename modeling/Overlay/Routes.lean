import Overlay.Learning
import Overlay.Lookup

/-! Where a forwarding entry may point. A hop comes from an advertisement, whose sender
has its MAC address stored, or from the gateway; only the row of a server that a peer
has just made known starts with the hop 0.0.0.0. -/

namespace Overlay

open ByteMemory Execution

namespace ServerTable

variable {t u v : ServerTable} {i : Nat}

/-- The next hops of every row: forwarding ones stay, a learned one stays or becomes `hop`. -/
structure HopsFrom (t u : ServerTable) (hop : UInt32) : Prop where
  forwarding : ∀ i, (u.serverInfoes i).forwardingTable = (t.serverInfoes i).forwardingTable
  rtt : ∀ i, (u.serverInfoes i).learningTable.ipNextHopRtt.uint =
    (t.serverInfoes i).learningTable.ipNextHopRtt.uint ∨ (u.serverInfoes i).learningTable.ipNextHopRtt.uint = hop
  lost : ∀ i, (u.serverInfoes i).learningTable.ipNextHopLost.uint =
    (t.serverInfoes i).learningTable.ipNextHopLost.uint ∨ (u.serverInfoes i).learningTable.ipNextHopLost.uint = hop

theorem HopsFrom.refl (t : ServerTable) (hop : UInt32) : t.HopsFrom t hop :=
  ⟨fun _ => rfl, fun _ => Or.inl rfl, fun _ => Or.inl rfl⟩

theorem HopsFrom.trans {hop : UInt32} (h : t.HopsFrom u hop) (h' : u.HopsFrom v hop) : t.HopsFrom v hop := by
  refine ⟨fun i => (h'.forwarding i).trans (h.forwarding i), fun i => ?_, fun i => ?_⟩
  · rcases h'.rtt i with hs | hs
    · rw [hs]
      exact h.rtt i
    · exact Or.inr hs
  · rcases h'.lost i with hs | hs
    · rw [hs]
      exact h.lost i
    · exact Or.inr hs

theorem hopsFrom_learnAt {serverInfo : ServerInformation} {ip : IpInfo} :
    t.HopsFrom (t.learnAt i serverInfo ip) ip.uint := by
  refine ⟨fun j => ?_, fun j => ?_, fun j => ?_⟩
  · rw [learnAt_serverInfoes]
  · rw [learnAt_serverInfoes]
    by_cases hj : j = i
    · by_cases ht : (t.serverInfoes j).learningTable.TakesRtt serverInfo ip <;>
        simp [RoutingInfo.learn_eq, hj, hj ▸ ht]
    · exact Or.inl (by rw [if_neg hj])
  · rw [learnAt_serverInfoes]
    by_cases hj : j = i
    · by_cases ht : (t.serverInfoes j).learningTable.TakesLost serverInfo ip <;>
        simp [RoutingInfo.learn_eq, hj, hj ▸ ht]
    · exact Or.inl (by rw [if_neg hj])

theorem hopsFrom_inserted {serverInfo : ServerInformation} {hop : UInt32} :
    t.HopsFrom (t.inserted serverInfo) hop := by
  have hsame (j : Nat) : ((t.inserted serverInfo).serverInfoes j).forwardingTable =
      (t.serverInfoes j).forwardingTable ∧
      ((t.inserted serverInfo).serverInfoes j).learningTable.ipNextHopRtt =
        (t.serverInfoes j).learningTable.ipNextHopRtt ∧
      ((t.inserted serverInfo).serverInfoes j).learningTable.ipNextHopLost =
        (t.serverInfoes j).learningTable.ipNextHopLost := by
    by_cases hj : j = t.known
    · subst hj
      simp only [inserted, setRow_serverInfoes, Function.update_self, and_self]
    · rw [inserted_serverInfoes_of_ne hj]
      exact ⟨rfl, rfl, rfl⟩
  exact ⟨fun j => (hsame j).1, fun j => Or.inl (by rw [(hsame j).2.1]), fun j => Or.inl (by rw [(hsame j).2.2])⟩

theorem hopsFrom_updateLearningTable {serverInfo : ServerInformation} {ip : IpInfo}
    (h : t.updateLearningTable serverInfo ip = some u) : t.HopsFrom u ip.uint := by
  rcases updateLearningTable_cases h with ⟨id, _, rfl⟩ | ⟨_, _, _, rfl⟩
  · exact hopsFrom_learnAt
  · exact hopsFrom_inserted.trans hopsFrom_learnAt

theorem hopsFrom_ping (t : ServerTable) (clock : Nat → Int) : t.HopsFrom (t.ping clock) t.ipGateway.uint := by
  have hsame (j : Nat) : ((t.ping clock).serverInfoes j).forwardingTable = (t.serverInfoes j).forwardingTable ∧
      ((t.ping clock).serverInfoes j).learningTable.ipNextHopRtt =
        (t.serverInfoes j).learningTable.ipNextHopRtt ∧
      ((t.ping clock).serverInfoes j).learningTable.ipNextHopLost =
        (t.serverInfoes j).learningTable.ipNextHopLost := by
    by_cases hj : j < t.configured
    · rw [ping_row hj, ServerInformation.updateServerInformation_eq, ServerInformation.checkAlive_eq]
      exact ⟨rfl, rfl, rfl⟩
    · rw [ping_row_of_le (by omega)]
      exact ⟨rfl, rfl, rfl⟩
  exact ⟨fun j => (hsame j).1, fun j => Or.inl (by rw [(hsame j).2.1]), fun j => Or.inl (by rw [(hsame j).2.2])⟩

theorem row_advertise (t : ServerTable) (hi : i < t.known) :
    (t.fillForwardingTable.resetLearningTable.serverInfoes i).forwardingTable.ipNextHopRtt =
      (t.serverInfoes i).learningTable.ipNextHopRtt ∧
    (t.fillForwardingTable.resetLearningTable.serverInfoes i).forwardingTable.ipNextHopLost =
      (t.serverInfoes i).learningTable.ipNextHopLost ∧
    (t.fillForwardingTable.resetLearningTable.serverInfoes i).learningTable.ipNextHopRtt = t.ipGateway ∧
    (t.fillForwardingTable.resetLearningTable.serverInfoes i).learningTable.ipNextHopLost = t.ipGateway := by
  rw [resetLearningTable_row (show i < t.fillForwardingTable.known from hi), fillForwardingTable_row hi]
  exact ⟨rfl, rfl, rfl, rfl⟩

theorem known_updateLearningTable {serverInfo : ServerInformation} {ip : IpInfo}
    (hf : (t.getIndexByIp serverInfo.ip.uint).isSome) (h : t.updateLearningTable serverInfo ip = some u) :
    u.known = t.known := by
  rcases updateLearningTable_cases h with ⟨id, _, rfl⟩ | ⟨hn, _, _, _⟩
  · rfl
  · rw [hn] at hf
    cases hf

theorem getIndexByIp_isSome (hi : i < t.known) : (t.getIndexByIp (t.serverInfoes i).ip.uint).isSome := by
  rw [Option.isSome_iff_ne_none]
  intro hn
  exact getIndexByIp_eq_none.mp hn i hi rfl

theorem hopsFrom_echo {ip : UInt32} {now : Int} {sequenceId : UInt16} (hw : t.WellFormed)
    (h : t.receivePingPacket ip now sequenceId = some u) :
    t.HopsFrom u t.ipGateway.uint ∧ u.known = t.known := by
  have hp : (t.HopsFrom u t.ipGateway.uint ∧ u.known = t.known) ∧ u.ipGateway = t.ipGateway := by
    refine receivePingPacket_induction
      (P := fun v => (t.HopsFrom v t.ipGateway.uint ∧ v.known = t.known) ∧ v.ipGateway = t.ipGateway) h
      ⟨⟨.refl t _, rfl⟩, rfl⟩ fun {i v w} hi hv _ hu => ?_
    obtain ⟨⟨hh, hk⟩, hg⟩ := hv
    have hset : v.HopsFrom (v.setRow i ((v.serverInfoes i).pingReceivedAt now)) t.ipGateway.uint := by
      have hrow : ((v.serverInfoes i).pingReceivedAt now).forwardingTable = (v.serverInfoes i).forwardingTable ∧
          ((v.serverInfoes i).pingReceivedAt now).learningTable = (v.serverInfoes i).learningTable := by
        rw [ServerInformation.pingReceivedAt_eq]
        exact ⟨rfl, rfl⟩
      have hsame (j : Nat) : ((v.setRow i ((v.serverInfoes i).pingReceivedAt now)).serverInfoes j).forwardingTable =
          (v.serverInfoes j).forwardingTable ∧
          ((v.setRow i ((v.serverInfoes i).pingReceivedAt now)).serverInfoes j).learningTable =
          (v.serverInfoes j).learningTable := by
        by_cases hj : j = i
        · subst hj
          simpa using hrow
        · simp [Function.update_of_ne hj]
      exact ⟨fun j => (hsame j).1, fun j => Or.inl (by rw [(hsame j).2]), fun j => Or.inl (by rw [(hsame j).2])⟩
    have hupd := hopsFrom_updateLearningTable hu
    rw [hg] at hupd
    have hkn : i < (v.setRow i ((v.serverInfoes i).pingReceivedAt now)).known := by
      have := hw.configured_le_known
      rw [setRow_known]
      omega
    have hfound := getIndexByIp_isSome hkn
    simp only [setRow_serverInfoes, Function.update_self] at hfound
    exact ⟨⟨(hh.trans hset).trans hupd, (known_updateLearningTable hfound hu).trans hk⟩,
      (extends_updateLearningTable hu).ipGateway_eq.trans hg⟩
  exact hp.1

theorem hopsFrom_advertisement {advertiseData : Bytes} {ipSrc : UInt32}
    (h : t.receiveAdvertiseData advertiseData ipSrc = some u) : t.HopsFrom u ipSrc := by
  refine receiveAdvertiseData_induction (P := fun v => t.HopsFrom v ipSrc) h (.refl t _) fun _ _ hv hu => ?_
  exact hv.trans (hopsFrom_updateLearningTable hu)

def ListsKnown (t : ServerTable) (advertiseData : Bytes) : Prop :=
  ∀ records ∈ decodeRecords advertiseData, ∀ record ∈ records, (t.getIndexByIp record.ip.uint).isSome

instance (t : ServerTable) (advertiseData : Bytes) : Decidable (t.ListsKnown advertiseData) :=
  inferInstanceAs (Decidable (∀ records ∈ decodeRecords advertiseData, _))

theorem known_advertisement_iff {advertiseData : Bytes} {ipSrc : UInt32}
    (h : t.receiveAdvertiseData advertiseData ipSrc = some u) :
    u.known = t.known ↔ t.ListsKnown advertiseData := by
  obtain ⟨records, hd, hl⟩ := learnAll_of_receiveAdvertiseData h
  constructor
  · intro hk records' hd' record hm
    obtain rfl := Option.some.inj (hd.symm.trans hd')
    obtain ⟨i, hi, hg⟩ := (learnAll_learning hl).2.2 _ (List.mem_map.mpr ⟨record, hm, rfl⟩)
    rw [hk] at hi
    have hu := (getIndexByIp_eq_some.mp hg).2.1
    rw [(extends_learnAll hl).ip_eq i hi] at hu
    rw [← hu]
    exact getIndexByIp_isSome hi
  · intro hl
    have hp : u.known = t.known ∧ t.Extends u := by
      refine receiveAdvertiseData_induction (P := fun v => v.known = t.known ∧ t.Extends v) h ⟨rfl, .refl t⟩
        fun {records record v w} hd hm hv hu => ?_
      obtain ⟨i, hi⟩ := Option.isSome_iff_exists.mp (hl records hd record hm)
      have hfound : (v.getIndexByIp record.ip.uint).isSome := by
        rw [hv.2.getIndexByIp hi]
        rfl
      exact ⟨(known_updateLearningTable hfound hu).trans hv.1, hv.2.trans (extends_updateLearningTable hu)⟩
    exact hp.1

end ServerTable

namespace Machine

variable {m u v : Machine}

def Knows (m : Machine) (hop : UInt32) : Prop := hop = m.table.ipGateway.uint ∨ (m.ipToMac hop).isSome

instance (m : Machine) (hop : UInt32) : Decidable (m.Knows hop) := inferInstanceAs (Decidable (_ ∨ _))

theorem sendUdpPacket_isSome_iff {ipDst hop : UInt32} {isDsa : Bool} {now : Int} :
    (m.sendUdpPacket ipDst hop isDsa now).isSome ↔ m.Knows hop := by
  by_cases h : hop = m.table.ipGateway.uint <;> simp [sendUdpPacket, Knows, h]

def Routable (m : Machine) : Prop := ∀ i < m.table.known,
  m.Knows (m.table.serverInfoes i).forwardingTable.ipNextHopRtt.uint ∧
    m.Knows (m.table.serverInfoes i).forwardingTable.ipNextHopLost.uint

def LearnsRoutable (m : Machine) : Prop := ∀ i < m.table.known,
  m.Knows (m.table.serverInfoes i).learningTable.ipNextHopRtt.uint ∧
    m.Knows (m.table.serverInfoes i).learningTable.ipNextHopLost.uint

/-- An advertisement that makes a server known comes with an entry for 0.0.0.0. -/
def KeepsRoutable (m : Machine) : Option TableEvent → Prop
  | some (.advertisement advertiseData ipSrc) =>
    m.table.ListsKnown advertiseData ∨ m.Knows 0 ∨ ipSrc = 0
  | _ => True

instance (m : Machine) : (te : Option TableEvent) → Decidable (m.KeepsRoutable te)
  | some (.advertisement _ _) => inferInstanceAs (Decidable (_ ∨ _ ∨ _))
  | some (.ping _) => .isTrue trivial
  | some (.echo _ _ _) => .isTrue trivial
  | some .advertise => .isTrue trivial
  | none => .isTrue trivial

/-- The hops that a step leaves in a table are those it found, the gateway, or the
sender of an advertisement, and each of these stays known. -/
theorem knows_step {e : Event} {out : List Sent} {hop : UInt32} (h : u.step e = some (v, out))
    (hk : u.Knows hop) : v.Knows hop := by
  have hx : v.table.ipGateway = u.table.ipGateway := by
    rcases step_table h with ⟨_, hs, _⟩ | ⟨te, _, hs, _⟩
    · rw [hs]
    · exact (ServerTable.extends_step hs).ipGateway_eq
  rcases hk with hk | hk
  · exact Or.inl (by rw [hx, hk])
  · right
    rcases step_table h with ⟨_, _, hm⟩ | ⟨te, _, _, hm⟩
    · rwa [hm]
    · cases te with
      | advertisement data ipSrc =>
        obtain ⟨mac, hm⟩ := hm
        rw [hm, Function.update_apply]
        by_cases he : hop = ipSrc
        · rw [if_pos he]
          rfl
        · rwa [if_neg he]
      | ping => exact hm.symm ▸ hk
      | advertise => exact hm.symm ▸ hk
      | echo => exact hm.symm ▸ hk

/-- The hops of one row are known, those packets take and those it has learned. -/
def RoutableRow (m : Machine) (i : Nat) : Prop :=
  (m.Knows (m.table.serverInfoes i).forwardingTable.ipNextHopRtt.uint ∧
    m.Knows (m.table.serverInfoes i).forwardingTable.ipNextHopLost.uint) ∧
  m.Knows (m.table.serverInfoes i).learningTable.ipNextHopRtt.uint ∧
    m.Knows (m.table.serverInfoes i).learningTable.ipNextHopLost.uint

theorem routableRow_of_hopsFrom {e : Event} {out : List Sent} {hop : UInt32} {i : Nat}
    (h : u.step e = some (v, out)) (hh : u.table.HopsFrom v.table hop) (hv : v.Knows hop)
    (hr : u.RoutableRow i) : v.RoutableRow i := by
  refine ⟨?_, ?_, ?_⟩
  · rw [hh.forwarding i]
    exact ⟨knows_step h hr.1.1, knows_step h hr.1.2⟩
  · rcases hh.rtt i with hs | hs
    · rw [hs]
      exact knows_step h hr.2.1
    · rwa [hs]
  · rcases hh.lost i with hs | hs
    · rw [hs]
      exact knows_step h hr.2.2
    · rwa [hs]

theorem routableRow_step {e : Event} {out : List Sent} {i : Nat} (hw : u.table.WellFormed)
    (hi : i < u.table.known) (hr : u.RoutableRow i) (h : u.step e = some (v, out)) : v.RoutableRow i := by
  have hg : v.Knows u.table.ipGateway.uint := knows_step h (Or.inl rfl)
  rcases step_table h with ⟨_, hs, _⟩ | ⟨te, _, hs, hm⟩
  · have hh : u.table.HopsFrom v.table u.table.ipGateway.uint := hs ▸ .refl _ _
    exact routableRow_of_hopsFrom h hh hg hr
  · cases te with
    | ping clock =>
      obtain hs := Option.some.inj hs
      exact routableRow_of_hopsFrom h (hs ▸ u.table.hopsFrom_ping clock) hg hr
    | advertise =>
      obtain ⟨_, _, hs⟩ := Option.map_eq_some_iff.mp hs
      obtain ⟨h₁, h₂, h₃, h₄⟩ := u.table.row_advertise hi
      rw [RoutableRow, ← hs, h₁, h₂, h₃, h₄]
      exact ⟨⟨knows_step h hr.2.1, knows_step h hr.2.2⟩, hg, hg⟩
    | echo ip now sequenceId => exact routableRow_of_hopsFrom h (ServerTable.hopsFrom_echo hw hs).1 hg hr
    | advertisement data ipSrc =>
      obtain ⟨mac, hm⟩ := hm
      have hsrc : v.Knows ipSrc := Or.inr (by rw [hm, Function.update_self]; rfl)
      exact routableRow_of_hopsFrom h (ServerTable.hopsFrom_advertisement hs) hsrc hr

/-- The rows an advertisement inserts have 0.0.0.0 for the hops that nobody has set. -/
theorem routable_advertisement {e : Event} {out : List Sent} {data : Bytes} {ipSrc : UInt32}
    (hw : u.table.WellFormed) (hold : ∀ i < u.table.known, v.RoutableRow i) (h : u.step e = some (v, out))
    (hs : u.table.receiveAdvertiseData data ipSrc = some v.table) (hsrc : v.Knows ipSrc)
    (hc : u.table.ListsKnown data ∨ u.Knows 0 ∨ ipSrc = 0) : ∀ i < v.table.known, v.RoutableRow i := by
  have hh := ServerTable.hopsFrom_advertisement hs
  intro i hi
  by_cases hi' : i < u.table.known
  · exact hold i hi'
  · have hzero : v.Knows 0 := by
      rcases hc with hc | hc | hc
      · have := (ServerTable.known_advertisement_iff hs).mpr hc
        omega
      · exact knows_step h hc
      · exact hc ▸ hsrc
    have hrtt := hh.rtt i
    have hlost := hh.lost i
    rw [RoutableRow, hh.forwarding i]
    rw [hw.unused_row i (by omega)] at hrtt hlost ⊢
    refine ⟨⟨hzero, hzero⟩, ?_, ?_⟩
    · rcases hrtt with hrtt | hrtt <;> rw [hrtt]
      · exact hzero
      · exact hsrc
    · rcases hlost with hlost | hlost <;> rw [hlost]
      · exact hzero
      · exact hsrc

theorem listsKnown_of_routable {data : Bytes} {ipSrc : UInt32} {mac : Mac} (hw : u.table.WellFormed)
    (hs : u.table.receiveAdvertiseData data ipSrc = some v.table)
    (hm : v.ipToMac = Function.update u.ipToMac ipSrc (some mac)) (hv : v.Routable) :
    u.table.ListsKnown data ∨ u.Knows 0 ∨ ipSrc = 0 := by
  have hh := ServerTable.hopsFrom_advertisement hs
  have hx := ServerTable.extends_step (show u.table.step (.advertisement data ipSrc) = some v.table from hs)
  by_cases hk : v.table.known = u.table.known
  · exact Or.inl ((ServerTable.known_advertisement_iff hs).mp hk)
  · -- the first inserted row is routed to 0.0.0.0
    have hz := (hv _ (lt_of_le_of_ne hx.known (Ne.symm hk))).1
    rw [hh.forwarding _, hw.unused_row _ (le_refl _)] at hz
    rcases hz with hz | hz
    · exact Or.inr (Or.inl (Or.inl (hz.trans (by rw [hx.ipGateway_eq]))))
    · rw [hm, Function.update_apply] at hz
      by_cases he : ServerInformation.zero.forwardingTable.ipNextHopRtt.uint = ipSrc
      · exact Or.inr (Or.inr he.symm)
      · rw [if_neg he] at hz
        exact Or.inr (Or.inl (Or.inr hz))

theorem routable_step {e : Event} {out : List Sent} (hw : u.table.WellFormed) (hr : u.Routable)
    (hl : u.LearnsRoutable) (h : u.step e = some (v, out)) :
    (u.KeepsRoutable e.onTable → v.Routable ∧ v.LearnsRoutable) ∧ (v.Routable → u.KeepsRoutable e.onTable) := by
  have hold : ∀ i < u.table.known, v.RoutableRow i := fun i hi => routableRow_step hw hi ⟨hr i hi, hl i hi⟩ h
  have hall (hv : ∀ i < v.table.known, v.RoutableRow i) : v.Routable ∧ v.LearnsRoutable :=
    ⟨fun i hi => (hv i hi).1, fun i hi => (hv i hi).2⟩
  have hsame (hk : v.table.known = u.table.known) : v.Routable ∧ v.LearnsRoutable := hall (hk ▸ hold)
  rcases step_table h with ⟨hn, hs, _⟩ | ⟨te, hte, hs, hm⟩
  · rw [hn]
    exact ⟨fun _ => hsame (by rw [hs]), fun _ => trivial⟩
  · rw [hte]
    cases te with
    | ping clock =>
      obtain hs := Option.some.inj hs
      exact ⟨fun _ => hsame (by rw [← hs]; rfl), fun _ => trivial⟩
    | advertise =>
      obtain ⟨_, _, hs⟩ := Option.map_eq_some_iff.mp hs
      exact ⟨fun _ => hsame (by rw [← hs]; rfl), fun _ => trivial⟩
    | echo ip now sequenceId => exact ⟨fun _ => hsame (ServerTable.hopsFrom_echo hw hs).2, fun _ => trivial⟩
    | advertisement data ipSrc =>
      obtain ⟨mac, hm⟩ := hm
      have hsrc : v.Knows ipSrc := Or.inr (by rw [hm, Function.update_self]; rfl)
      exact ⟨fun hc => hall (routable_advertisement hw hold h hs hsrc hc), listsKnown_of_routable hw hs hm⟩

end Machine

section Runs

variable {iface : Fin 2 → Interface} {info : Str} {m₀ m : Machine}
  {h : List (Taken Machine Event (List Sent))}

theorem initial_routable (hi : Machine.initializeMachine iface info = some m₀) :
    m₀.Routable ∧ m₀.LearnsRoutable := by
  obtain ⟨h₀, _⟩ := Machine.run_table hi .start
  have hrow {i : Nat} (hk : i < m₀.table.known) :
      ∃ serverId, m₀.table.serverInfoes i = .initial m₀.table.ipGateway serverId :=
    h₀.configured_row i (by rwa [ServerTable.configured, ← h₀.counts])
  refine ⟨fun i hk => ?_, fun i hk => ?_⟩
  · obtain ⟨serverId, hr⟩ := hrow hk
    rw [hr]
    exact ⟨Or.inl rfl, Or.inl rfl⟩
  · obtain ⟨serverId, hr⟩ := hrow hk
    rw [hr]
    exact ⟨Or.inl rfl, Or.inl rfl⟩

/-- A configured row starts with the gateway, and every later hop comes with a MAC address. -/
theorem run_configured_routable (hi : Machine.initializeMachine iface info = some m₀)
    (hr : Run Machine.step m₀ h m) : ∀ i < m.table.configured, m.RoutableRow i := by
  rw [(Machine.run_table hi hr).2.1.configured]
  induction hr with
  | start =>
    intro i hc
    have hk := hc.trans_le (Machine.run_table hi .start).2.2.configured_le_known
    exact ⟨(initial_routable hi).1 i hk, (initial_routable hi).2 i hk⟩
  | snoc hr he ih =>
    intro i hc
    obtain ⟨_, hx, hw⟩ := Machine.run_table hi hr
    rw [← hx.configured] at hc
    exact Machine.routableRow_step hw (hc.trans_le hw.configured_le_known) (ih i (hx.configured ▸ hc)) he

theorem own_packet_leaves (hi : Machine.initializeMachine iface info = some m₀) (hr : Run Machine.step m₀ h m)
    (hm : m.Routable) {ipDst : Str} (hv : m.table.isServerValid ipDst = true) (now : Int) :
    (m.sendDsaPacket ipDst now).isSome ∧ (m.sendLsaPacket ipDst now).isSome := by
  obtain ⟨_, hk, _⟩ := ServerTable.isServerValid_iff.mp hv
  obtain ⟨hrtt, hlost⟩ := hm _ (run_ipToId_lt hi hr (Nat.zero_lt_of_lt hk) (ipIntoUint ipDst))
  exact ⟨Machine.sendUdpPacket_isSome_iff.mpr hrtt, Machine.sendUdpPacket_isSome_iff.mpr hlost⟩

/-- Every forwarding hop along a run is known exactly if each advertisement lists known
servers only, or 0.0.0.0 is itself a hop with a route. While the hops are known, no own
packet looks up a MAC address in vain. -/
theorem forwarding_hops_known_iff (hi : Machine.initializeMachine iface info = some m₀)
    (hr : Run Machine.step m₀ h m) :
    ((∀ x ∈ h, x.before.KeepsRoutable x.event.onTable) ↔ Visits h m Machine.Routable) ∧
    (m.Routable → ∀ (ipDst : Str) (now : Int), m.table.isServerValid ipDst = true →
      (m.sendDsaPacket ipDst now).isSome ∧ (m.sendLsaPacket ipDst now).isSome) :=
  ⟨hr.visits_iff (P := fun m => m.Routable ∧ m.LearnsRoutable) (initial_routable hi) And.left
      fun hk _ hp he => Machine.routable_step (Machine.run_table hi hk).2.2 hp.1 hp.2 he,
    fun hm _ now hv => own_packet_leaves hi hr hm hv now⟩

theorem forwarding_hops_known_configured : ∃ m₀ h m,
    Machine.initializeMachine sampleIface sampleInfo = some m₀ ∧ Run Machine.step m₀ h m ∧
    (m.table.serverInfoes 0).forwardingTable.ipNextHopRtt.uint = 0xC0A80002 ∧ Visits h m Machine.Routable := by
  obtain ⟨m₀, h, m, hi, hr, hhop, hk⟩ := Machine.reaches sampleIface sampleInfo
    [sampleAdvertisement 0xC0A80002 [sampleRow 0x08080808 10 1 1], .advertise]
    (fun m h => (m.table.serverInfoes 0).forwardingTable.ipNextHopRtt.uint = 0xC0A80002 ∧
      ∀ x ∈ h, x.before.KeepsRoutable x.event.onTable) (by decide +kernel)
  exact ⟨m₀, h, m, hi, hr, hhop, (forwarding_hops_known_iff hi hr).1.mp hk⟩

theorem forwarding_hop_of_learned : ∃ m₀ h m, Machine.initializeMachine sampleIface sampleInfo = some m₀ ∧
    Run Machine.step m₀ h m ∧ 1 < m.table.known ∧
    ¬ m.Knows (m.table.serverInfoes 1).forwardingTable.ipNextHopRtt.uint :=
  Machine.reaches sampleIface sampleInfo [sampleAdvertisement 0xC0A80002 [sampleRow 0x09090909 10 1 1]] _
    (by decide +kernel)

end Runs

end Overlay
