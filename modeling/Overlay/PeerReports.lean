import Overlay.Routes

/-! A learned route by way of a peer: it carries the round trip time of the last
advertisement in which that peer listed the server, and none of the node's other
operations can leave it with another one. -/

namespace Overlay

open BestSlot ByteMemory Execution

/-- The round trip time that an advertisement gives for a server, in its last record. -/
def lastRtt (s : UInt32) (records : List ServerInformation) : Option UInt16 :=
  (records.filter fun record => record.ip.uint = s).getLast?.map ServerInformation.rttTime

def TableEvent.reported (hop s : UInt32) : TableEvent → Option UInt16
  | .advertisement advertiseData ipSrc =>
    if ipSrc = hop then (decodeRecords advertiseData).bind (lastRtt s) else none
  | _ => none

namespace ServerTable

variable {t u v : ServerTable} {i : Nat} {hop : UInt32}

def rttSlot (t : ServerTable) (i : Nat) : Slot UInt32 UInt16 := (t.serverInfoes i).learningTable.rttSlot

theorem rttSlot_learnAt {id : Nat} {serverInfo : ServerInformation} {ip : IpInfo} :
    (t.learnAt id serverInfo ip).rttSlot i = t.rttSlot i ∨
      ((t.learnAt id serverInfo ip).rttSlot i).hop = ip.uint := by
  by_cases hi : i = id
  · subst hi
    have hs : (t.learnAt i serverInfo ip).rttSlot i = (t.rttSlot i).offer (ip.uint, serverInfo.rttTime) := by
      rw [rttSlot, learnAt_serverInfoes_self, RoutingInfo.rttSlot_learn]
      rfl
    rw [hs, Slot.offer]
    split_ifs
    · exact Or.inr rfl
    · exact Or.inl rfl
  · exact Or.inl (by rw [rttSlot, rttSlot, learnAt_serverInfoes_of_ne hi])

theorem rttSlot_updateLearningTable {serverInfo : ServerInformation} {ip : IpInfo} (hi : i < t.known)
    (h : t.updateLearningTable serverInfo ip = some u) :
    u.rttSlot i = t.rttSlot i ∨ (u.rttSlot i).hop = ip.uint := by
  rcases updateLearningTable_cases h with ⟨id, _, rfl⟩ | ⟨_, _, _, rfl⟩
  · exact rttSlot_learnAt
  · have hsame : (t.inserted serverInfo).rttSlot i = t.rttSlot i := by
      rw [rttSlot, inserted_serverInfoes_of_ne (by omega), rttSlot]
    rw [← hsame]
    exact rttSlot_learnAt

theorem rttSlot_echo {ip : UInt32} {now : Int} {sequenceId : UInt16} (hi : i < t.known)
    (h : t.receivePingPacket ip now sequenceId = some u) :
    u.rttSlot i = t.rttSlot i ∨ (u.rttSlot i).hop = t.ipGateway.uint := by
  have hp : t.Extends u ∧ (u.rttSlot i = t.rttSlot i ∨ (u.rttSlot i).hop = t.ipGateway.uint) := by
    refine receivePingPacket_induction
      (P := fun v => t.Extends v ∧ (v.rttSlot i = t.rttSlot i ∨ (v.rttSlot i).hop = t.ipGateway.uint)) h
      ⟨.refl t, Or.inl rfl⟩ fun {j v w} _ hv _ hw => ?_
    obtain ⟨hx, hv⟩ := hv
    have hset := extends_pingReceivedAt v j now
    refine ⟨(hx.trans hset).trans (extends_updateLearningTable hw), ?_⟩
    have hsame : (v.setRow j ((v.serverInfoes j).pingReceivedAt now)).rttSlot i = v.rttSlot i := by
      by_cases hj : i = j
      · subst hj
        rw [rttSlot, setRow_serverInfoes, Function.update_self, ServerInformation.pingReceivedAt_eq]
        rfl
      · rw [rttSlot, setRow_serverInfoes, Function.update_of_ne hj, rttSlot]
    have hle := hx.known
    have hk : i < (v.setRow j ((v.serverInfoes j).pingReceivedAt now)).known := hi.trans_le hle
    have hnew := rttSlot_updateLearningTable hk hw
    rw [hsame] at hnew
    rcases hnew with hn | hn
    · rw [hn]
      exact hv
    · exact Or.inr (hn.trans (congrArg _ hx.ipGateway_eq))
  exact hp.2

theorem callsTo_advertisement {records : List ServerInformation} {ip : IpInfo} {s : UInt32}
    (hf : ∀ record ∈ records, ∃ j, t.getIndexByIp record.ip.uint = some j) (hi : t.getIndexByIp s = some i) :
    t.callsTo i (records.map fun record => (record, ip)) =
      (records.filter fun record => record.ip.uint = s).map fun record => (record, ip) := by
  rw [callsTo, List.filter_map]
  congr 1
  refine List.filter_congr fun record hm => ?_
  obtain ⟨j, hj⟩ := hf record hm
  have hiff : t.getIndexByIp record.ip.uint = some i ↔ record.ip.uint = s := by
    constructor
    · intro hg
      exact ((getIndexByIp_eq_some.mp hg).2.1).symm.trans (getIndexByIp_eq_some.mp hi).2.1
    · intro he
      rw [he, hi]
  by_cases he : record.ip.uint = s
  · simp [he, hi]
  · have hne := mt hiff.mp he
    simpa [he] using hne

theorem rttSlot_advertisement {advertiseData : Bytes} {ipSrc s : UInt32}
    (h : t.receiveAdvertiseData advertiseData ipSrc = some u) (hi : u.getIndexByIp s = some i) :
    ∃ records, decodeRecords advertiseData = some records ∧
      (((u.rttSlot i).hop ≠ ipSrc ∧ u.rttSlot i = (t.learningStart i).rttSlot) ∨
      ((u.rttSlot i).hop = ipSrc ∧
        u.rttSlot i = (lastRtt s records).elim (t.learningStart i).rttSlot (Slot.mk ipSrc))) := by
  obtain ⟨records, hd, hl⟩ := learnAll_of_receiveAdvertiseData h
  refine ⟨records, hd, ?_⟩
  obtain ⟨hrows, _, hfound⟩ := learnAll_learning hl
  have hk := (getIndexByIp_eq_some.mp hi).1
  have hf (record) (hm : record ∈ records) : ∃ j, u.getIndexByIp record.ip.uint = some j := by
    obtain ⟨j, _, hj⟩ := hfound _ (List.mem_map.mpr ⟨record, hm, rfl⟩)
    exact ⟨j, hj⟩
  have hslot := (foldl_learn_slots (t.learningStart i)
    (u.callsTo i (records.map fun record => (record, ⟨ipSrc, ipUintIntoStr ipSrc⟩)))).1
  rw [← hrows i hk, callsTo_advertisement hf hi] at hslot
  have hvalues : (((records.filter fun record => record.ip.uint = s).map fun record =>
      ((record, ⟨ipSrc, ipUintIntoStr ipSrc⟩) : ServerInformation × IpInfo)).map fun call =>
        (call.2.uint, call.1.rttTime)) =
      ((records.filter fun record => record.ip.uint = s).map ServerInformation.rttTime).map fun v => (ipSrc, v) := by
    rw [List.map_map, List.map_map]
    rfl
  rw [hvalues] at hslot
  have hoffer := foldl_offer_of_hop (t.learningStart i).rttSlot ipSrc
    ((records.filter fun record => record.ip.uint = s).map ServerInformation.rttTime)
  rw [← hslot, List.getLast?_map] at hoffer
  exact hoffer

theorem rttSlot_learningStart (hi : i < t.known) : (t.learningStart i).rttSlot = t.rttSlot i := by
  rw [learningStart, if_pos hi, rttSlot]

theorem hop_learningStart (hw : t.WellFormed) (hi : t.known ≤ i) : (t.learningStart i).rttSlot.hop = 0 := by
  rw [learningStart, if_neg (by omega), hw.unused_row i hi]
  rfl

/-- A step that leaves a peer as the next hop has either reported the value the row now
has, or has not touched it. -/
theorem rttSlot_step {te : TableEvent} {s : UInt32} (hw : t.WellFormed) (h : t.step te = some u)
    (hi : u.getIndexByIp s = some i) (hhop : (u.rttSlot i).hop = hop) (hg : hop ≠ t.ipGateway.uint)
    (hz : hop ≠ 0) : te ≠ .advertise ∧ (te.reported hop s = some (u.rttSlot i).value ∨
      te.reported hop s = none ∧ i < t.known ∧ u.rttSlot i = t.rttSlot i) := by
  have hk := (getIndexByIp_eq_some.mp hi).1
  cases te with
  | ping clock =>
    obtain rfl := Option.some.inj h
    have hk : i < t.known := hk
    refine ⟨nofun, Or.inr ⟨rfl, hk, ?_⟩⟩
    by_cases hc : i < t.configured
    · rw [rttSlot, ping_row hc, ServerInformation.updateServerInformation_eq, ServerInformation.checkAlive_eq]
      rfl
    · rw [rttSlot, ping_row_of_le (by omega), rttSlot]
  | advertise =>
    obtain ⟨_, _, rfl⟩ := Option.map_eq_some_iff.mp h
    refine absurd ?_ hg
    rw [← hhop]
    exact congrArg IpInfo.uint (t.row_advertise hk).2.2.1
  | echo ip now sequenceId =>
    have hk' : i < t.known := by rwa [(hopsFrom_echo hw h).2] at hk
    refine ⟨nofun, Or.inr ⟨rfl, hk', ?_⟩⟩
    rcases rttSlot_echo hk' h with hs | hs
    · exact hs
    · exact absurd (hhop.symm.trans hs) hg
  | advertisement advertiseData ipSrc =>
    refine ⟨nofun, ?_⟩
    obtain ⟨records, hd, hs⟩ := rttSlot_advertisement h hi
    have hsame (he : u.rttSlot i = (t.learningStart i).rttSlot) : i < t.known ∧ u.rttSlot i = t.rttSlot i := by
      by_cases hlt : i < t.known
      · exact ⟨hlt, by rw [he, rttSlot_learningStart hlt]⟩
      · rw [he, hop_learningStart hw (by omega)] at hhop
        exact absurd hhop.symm hz
    rcases hs with ⟨hne, hs⟩ | ⟨he, hs⟩
    · rw [hhop] at hne
      exact Or.inr ⟨if_neg (Ne.symm hne), hsame hs⟩
    · have hrep : TableEvent.reported hop s (.advertisement advertiseData ipSrc) = lastRtt s records := by
        rw [TableEvent.reported, if_pos (he.symm.trans hhop), hd, Option.bind_some]
      rw [hrep]
      cases hl : lastRtt s records with
      | none =>
        rw [hl] at hs
        exact Or.inr ⟨rfl, hsame hs⟩
      | some v =>
        rw [hl] at hs
        exact Or.inl (by rw [hs]; rfl)

end ServerTable

def Event.reported (hop s : UInt32) (e : Event) : Option UInt16 := e.onTable.bind (TableEvent.reported hop s)

/-- The last report of a peer that is the next hop of a row: it stands in the row, and
neither a reset nor another report of this peer has come after it. -/
theorem run_reported {iface : Fin 2 → Interface} {info : Str} {m₀ m : Machine}
    {h : List (Taken Machine Event (List Sent))} {i : Nat} {hop s : UInt32}
    (hi : Machine.initializeMachine iface info = some m₀) (hr : Run Machine.step m₀ h m)
    (hs : m.table.getIndexByIp s = some i) (hhop : (m.table.rttSlot i).hop = hop)
    (hg : hop ≠ m₀.table.ipGateway.uint) (hz : hop ≠ 0) : ∃ h₁ x h₂, h = h₁ ++ x :: h₂ ∧
      x.event.reported hop s = some (m.table.rttSlot i).value ∧
      ∀ y ∈ h₂, y.event ≠ .advertise ∧ y.event.reported hop s = none := by
  induction hr with
  | start =>
    obtain ⟨h₀, _, _⟩ := Machine.run_table hi .start
    have hc : i < m₀.table.configured := by
      rw [ServerTable.configured, ← h₀.counts]
      exact (ServerTable.getIndexByIp_eq_some.mp hs).1
    obtain ⟨serverId, hrow⟩ := h₀.configured_row i hc
    refine absurd ?_ hg
    rw [← hhop, ServerTable.rttSlot, hrow]
    rfl
  | @snoc h t u e o hr he ih =>
    obtain ⟨_, hx, hw⟩ := Machine.run_table hi hr
    -- the step has reported the value itself, or an earlier one has and this one is added to the rest
    have hcases : e ≠ .advertise ∧ (e.reported hop s = some (u.table.rttSlot i).value ∨
        e.reported hop s = none ∧ i < t.table.known ∧ u.table.rttSlot i = t.table.rttSlot i ∧
          t.table.Extends u.table) := by
      rcases Machine.step_table he with ⟨hn, ht, _⟩ | ⟨te, hte, ht, _⟩
      · refine ⟨fun ha => ?_, Or.inr ⟨by rw [Event.reported, hn]; rfl, ?_, by rw [ht], ht ▸ .refl _⟩⟩
        · rw [ha] at hn
          cases hn
        · rw [← ht]
          exact (ServerTable.getIndexByIp_eq_some.mp hs).1
      · obtain ⟨hne, hc⟩ := ServerTable.rttSlot_step hw ht hs hhop (hx.ipGateway_eq ▸ hg) hz
        refine ⟨fun ha => ?_, ?_⟩
        · rw [ha] at hte
          exact hne (Option.some.inj hte).symm
        · rw [Event.reported, hte, Option.bind_some]
          rcases hc with hc | ⟨hnone, hk, hsame⟩
          · exact Or.inl hc
          · exact Or.inr ⟨hnone, hk, hsame, ServerTable.extends_step ht⟩
    obtain ⟨hne, hrep | ⟨hnone, hk, hsame, hext⟩⟩ := hcases
    · exact ⟨h, ⟨t, e, o⟩, [], rfl, hrep, fun y hy => absurd hy (by simp)⟩
    · obtain ⟨h₁, x, h₂, rfl, hrep, hrest⟩ := ih (hext.getIndexByIp_of_lt hk hs) (hsame ▸ hhop)
      refine ⟨h₁, x, h₂ ++ [⟨t, e, o⟩], by simp, hsame ▸ hrep, fun y hy => ?_⟩
      rcases List.mem_append.mp hy with hy | hy
      · exact hrest y hy
      · rw [List.mem_singleton.mp hy]
        exact ⟨hne, hnone⟩

end Overlay
