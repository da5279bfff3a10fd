import Overlay.Merging
import Overlay.Offers
import Overlay.Network

/-! The round trip times that a table has for an address: the one the node has measured
itself, which a peer is told of, and the one it has learned. -/

namespace Overlay

open BestSlot ByteMemory Execution

namespace ServerTable

variable {t u : ServerTable} {i : Nat} {s : UInt32}

/-- What is learned of an address; for an unknown one, what a new row starts from. -/
def learnedOf (t : ServerTable) (s : UInt32) : RoutingInfo :=
  (t.getIndexByIp s).elim { RoutingInfo.zero with lostRate := 1, rttTime := 65535 } fun i => (t.serverInfoes i).learningTable

def routeOf (t : ServerTable) (s : UInt32) : Slot UInt32 UInt16 := (t.learnedOf s).rttSlot

theorem learnedOf_of_some (h : t.getIndexByIp s = some i) : t.learnedOf s = (t.serverInfoes i).learningTable := by
  rw [learnedOf, h, Option.elim_some]

theorem learnedOf_of_none (h : t.getIndexByIp s = none) :
    t.learnedOf s = { RoutingInfo.zero with lostRate := 1, rttTime := 65535 } := by
  rw [learnedOf, h, Option.elim_none]

theorem routeOf_of_some (h : t.getIndexByIp s = some i) : t.routeOf s = t.rttSlot i := by
  rw [routeOf, learnedOf_of_some h, rttSlot]

theorem routeOf_of_none (h : t.getIndexByIp s = none) : t.routeOf s = ⟨0, 65535⟩ := by
  rw [routeOf, learnedOf_of_none h]
  rfl

theorem Extends.getIndexByIp_of_le (hx : t.Extends u) (hn : t.getIndexByIp s = none) (hi : u.getIndexByIp s = some i) :
    t.known ≤ i := by
  by_contra hlt
  rw [hx.getIndexByIp_of_lt (by omega) hi] at hn
  cases hn

section Update

variable {serverInfo : ServerInformation} {ip : IpInfo}

theorem learnedOf_updateLearningTable (hw : t.WellFormed) (h : t.updateLearningTable serverInfo ip = some u) (s : UInt32) :
    u.learnedOf s = if serverInfo.ip.uint = s then (t.learnedOf s).learn serverInfo ip else t.learnedOf s := by
  have hx := extends_updateLearningTable h
  obtain ⟨id, hid, hget, hlearn, hnew, hold, hother⟩ := updateLearningTable_learning h
  by_cases hs : serverInfo.ip.uint = s
  · subst hs
    rw [if_pos rfl, learnedOf_of_some hget, hlearn]
    congr 1
    by_cases hk : id < t.known
    · rw [learnedOf_of_some (hx.getIndexByIp_of_lt hk hget), learningStart, if_pos hk]
    · have hnone : t.getIndexByIp serverInfo.ip.uint = none := by
        cases hj : t.getIndexByIp serverInfo.ip.uint with
        | none => rfl
        | some j =>
          obtain rfl := Option.some.inj (hget.symm.trans (hx.getIndexByIp hj))
          exact absurd (getIndexByIp_eq_some.mp hj).1 hk
      rw [learnedOf_of_none hnone, learningStart, if_neg hk, hw.unused_row id (by omega)]
      rfl
  · rw [if_neg hs]
    have hne {j : Nat} (hj : u.getIndexByIp s = some j) : j ≠ id := by
      rintro rfl
      exact hs ((getIndexByIp_eq_some.mp hget).2.1.symm.trans (getIndexByIp_eq_some.mp hj).2.1)
    cases hj : t.getIndexByIp s with
    | some j =>
      have hj' := hx.getIndexByIp hj
      rw [learnedOf_of_some hj, learnedOf_of_some hj', hother j (hne hj')]
    | none =>
      cases hj' : u.getIndexByIp s with
      | none => rw [learnedOf_of_none hj, learnedOf_of_none hj']
      | some j =>
        have hle := hx.getIndexByIp_of_le hj hj'
        have hlt := (getIndexByIp_eq_some.mp hj').1
        have hn := hne hj'
        by_cases hk : id < t.known
        · have := hold hk
          omega
        · have := hnew (by omega)
          omega

theorem routeOf_updateLearningTable (hw : t.WellFormed) (h : t.updateLearningTable serverInfo ip = some u) (s : UInt32) :
    u.routeOf s = if serverInfo.ip.uint = s then (t.routeOf s).offer (ip.uint, serverInfo.rttTime) else t.routeOf s := by
  rw [routeOf, learnedOf_updateLearningTable hw h]
  split_ifs
  · exact RoutingInfo.rttSlot_learn ..
  · rfl

theorem rttTime_updateLearningTable (h : t.updateLearningTable serverInfo ip = some u) (i : Nat) :
    (u.serverInfoes i).rttTime = if i < t.known ∨ u.known ≤ i then (t.serverInfoes i).rttTime else 65535 := by
  have hlearn {v : ServerTable} {id : Nat} :
      ((v.learnAt id serverInfo ip).serverInfoes i).rttTime = (v.serverInfoes i).rttTime := by rw [learnAt_serverInfoes]
  rcases updateLearningTable_cases h with ⟨id, _, rfl⟩ | ⟨_, h₀, _, rfl⟩
  · have hk : i < t.known ∨ (t.learnAt id serverInfo ip).known ≤ i := Nat.lt_or_ge i t.known
    rw [if_pos hk, hlearn]
  · have hk : ((t.inserted serverInfo).learnAt t.known serverInfo ip).known = t.known + 1 := @known_inserted t serverInfo h₀
    rw [hk, hlearn]
    by_cases hi : i = t.known
    · have hn : ¬ (i < t.known ∨ t.known + 1 ≤ i) := by omega
      rw [if_neg hn, hi]
      simp only [inserted, setRow_serverInfoes, Function.update_self]
    · have hp : i < t.known ∨ t.known + 1 ≤ i := by omega
      rw [if_pos hp, inserted_serverInfoes_of_ne hi]

theorem ownRtt_of_some (h : t.getIndexByIp s = some i) : t.ownRtt s = (t.serverInfoes i).rttTime := by
  rw [ownRtt, h, Option.map_some, Option.getD_some]

theorem ownRtt_of_none (h : t.getIndexByIp s = none) : t.ownRtt s = 65535 := by
  rw [ownRtt, h, Option.map_none, Option.getD_none]

theorem ownRtt_updateLearningTable (h : t.updateLearningTable serverInfo ip = some u) (s : UInt32) :
    u.ownRtt s = t.ownRtt s := by
  have hx := extends_updateLearningTable h
  have hrtt := rttTime_updateLearningTable h
  cases hj : t.getIndexByIp s with
  | some j =>
    have hlt := (getIndexByIp_eq_some.mp hj).1
    rw [ownRtt_of_some hj, ownRtt_of_some (hx.getIndexByIp hj), hrtt j, if_pos (Or.inl hlt)]
  | none =>
    rw [ownRtt_of_none hj]
    cases hj' : u.getIndexByIp s with
    | none => exact ownRtt_of_none hj'
    | some j =>
      have hle := hx.getIndexByIp_of_le hj hj'
      have hlt := (getIndexByIp_eq_some.mp hj').1
      rw [ownRtt_of_some hj', hrtt j, if_neg (by omega)]

end Update

/-- What one sender's records do to the table. -/
theorem routeOf_learnAll {calls : List (ServerInformation × IpInfo)} (hw : t.WellFormed) (h : t.learnAll calls = some u) :
    u.WellFormed ∧ ∀ s, u.ownRtt s = t.ownRtt s ∧ u.routeOf s =
      ((calls.filter fun call => call.1.ip.uint = s).map fun call => (call.2.uint, call.1.rttTime)).foldl Slot.offer
        (t.routeOf s) := by
  induction calls generalizing t with
  | nil =>
    obtain rfl : t = u := by simpa [learnAll] using h
    exact ⟨hw, fun s => ⟨rfl, rfl⟩⟩
  | cons call calls ih =>
    obtain ⟨v, hv, hu⟩ := Option.bind_eq_some_iff.mp h
    obtain ⟨hwu, hrest⟩ := ih (hw.updateLearningTable hv) hu
    refine ⟨hwu, fun s => ?_⟩
    obtain ⟨hown, hroute⟩ := hrest s
    refine ⟨hown.trans (ownRtt_updateLearningTable hv s), ?_⟩
    rw [hroute, routeOf_updateLearningTable hw hv]
    by_cases hs : call.1.ip.uint = s
    · rw [if_pos hs, List.filter_cons_of_pos (by simpa using hs), List.map_cons, List.foldl_cons]
    · rw [if_neg hs, List.filter_cons_of_neg (by simpa using hs)]

/-- Only configured rows are measured. -/
def Measured (t : ServerTable) : Prop := ∀ i, t.configured ≤ i → i < t.known → (t.serverInfoes i).rttTime = 65535

theorem Measured.updateLearningTable {serverInfo : ServerInformation} {ip : IpInfo} (h : t.Measured)
    (hu : t.updateLearningTable serverInfo ip = some u) : u.Measured := by
  intro i hc hk
  rw [(extends_updateLearningTable hu).configured] at hc
  rw [rttTime_updateLearningTable hu]
  split_ifs with hi
  · exact h i hc (hi.resolve_right (by omega))
  · rfl

theorem Measured.setRow (h : t.Measured) (hi : i < t.configured) (row : ServerInformation) : (t.setRow i row).Measured := by
  intro j hc hk
  have hne : j ≠ i := fun he => absurd hc (by rw [he]; exact Nat.not_le.mpr hi)
  rw [setRow_serverInfoes, Function.update_of_ne hne]
  exact h j hc hk

theorem Measured.step {te : TableEvent} (h : t.Measured) (hu : t.step te = some u) : u.Measured := by
  cases te with
  | ping clock =>
    obtain rfl := Option.some.inj hu
    intro i hc hk
    rw [ping_row_of_le (show t.configured ≤ i from hc)]
    exact h i hc hk
  | advertise =>
    obtain ⟨_, _, rfl⟩ := Option.map_eq_some_iff.mp hu
    intro i hc hk
    obtain ⟨_, _, hrow⟩ := same_advertise (show i < t.known from hk)
    rw [hrow]
    exact h i hc hk
  | echo ip now sequenceId =>
    have hp : t.Extends u ∧ u.Measured := by
      refine receivePingPacket_induction (P := fun v => t.Extends v ∧ v.Measured) hu ⟨.refl t, h⟩
        fun {j v w} hj hv _ hw => ⟨?_, ?_⟩
      · exact (hv.1.trans (extends_pingReceivedAt v j now)).trans (extends_updateLearningTable hw)
      · exact (hv.2.setRow (hv.1.configured.symm ▸ hj) _).updateLearningTable hw
    exact hp.2
  | advertisement advertiseData ipSrc =>
    exact receiveAdvertiseData_induction (P := Measured) hu h fun _ _ hv hw => hv.updateLearningTable hw

theorem Initial.measured (h : t.Initial) : t.Measured := by
  intro i hc hk
  rw [known, h.counts, ← configured] at hk
  omega

/-- The records of an advertisement give each server the round trip time that the sender has
for it, and a server is listed if and only if the sender has one. -/
theorem records_of_server {advertiseData : Bytes} {records : List ServerInformation} (hx : t.Indexed) (hm : t.Measured)
    (hc : t.configured ≤ t.known) (h : t.advertiseData = some advertiseData)
    (hr : decodeRecords advertiseData = some records) (s : UInt32) :
    (∀ record ∈ records, record.ip.uint = s → record.rttTime = t.ownRtt s) ∧
      ((∃ record ∈ records, record.ip.uint = s) ↔ t.ownRtt s ≠ 65535) := by
  rw [decodeRecords_advertiseData h] at hr
  obtain rfl := Option.some.inj hr
  have hrow {record : ServerInformation} (hrecord : record ∈ (t.advertised t.configured).map ServerInformation.received)
      (hs : record.ip.uint = s) : record.rttTime = t.ownRtt s ∧ record.rttTime ≠ 65535 := by
    obtain ⟨row, hrow, rfl⟩ := List.mem_map.mp hrecord
    obtain ⟨hrow, hlive⟩ := List.mem_filter.mp hrow
    obtain ⟨j, hj, rfl⟩ := List.mem_map.mp hrow
    have hj : j < t.known := (List.mem_range.mp hj).trans_le hc
    have hget : t.getIndexByIp s = some j := by
      rw [← hs]
      exact hx j hj
    exact ⟨(ownRtt_of_some hget).symm, of_decide_eq_true hlive⟩
  refine ⟨fun record hrecord hs => (hrow hrecord hs).1, ⟨?_, fun hne => ?_⟩⟩
  · rintro ⟨record, hrecord, hs⟩
    rw [← (hrow hrecord hs).1]
    exact (hrow hrecord hs).2
  · cases hj : t.getIndexByIp s with
    | none => exact absurd (ownRtt_of_none hj) hne
    | some j =>
      rw [ownRtt_of_some hj] at hne
      obtain ⟨hk, hs, _⟩ := getIndexByIp_eq_some.mp hj
      have hconfigured : j < t.configured := by
        by_contra hle
        exact hne (hm j (by omega) hk)
      refine ⟨(t.serverInfoes j).received, List.mem_map_of_mem (List.mem_filter.mpr ⟨?_, decide_eq_true hne⟩), hs⟩
      exact List.mem_map.mpr ⟨j, List.mem_range.mpr hconfigured, rfl⟩

/-- A node that takes the advertisement of a sender's table. -/
theorem receives_own {v : ServerTable} {advertiseData : Bytes} {ipSrc : UInt32} (hw : t.WellFormed) (hx : v.Indexed)
    (hm : v.Measured) (hc : v.configured ≤ v.known) (hv : v.advertiseData = some advertiseData)
    (h : t.receiveAdvertiseData advertiseData ipSrc = some u) (s : UInt32) :
    u.ownRtt s = t.ownRtt s ∧ (u.getIndexByIp s = none ↔ t.getIndexByIp s = none ∧ v.ownRtt s = 65535) ∧
      ∃ offers, (∀ x ∈ offers, x = (ipSrc, v.ownRtt s)) ∧ (offers = [] ↔ v.ownRtt s = 65535) ∧
        u.routeOf s = offers.foldl Slot.offer (t.routeOf s) := by
  obtain ⟨records, hd, hl⟩ := learnAll_of_receiveAdvertiseData h
  obtain ⟨hvalue, hlisted⟩ := records_of_server hx hm hc hv hd s
  obtain ⟨hown, hroute⟩ := (routeOf_learnAll hw hl).2 s
  refine ⟨hown, ?_, _, ?_, ?_, hroute⟩
  · rw [getIndexByIp_learnAll hl, and_congr_right_iff]
    intro _
    rw [← not_iff_not, ← ne_eq (v.ownRtt s), ← hlisted]
    simp
  · intro x hmem
    obtain ⟨call, hcall, rfl⟩ := List.mem_map.mp hmem
    obtain ⟨hcall, hs⟩ := List.mem_filter.mp hcall
    obtain ⟨record, hrecord, rfl⟩ := List.mem_map.mp hcall
    rw [hvalue record hrecord (of_decide_eq_true hs)]
  · rw [List.map_eq_nil_iff, List.filter_eq_nil_iff, ← not_iff_not, ← ne_eq (v.ownRtt s), ← hlisted]
    simp

theorem ownRtt_advertise (t : ServerTable) (s : UInt32) :
    t.fillForwardingTable.resetLearningTable.ownRtt s = t.ownRtt s ∧
      (t.fillForwardingTable.resetLearningTable.getIndexByIp s = none ↔ t.getIndexByIp s = none) ∧
      t.fillForwardingTable.resetLearningTable.routeOf s =
        ⟨if t.getIndexByIp s = none then 0 else t.ipGateway.uint, t.ownRtt s⟩ := by
  have hx := extends_routes t
  cases hj : t.getIndexByIp s with
  | none =>
    have hn : t.fillForwardingTable.resetLearningTable.getIndexByIp s = none := by
      cases hj' : t.fillForwardingTable.resetLearningTable.getIndexByIp s with
      | none => rfl
      | some j => exact absurd (getIndexByIp_eq_some.mp hj').1 (Nat.not_lt.mpr (hx.getIndexByIp_of_le hj hj'))
    rw [ownRtt_of_none hn, ownRtt_of_none hj, routeOf_of_none hn, hn, if_pos rfl]
    exact ⟨rfl, Iff.rfl, rfl⟩
  | some j =>
    have hj' := hx.getIndexByIp hj
    have hk : j < t.fillForwardingTable.known := (getIndexByIp_eq_some.mp hj).1
    rw [ownRtt_of_some hj', ownRtt_of_some hj, routeOf_of_some hj', rttSlot, resetLearningTable_row hk,
      fillForwardingTable_row (show j < t.known from hk), hj', if_neg (by simp)]
    exact ⟨rfl, by simp, rfl⟩

end ServerTable

end Overlay
