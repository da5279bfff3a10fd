import Overlay.TableSteps
import Overlay.Binary64

/-! The learned route of a row is one slot for each metric. A row therefore knows what
its next hop reported last, and no more about the others than that nothing reported
since the next hop last got worse is better. -/

namespace Overlay

open ByteMemory Execution BestSlot

instance : ReportOrder UInt16 where
  lt_irrefl := UInt16.lt_irrefl
  le_of_lt := UInt16.le_of_lt
  lt_of_lt_of_le := UInt16.lt_of_lt_of_le

def RoutingInfo.rttSlot (r : RoutingInfo) : Slot UInt32 UInt16 := ⟨r.ipNextHopRtt.uint, r.rttTime⟩

def RoutingInfo.lostSlot (r : RoutingInfo) : Slot UInt32 Float := ⟨r.ipNextHopLost.uint, r.lostRate⟩

theorem RoutingInfo.rttSlot_learn (r : RoutingInfo) (serverInfo : ServerInformation) (ip : IpInfo) :
    (r.learn serverInfo ip).rttSlot = r.rttSlot.offer (ip.uint, serverInfo.rttTime) := by
  by_cases h : r.TakesRtt serverInfo ip
  · have ho : r.rttSlot.offer (ip.uint, serverInfo.rttTime) = ⟨ip.uint, serverInfo.rttTime⟩ := if_pos h
    rw [ho, learn_eq]
    simp only [rttSlot, if_pos h]
  · have ho : r.rttSlot.offer (ip.uint, serverInfo.rttTime) = r.rttSlot := if_neg h
    rw [ho, learn_eq]
    simp only [rttSlot, if_neg h]

theorem RoutingInfo.lostSlot_learn (r : RoutingInfo) (serverInfo : ServerInformation) (ip : IpInfo) :
    (r.learn serverInfo ip).lostSlot = r.lostSlot.offer (ip.uint, serverInfo.pingLostRate) := by
  by_cases h : r.TakesLost serverInfo ip
  · have ho : r.lostSlot.offer (ip.uint, serverInfo.pingLostRate) = ⟨ip.uint, serverInfo.pingLostRate⟩ :=
      if_pos h
    rw [ho, learn_eq]
    simp only [lostSlot, if_pos h]
  · have ho : r.lostSlot.offer (ip.uint, serverInfo.pingLostRate) = r.lostSlot := if_neg h
    rw [ho, learn_eq]
    simp only [lostSlot, if_neg h]

namespace ServerTable

variable {t u v : ServerTable} {i : Nat}

def learnAll (t : ServerTable) (calls : List (ServerInformation × IpInfo)) : Option ServerTable :=
  calls.foldlM (fun t call => t.updateLearningTable call.1 call.2) t

def callsTo (t : ServerTable) (i : Nat) (calls : List (ServerInformation × IpInfo)) :
    List (ServerInformation × IpInfo) :=
  calls.filter fun call => t.getIndexByIp call.1.ip.uint == some i

/-- The learned entry the calls start from: a row inserted meanwhile starts without a route. -/
def learningStart (t : ServerTable) (i : Nat) : RoutingInfo :=
  let r := (t.serverInfoes i).learningTable
  if i < t.known then r else { r with lostRate := 1, rttTime := 65535 }

theorem Extends.getIndexByIp (h : t.Extends u) {uint : UInt32} (hi : t.getIndexByIp uint = some i) :
    u.getIndexByIp uint = some i := by
  rw [getIndexByIp_eq_some] at hi ⊢
  obtain ⟨hk, hu, hfirst⟩ := hi
  refine ⟨hk.trans_le h.known, by rw [h.ip_eq i hk, hu], fun j hj => ?_⟩
  rw [h.ip_eq j (hj.trans hk)]
  exact hfirst j hj

theorem Extends.getIndexByIp_of_lt (h : t.Extends u) {uint : UInt32} (hi : i < t.known)
    (hu : u.getIndexByIp uint = some i) : t.getIndexByIp uint = some i := by
  obtain ⟨_, hip, hfirst⟩ := getIndexByIp_eq_some.mp hu
  refine getIndexByIp_eq_some.mpr ⟨hi, by rw [← h.ip_eq i hi, hip], fun j hj => ?_⟩
  rw [← h.ip_eq j (hj.trans hi)]
  exact hfirst j hj

theorem updateLearningTable_learning {serverInfo : ServerInformation} {ip : IpInfo}
    (h : t.updateLearningTable serverInfo ip = some u) : ∃ id < u.known,
    u.getIndexByIp serverInfo.ip.uint = some id ∧
    (u.serverInfoes id).learningTable = (t.learningStart id).learn serverInfo ip ∧
    (t.known ≤ id → id = t.known ∧ u.known = t.known + 1) ∧ (id < t.known → u.known = t.known) ∧
    ∀ j, j ≠ id → (u.serverInfoes j).learningTable = (t.serverInfoes j).learningTable := by
  have hx := extends_updateLearningTable h
  rcases updateLearningTable_cases h with ⟨id, hid, rfl⟩ | ⟨hnone, h₀, _, rfl⟩
  · have hk := (getIndexByIp_eq_some.mp hid).1
    refine ⟨id, hk, hx.getIndexByIp hid, ?_, fun hle => absurd hk (by omega), fun _ => rfl, fun j hj => ?_⟩
    · rw [learnAt_serverInfoes_self, learningStart, if_pos hk]
    · rw [learnAt_serverInfoes_of_ne hj]
  · have hk : (t.inserted serverInfo).known = t.known + 1 := known_inserted h₀
    have hk' : ((t.inserted serverInfo).learnAt t.known serverInfo ip).known = t.known + 1 := hk
    refine ⟨t.known, by omega, ?_, ?_, fun _ => ⟨rfl, hk⟩, fun hlt => absurd hlt (by omega), fun j hj => ?_⟩
    · refine getIndexByIp_eq_some.mpr ⟨by omega, ?_, fun j hj => ?_⟩
      · rw [learnAt_serverInfoes_self]
        simp only [inserted, setRow_serverInfoes, Function.update_self]
      · rw [hx.ip_eq j hj]
        exact getIndexByIp_eq_none.mp hnone j hj
    · rw [learnAt_serverInfoes_self, learningStart, if_neg (Nat.lt_irrefl _)]
      simp only [inserted, setRow_serverInfoes, Function.update_self]
    · rw [learnAt_serverInfoes_of_ne hj, inserted_serverInfoes_of_ne hj]

theorem extends_learnAll {calls : List (ServerInformation × IpInfo)} (h : t.learnAll calls = some u) :
    t.Extends u :=
  foldlM_induction (P := t.Extends) (.refl t)
    (fun _ hv hw => hv.trans (extends_updateLearningTable hw)) h

theorem learnAll_of_receiveAdvertiseData {advertiseData : Bytes} {ipSrc : UInt32}
    (h : t.receiveAdvertiseData advertiseData ipSrc = some u) :
    ∃ records, decodeRecords advertiseData = some records ∧
      t.learnAll (records.map fun record => (record, ⟨ipSrc, ipUintIntoStr ipSrc⟩)) = some u := by
  rw [receiveAdvertiseData_eq] at h
  obtain ⟨records, hd, hr⟩ := Option.bind_eq_some_iff.mp h
  refine ⟨records, hd, ?_⟩
  rw [learnAll, List.foldlM_map]
  exact hr

section Calls

variable {calls : List (ServerInformation × IpInfo)}

theorem Extends.callsTo (h : t.Extends u)
    (hc : ∀ call ∈ calls, ∃ j < t.known, t.getIndexByIp call.1.ip.uint = some j) (i : Nat) :
    u.callsTo i calls = t.callsTo i calls := by
  refine List.filter_congr fun call hm => ?_
  obtain ⟨j, _, hj⟩ := hc call hm
  rw [hj, h.getIndexByIp hj]

theorem callsTo_eq_nil (hc : ∀ call ∈ calls, ∃ j < t.known, t.getIndexByIp call.1.ip.uint = some j)
    (hi : t.known ≤ i) : t.callsTo i calls = [] := by
  refine List.filter_eq_nil_iff.mpr fun call hm => ?_
  obtain ⟨j, hj, hg⟩ := hc call hm
  rw [hg]
  simp only [beq_iff_eq, Option.some.injEq]
  omega

theorem callsTo_append_singleton {call : ServerInformation × IpInfo} {id : Nat}
    (hg : t.getIndexByIp call.1.ip.uint = some id) (i : Nat) :
    t.callsTo i (calls ++ [call]) = t.callsTo i calls ++ if id = i then [call] else [] := by
  rw [callsTo, List.filter_append]
  by_cases hi : id = i <;> simp [callsTo, hg, hi]

end Calls

theorem learnAll_learning {calls : List (ServerInformation × IpInfo)} (h : t.learnAll calls = some u) :
    (∀ i < u.known, (u.serverInfoes i).learningTable =
      (u.callsTo i calls).foldl (fun r call => r.learn call.1 call.2) (t.learningStart i)) ∧
    (∀ i, u.known ≤ i → (u.serverInfoes i).learningTable = (t.serverInfoes i).learningTable) ∧
    ∀ call ∈ calls, ∃ i < u.known, u.getIndexByIp call.1.ip.uint = some i := by
  induction calls using List.reverseRecOn generalizing u with
  | nil =>
    obtain rfl : t = u := by simpa [learnAll] using h
    refine ⟨fun i hi => ?_, fun i _ => rfl, fun call hc => absurd hc (by simp)⟩
    rw [learningStart, if_pos hi]
    rfl
  | append_singleton calls call ih =>
    rw [learnAll, List.foldlM_append] at h
    obtain ⟨v, hv, h⟩ := Option.bind_eq_some_iff.mp h
    have hu : v.updateLearningTable call.1 call.2 = some u := by simpa using h
    obtain ⟨hrows, hunused, hfound⟩ := ih hv
    have hx := extends_updateLearningTable hu
    obtain ⟨id, hid, hget, hself, hnew, hold, hother⟩ := updateLearningTable_learning hu
    have hlast (i : Nat) : u.callsTo i (calls ++ [call]) =
        v.callsTo i calls ++ if id = i then [call] else [] := by
      rw [callsTo_append_singleton hget, hx.callsTo hfound]
    have hstart : v.learningStart id =
        (v.callsTo id calls).foldl (fun r call => r.learn call.1 call.2) (t.learningStart id) := by
      by_cases hk : id < v.known
      · rw [← hrows id hk, learningStart, if_pos hk]
      · -- no earlier call was about the row that this call has inserted
        have htk : ¬ id < t.known := fun hlt => hk (hlt.trans_le (extends_learnAll hv).known)
        rw [callsTo_eq_nil hfound (by omega), List.foldl_nil, learningStart, learningStart, if_neg hk, if_neg htk,
          hunused id (by omega)]
    refine ⟨fun i hi => ?_, fun i hi => ?_, fun c hc => ?_⟩
    · rw [hlast]
      by_cases he : id = i
      · subst he
        rw [if_pos rfl, List.foldl_append, ← hstart, hself]
        rfl
      · have hk : i < v.known := by
          by_contra hk
          rcases Nat.lt_or_ge id v.known with hlt | hge
          · have := hold hlt
            omega
          · have := hnew hge
            omega
        rw [if_neg he, List.append_nil, hother i (Ne.symm he), hrows i hk]
    · have hle := hx.known
      rw [hother i (by omega), hunused i (by omega)]
    · rcases List.mem_append.mp hc with hc | hc
      · obtain ⟨j, hj, hg⟩ := hfound c hc
        exact ⟨j, hj.trans_le hx.known, hx.getIndexByIp hg⟩
      · obtain rfl := List.mem_singleton.mp hc
        exact ⟨id, hid, hget⟩

/-- What row `i` holds after a reset: the node's own value under the gateway's address, or,
for a row inserted later, the worst value under the address that stood there. -/
def firstRtt (t : ServerTable) (i : Nat) : Slot UInt32 UInt16 :=
  if i < t.known then ⟨t.ipGateway.uint, (t.serverInfoes i).rttTime⟩
  else ⟨(t.serverInfoes i).learningTable.ipNextHopRtt.uint, 65535⟩

def firstLost (t : ServerTable) (i : Nat) : Slot UInt32 Float :=
  if i < t.known then ⟨t.ipGateway.uint, (t.serverInfoes i).pingLostRate⟩
  else ⟨(t.serverInfoes i).learningTable.ipNextHopLost.uint, 1⟩

theorem foldl_learn_slots (r : RoutingInfo) (calls : List (ServerInformation × IpInfo)) :
    (calls.foldl (fun r call => r.learn call.1 call.2) r).rttSlot =
      (calls.map fun call => (call.2.uint, call.1.rttTime)).foldl Slot.offer r.rttSlot ∧
    (calls.foldl (fun r call => r.learn call.1 call.2) r).lostSlot =
      (calls.map fun call => (call.2.uint, call.1.pingLostRate)).foldl Slot.offer r.lostSlot := by
  induction calls generalizing r with
  | nil => exact ⟨rfl, rfl⟩
  | cons call calls ih =>
    simp only [List.foldl_cons, List.map_cons, ← RoutingInfo.rttSlot_learn, ← RoutingInfo.lostSlot_learn]
    exact ih _

theorem learningStart_reset (t : ServerTable) (i : Nat) :
    (t.resetLearningTable.learningStart i).rttSlot = t.firstRtt i ∧
      (t.resetLearningTable.learningStart i).lostSlot = t.firstLost i := by
  have hk : t.resetLearningTable.known = t.known := rfl
  simp only [learningStart, firstRtt, firstLost, hk]
  by_cases hi : i < t.known
  · simp only [if_pos hi, resetLearningTable, mapRows]
    exact ⟨rfl, rfl⟩
  · simp only [if_neg hi, resetLearningTable, mapRows]
    exact ⟨rfl, rfl⟩

def liveTable : ServerTable :=
  { numberOfServers := 1, numberOfAllServers := 1, ipGateway := ⟨0x0A000001, []⟩, ipToId := fun _ => 0,
    serverInfoes := fun _ =>
      { ServerInformation.zero with ip := ⟨0x08080808, []⟩, rttTime := 10, pingLostRate := 0 } }

end ServerTable

end Overlay
