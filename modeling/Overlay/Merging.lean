import Overlay.Capacity
import Overlay.Reports

/-! The advertisements that arrive between two commands `advertise`, from senders that
are all different. The learned values of an address then do not depend on the order of
arrival, although the row of a new address does. -/

namespace Overlay

open ByteMemory Execution BestSlot

namespace ServerTable

variable {t u : ServerTable} {uint : UInt32} {i : Nat}

def knownAddresses (t : ServerTable) : Finset UInt32 :=
  (Finset.range t.known).image fun i => (t.serverInfoes i).ip.uint

def learnedRtt (t : ServerTable) (uint : UInt32) : Option UInt16 :=
  (t.getIndexByIp uint).map fun i => (t.serverInfoes i).learningTable.rttTime

def learnedLost (t : ServerTable) (uint : UInt32) : Option Float :=
  (t.getIndexByIp uint).map fun i => (t.serverInfoes i).learningTable.lostRate

/-- The node's own value, or the one that a new row starts from. -/
def ownRtt (t : ServerTable) (uint : UInt32) : UInt16 :=
  ((t.getIndexByIp uint).map fun i => (t.serverInfoes i).rttTime).getD 65535

def ownLost (t : ServerTable) (uint : UInt32) : Float :=
  ((t.getIndexByIp uint).map fun i => (t.serverInfoes i).pingLostRate).getD 1

def recordsOf (received : List Advertisement) (uint : UInt32) : List ServerInformation :=
  (received.flatMap Advertisement.records).filter fun record => record.ip.uint = uint

def listedAddresses (received : List Advertisement) : Finset UInt32 :=
  ((received.flatMap Advertisement.records).map fun record => record.ip.uint).toFinset

/-- `receive_advertise_data` for one advertisement after the other. -/
def receiveAll (t : ServerTable) (received : List Advertisement) : Option ServerTable :=
  received.foldlM (fun t a => t.learnAll a.calls) t

structure FromDistinctSenders (t : ServerTable) (received : List Advertisement) : Prop where
  senders : (received.map (·.ipSrc)).Nodup
  sender_ne : ∀ a ∈ received, a.ipSrc ≠ t.ipGateway.uint ∧ a.ipSrc ≠ 0
  servers : ∀ a ∈ received, (a.records.map (·.ip.uint)).Nodup
  counted : ∀ a ∈ received, ∀ record ∈ a.records, record.pingSent ≠ 0

theorem mem_knownAddresses : uint ∈ t.knownAddresses ↔ t.getIndexByIp uint ≠ none := by
  rw [ne_eq, getIndexByIp_eq_none, knownAddresses]
  simp

theorem receiveAll_eq_learnAll (t : ServerTable) (received : List Advertisement) :
    t.receiveAll received = t.learnAll (received.flatMap Advertisement.calls) := by
  induction received generalizing t with
  | nil => rfl
  | cons a received ih =>
    rw [List.flatMap_cons, learnAll, List.foldlM_append, receiveAll, List.foldlM_cons]
    exact bind_congr fun v => ih v

theorem receiveAll_of_decode {received : List Advertisement}
    (h : ∀ a ∈ received, ∃ records, decodeRecords a.advertiseData = some records) :
    t.receiveAll received = received.foldlM (fun t a => t.receiveAdvertiseData a.advertiseData a.ipSrc) t := by
  induction received generalizing t with
  | nil => rfl
  | cons a received ih =>
    obtain ⟨⟨records, ha⟩, hrest⟩ := List.forall_mem_cons.mp h
    rw [receiveAll, List.foldlM_cons, List.foldlM_cons, Advertisement.receiveAdvertiseData_eq_learnAll ha]
    exact bind_congr fun v => ih hrest

/-! The rows of an address. -/

section Learned

variable {calls : List (ServerInformation × IpInfo)}

theorem learned_of_some {serverInfo : ServerInformation} {ip : IpInfo}
    (h : t.updateLearningTable serverInfo ip = some u) :
    0 ≤ t.numberOfAllServers ∧ u = t.learned serverInfo ip := by
  rcases updateLearningTable_cases h with ⟨id, hid, rfl⟩ | ⟨hnone, h₀, _, rfl⟩
  · have hk := (getIndexByIp_eq_some.mp hid).1
    rw [known] at hk
    exact ⟨by omega, (learned_of_found hid).symm⟩
  · exact ⟨h₀, (learned_of_new hnone).symm⟩

theorem getIndexByIp_learnAll (h : t.learnAll calls = some u) : u.getIndexByIp uint = none ↔
    t.getIndexByIp uint = none ∧ ∀ call ∈ calls, call.1.ip.uint ≠ uint := by
  induction calls generalizing t with
  | nil =>
    obtain rfl : t = u := by simpa [learnAll] using h
    simp
  | cons call calls ih =>
    obtain ⟨v, hv, h⟩ := Option.bind_eq_some_iff.mp h
    obtain ⟨h₀, rfl⟩ := learned_of_some hv
    rw [ih h, getIndexByIp_learned h₀, List.forall_mem_cons]
    tauto

theorem knownAddresses_learnAll (h : t.learnAll calls = some u) : u.knownAddresses =
    t.knownAddresses ∪ (calls.map fun call => call.1.ip.uint).toFinset := by
  ext uint
  rw [Finset.mem_union, mem_knownAddresses, mem_knownAddresses, ne_eq, ne_eq, getIndexByIp_learnAll h,
    List.mem_toFinset, List.mem_map, not_and_or]
  push Not
  rfl

theorem callsTo_eq (hi : u.getIndexByIp uint = some i) :
    u.callsTo i calls = calls.filter fun call => call.1.ip.uint = uint := by
  refine List.filter_congr fun call _ => ?_
  rw [Bool.eq_iff_iff, beq_iff_eq, decide_eq_true_eq]
  constructor
  · intro hc
    rw [← (getIndexByIp_eq_some.mp hc).2.1, (getIndexByIp_eq_some.mp hi).2.1]
  · rintro rfl
    exact hi

end Learned

/-- The route that the learned one of an address starts from after a reset. -/
def rttSlotOf (t : ServerTable) (uint : UInt32) : Slot UInt32 UInt16 :=
  ⟨if t.getIndexByIp uint = none then 0 else t.ipGateway.uint, t.ownRtt uint⟩

def lostSlotOf (t : ServerTable) (uint : UInt32) : Slot UInt32 Float :=
  ⟨if t.getIndexByIp uint = none then 0 else t.ipGateway.uint, t.ownLost uint⟩

theorem first_slots (hw : t.WellFormed) (hx : t.Extends u) (hi : u.getIndexByIp uint = some i) :
    t.firstRtt i = t.rttSlotOf uint ∧ t.firstLost i = t.lostSlotOf uint := by
  by_cases hk : i < t.known
  · have hg := hx.getIndexByIp_of_lt hk hi
    simp [firstRtt, firstLost, rttSlotOf, lostSlotOf, ownRtt, ownLost, hg, hk]
  · have hg : t.getIndexByIp uint = none := by
      cases hg : t.getIndexByIp uint with
      | none => rfl
      | some j =>
        have he := hx.getIndexByIp hg
        rw [hi, Option.some.injEq] at he
        exact absurd (he ▸ (getIndexByIp_eq_some.mp hg).1) hk
    have hrow := hw.unused_row i (Nat.le_of_not_lt hk)
    simp [firstRtt, firstLost, rttSlotOf, lostSlotOf, ownRtt, ownLost, hg, hk, hrow, ServerInformation.zero,
      RoutingInfo.zero, IpInfo.zero]

theorem extends_reset (t : ServerTable) : t.Extends t.resetLearningTable := extends_mapRows fun _ _ => rfl

theorem learned_slots {calls : List (ServerInformation × IpInfo)} (hw : t.WellFormed)
    (h : t.resetLearningTable.learnAll calls = some u) (hi : u.getIndexByIp uint = some i) :
    (u.serverInfoes i).learningTable.rttSlot = ((calls.filter fun call => call.1.ip.uint = uint).map fun call =>
      (call.2.uint, call.1.rttTime)).foldl Slot.offer (t.rttSlotOf uint) ∧
    (u.serverInfoes i).learningTable.lostSlot = ((calls.filter fun call => call.1.ip.uint = uint).map fun call =>
      (call.2.uint, call.1.pingLostRate)).foldl Slot.offer (t.lostSlotOf uint) := by
  obtain ⟨hrtt, hlost⟩ := foldl_learn_slots (t.resetLearningTable.learningStart i) (u.callsTo i calls)
  obtain ⟨hr, hl⟩ := first_slots hw (t.extends_reset.trans (extends_learnAll h)) hi
  rw [← (learnAll_learning h).1 i (getIndexByIp_eq_some.mp hi).1, callsTo_eq hi] at hrtt hlost
  rw [hrtt, hlost, (learningStart_reset t i).1, (learningStart_reset t i).2, hr, hl]
  exact ⟨rfl, rfl⟩

theorem senders_sublist {received : List Advertisement} (h : ∀ a ∈ received, (a.records.map (·.ip.uint)).Nodup)
    (uint : UInt32) : (((received.flatMap Advertisement.calls).filter fun call => call.1.ip.uint = uint).map
      fun call => call.2.uint).Sublist (received.map (·.ipSrc)) := by
  induction received with
  | nil => exact List.Sublist.refl _
  | cons a received ih =>
    obtain ⟨ha, hrest⟩ := List.forall_mem_cons.mp h
    rw [List.flatMap_cons, List.filter_append, List.map_append, List.map_cons, ← List.singleton_append]
    refine List.Sublist.append ?_ (ih hrest)
    have hcount : (a.records.filter fun record => record.ip.uint = uint).length ≤ 1 := by
      have hc := List.nodup_iff_count_le_one.mp ha uint
      rwa [List.count, List.countP_map, List.countP_eq_length_filter] at hc
    have hmap : (a.calls.filter fun call => call.1.ip.uint = uint).map (fun call => call.2.uint) =
        List.replicate (a.records.filter fun record => record.ip.uint = uint).length a.ipSrc := by
      rw [Advertisement.calls, List.filter_map, List.map_map]
      exact List.map_const
    rw [hmap, ← List.replicate_one, List.replicate_sublist_replicate]
    exact hcount

theorem FromDistinctSenders.hops {received : List Advertisement} (h : t.FromDistinctSenders received)
    {hop : UInt32} (hh : hop = t.ipGateway.uint ∨ hop = 0) (uint : UInt32) :
    (hop :: ((received.flatMap Advertisement.calls).filter fun call => call.1.ip.uint = uint).map
      fun call => call.2.uint).Nodup := by
  have hsub := senders_sublist h.servers uint
  refine List.nodup_cons.mpr ⟨fun hm => ?_, h.senders.sublist hsub⟩
  obtain ⟨a, ha, rfl⟩ := List.mem_map.mp (hsub.subset hm)
  rcases hh with hh | hh
  · exact (h.sender_ne a ha).1 hh
  · exact (h.sender_ne a ha).2 hh

theorem lostRateOf_comparable {a b c d : UInt16} (hb : b ≠ 0) (hd : d ≠ 0) :
    lostRateOf a b < lostRateOf c d ∨ lostRateOf a b = lostRateOf c d ∨ lostRateOf c d < lostRateOf a b := by
  have hpos {n : UInt16} (hn : n ≠ 0) : 0 < n.toNat :=
    Nat.pos_of_ne_zero fun hz => hn (UInt16.toNat_inj.mp hz)
  rw [lostRateOf_eq, lostRateOf_eq, Binary64.complement_lt_iff (hpos hb) (hpos hd),
    Binary64.complement_eq_iff (hpos hb) (hpos hd), Binary64.complement_lt_iff (hpos hd) (hpos hb)]
  omega

theorem rate_of_record {a : Advertisement} {record : ServerInformation} (hm : record ∈ a.records)
    (hs : record.pingSent ≠ 0) :
    ∃ received sent : UInt16, sent ≠ 0 ∧ record.pingLostRate = lostRateOf received sent := by
  obtain ⟨k, _, rfl⟩ := List.mem_map.mp hm
  refine ⟨_, _, fun hz => hs ?_, rfl⟩
  show swap16 _ = 0
  rw [hz]
  rfl

section Order

variable {received received' : List Advertisement} {u' : ServerTable} {i' : Nat}

theorem flatMap_records (received : List Advertisement) :
    received.flatMap Advertisement.records = (received.flatMap Advertisement.calls).map Prod.fst := by
  rw [List.map_flatMap]
  refine List.flatMap_congr fun a _ => ?_
  rw [Advertisement.calls, List.map_map]
  exact (List.map_id _).symm

theorem knownAddresses_received (h : t.learnAll (received.flatMap Advertisement.calls) = some u) :
    u.knownAddresses = t.knownAddresses ∪ listedAddresses received := by
  rw [knownAddresses_learnAll h, listedAddresses, flatMap_records, List.map_map]
  rfl

theorem values_eq {V : Type*} (received : List Advertisement) (f : ServerInformation → V) (uint : UInt32) :
    (((received.flatMap Advertisement.calls).filter fun call => call.1.ip.uint = uint).map fun call =>
      (call.2.uint, f call.1)).map Prod.snd = (recordsOf received uint).map f := by
  rw [recordsOf, flatMap_records, List.filter_map, List.map_map, List.map_map]
  rfl

theorem FromDistinctSenders.merge_slot {V : Type*} [LT V] [LE V] [DecidableLT V] [DecidableLE V] [ReportOrder V]
    (hd : t.FromDistinctSenders received) (hp : received.Perm received') (uint : UInt32)
    (f : ServerInformation → V) {s : Slot UInt32 V} (hs : s.hop = t.ipGateway.uint ∨ s.hop = 0)
    (hcomparable : ∀ r ∈ recordsOf received uint, ∀ r' ∈ recordsOf received uint,
      f r < f r' ∨ f r = f r' ∨ f r' < f r) :
    ((((received.flatMap Advertisement.calls).filter fun call => call.1.ip.uint = uint).map fun call =>
        (call.2.uint, f call.1)).foldl Slot.offer s).value =
      ((((received'.flatMap Advertisement.calls).filter fun call => call.1.ip.uint = uint).map fun call =>
        (call.2.uint, f call.1)).foldl Slot.offer s).value ∧
    LeastOf ((((received.flatMap Advertisement.calls).filter fun call => call.1.ip.uint = uint).map fun call =>
      (call.2.uint, f call.1)).foldl Slot.offer s).value (s.value :: (recordsOf received uint).map f) := by
  have hhops := hd.hops hs uint
  have hvalues := values_eq received f uint
  have hperm := (((hp.flatMap_right Advertisement.calls).filter fun call => call.1.ip.uint = uint).map
    fun call => (call.2.uint, f call.1))
  set rs := ((received.flatMap Advertisement.calls).filter fun call => call.1.ip.uint = uint).map fun call =>
    (call.2.uint, f call.1) with hrs
  have hdistinct : (s.hop :: rs.map Prod.fst).Nodup := by
    rw [hrs, List.map_map]
    exact hhops
  refine ⟨foldl_offer_perm hdistinct hperm fun r hr r' hr' => ?_, ?_⟩
  · have hmem {r : UInt32 × V} (hr : r ∈ rs) : ∃ record ∈ recordsOf received uint, f record = r.2 := by
      have hm : r.2 ∈ rs.map Prod.snd := List.mem_map_of_mem hr
      rw [hvalues] at hm
      exact List.mem_map.mp hm
    obtain ⟨record, hm, he⟩ := hmem hr
    obtain ⟨record', hm', he'⟩ := hmem hr'
    rw [← he, ← he']
    exact hcomparable record hm record' hm'
  · rw [← hvalues]
    exact foldl_offer_leastOf hdistinct

theorem FromDistinctSenders.merge (hd : t.FromDistinctSenders received) (hw : t.WellFormed)
    (h : t.resetLearningTable.learnAll (received.flatMap Advertisement.calls) = some u)
    (h' : t.resetLearningTable.learnAll (received'.flatMap Advertisement.calls) = some u')
    (hp : received.Perm received') (hi : u.getIndexByIp uint = some i) (hi' : u'.getIndexByIp uint = some i') :
    ((u.serverInfoes i).learningTable.rttTime = (u'.serverInfoes i').learningTable.rttTime ∧
      LeastOf (u.serverInfoes i).learningTable.rttTime
        (t.ownRtt uint :: (recordsOf received uint).map (·.rttTime))) ∧
    (u.serverInfoes i).learningTable.lostRate = (u'.serverInfoes i').learningTable.lostRate ∧
      LeastOf (u.serverInfoes i).learningTable.lostRate
        (t.ownLost uint :: (recordsOf received uint).map (·.pingLostRate)) := by
  obtain ⟨hrtt, hlost⟩ := learned_slots hw h hi
  obtain ⟨hrtt', hlost'⟩ := learned_slots hw h' hi'
  have hhop : (if t.getIndexByIp uint = none then 0 else t.ipGateway.uint) = t.ipGateway.uint ∨
      (if t.getIndexByIp uint = none then 0 else t.ipGateway.uint) = 0 := by
    split_ifs
    · exact Or.inr rfl
    · exact Or.inl rfl
  have hr := hd.merge_slot (s := t.rttSlotOf uint) hp uint (·.rttTime) hhop fun r _ r' _ => by
    rw [UInt16.lt_iff_toNat_lt, UInt16.lt_iff_toNat_lt, ← UInt16.toNat_inj]
    omega
  have hl := hd.merge_slot (s := t.lostSlotOf uint) hp uint (·.pingLostRate) hhop fun r hr r' hr' => by
    have hrate {r : ServerInformation} (hr : r ∈ recordsOf received uint) : ∃ received sent : UInt16,
        sent ≠ 0 ∧ r.pingLostRate = lostRateOf received sent := by
      obtain ⟨a, ha, hm⟩ := List.mem_flatMap.mp (List.mem_filter.mp hr).1
      exact rate_of_record hm (hd.counted a ha r hm)
    obtain ⟨a, b, hb, he⟩ := hrate hr
    obtain ⟨c, d, hd, he'⟩ := hrate hr'
    rw [he, he']
    exact lostRateOf_comparable hb hd
  rw [← hrtt, ← hrtt'] at hr
  rw [← hlost, ← hlost'] at hl
  exact ⟨hr, hl⟩

end Order

theorem own_reset (t : ServerTable) (uint : UInt32) : t.resetLearningTable.ownRtt uint = t.ownRtt uint ∧
    t.resetLearningTable.ownLost uint = t.ownLost uint := by
  have hrow (i : Nat) : (t.resetLearningTable.serverInfoes i).ip = (t.serverInfoes i).ip ∧
      (t.resetLearningTable.serverInfoes i).rttTime = (t.serverInfoes i).rttTime ∧
      (t.resetLearningTable.serverInfoes i).pingLostRate = (t.serverInfoes i).pingLostRate := by
    simp only [resetLearningTable, mapRows]
    split_ifs <;> exact ⟨rfl, rfl, rfl⟩
  have hget : t.resetLearningTable.getIndexByIp uint = t.getIndexByIp uint := by
    simp only [getIndexByIp, (hrow _).1]
    rfl
  simp only [ownRtt, ownLost, hget, (hrow _).2.1, (hrow _).2.2, and_self]

end ServerTable

/-- After `advertise`, the order in which advertisements of different senders come in changes
neither the known addresses, all listed ones among them, nor what is learned for any of
them: the least of the node's own value and those of the records. -/
theorem Machine.merged_in_any_order {iface : Fin 2 → Interface} {info : Str} {m₀ m m' : Machine}
    {h : List (Taken Machine Event (List Sent))} {out : List Sent} {received received' : List Advertisement}
    (hi : initializeMachine iface info = some m₀) (hr : Run step m₀ h m)
    (hs : m.step .advertise = some (m', out)) (hd : m'.table.FromDistinctSenders received)
    (hc : m'.table.CallsInArray (received.flatMap Advertisement.calls)) (hp : received.Perm received') :
    ∃ u u', m'.table.receiveAll received = some u ∧ m'.table.receiveAll received' = some u' ∧
      u.knownAddresses = m'.table.knownAddresses ∪ ServerTable.listedAddresses received ∧
      u.knownAddresses = u'.knownAddresses ∧ ∀ uint ∈ u.knownAddresses, ∃ rttTime lostRate,
        (u.learnedRtt uint = some rttTime ∧ u'.learnedRtt uint = some rttTime ∧ LeastOf rttTime
          (m'.table.ownRtt uint :: (ServerTable.recordsOf received uint).map (·.rttTime))) ∧
        u.learnedLost uint = some lostRate ∧ u'.learnedLost uint = some lostRate ∧ LeastOf lostRate
          (m'.table.ownLost uint :: (ServerTable.recordsOf received uint).map (·.pingLostRate)) := by
  obtain ⟨_, _, hw⟩ := run_table hi hr
  obtain ⟨_, _, rfl, _⟩ := step_advertise hs
  set t := m.table.fillForwardingTable
  have hw' : t.WellFormed := hw.mapRows (le_refl _) _
  have hle : t.resetLearningTable.numberOfAllServers ≤ maxServerNumbers := hw'.known_le
  have hcalls := hp.flatMap_right Advertisement.calls
  obtain ⟨u, hu⟩ := Option.isSome_iff_exists.mp ((ServerTable.learnAll_isSome_iff hle).mpr hc)
  obtain ⟨u', hu'⟩ := Option.isSome_iff_exists.mp
    ((ServerTable.learnAll_isSome_iff hle).mpr (ServerTable.callsInArray_perm hle hcalls hc))
  have hknown : u.knownAddresses = u'.knownAddresses := by
    rw [ServerTable.knownAddresses_learnAll hu, ServerTable.knownAddresses_learnAll hu',
      List.toFinset_eq_of_perm _ _ (hcalls.map fun call => call.1.ip.uint)]
  refine ⟨u, u', (t.resetLearningTable.receiveAll_eq_learnAll _).trans hu,
    (t.resetLearningTable.receiveAll_eq_learnAll _).trans hu', ServerTable.knownAddresses_received hu, hknown,
    fun uint hm => ?_⟩
  obtain ⟨i, hi⟩ := Option.ne_none_iff_exists'.mp (ServerTable.mem_knownAddresses.mp hm)
  rw [hknown] at hm
  obtain ⟨i', hi'⟩ := Option.ne_none_iff_exists'.mp (ServerTable.mem_knownAddresses.mp hm)
  have hd' : t.FromDistinctSenders received := ⟨hd.senders, hd.sender_ne, hd.servers, hd.counted⟩
  obtain ⟨⟨hrtt, hleast⟩, hlost, hleast'⟩ := hd'.merge hw' hu hu' hp hi hi'
  obtain ⟨ho, ho'⟩ := t.own_reset uint
  simp only [ServerTable.learnedRtt, ServerTable.learnedLost, hi, hi', Option.map_some, ho, ho']
  exact ⟨_, _, ⟨rfl, congrArg some hrtt.symm, hleast⟩, rfl, congrArg some hlost.symm, hleast'⟩

def sampleReceived : List Advertisement :=
  [⟨0xC0A80002, [sampleRow 0x08080808 5 4 3, sampleRow 0x09090909 7 2 1].flatMap ServerInformation.encode ++
      bytes32 0, []⟩,
    ⟨0xC0A80003, [sampleRow 0x09090909 6 3 1].flatMap ServerInformation.encode ++ bytes32 0, []⟩]

/-- The node reaches its own server in 10 ms and a peer in 5 ms; two peers list a new one. -/
theorem Machine.merged_in_either_order : ∃ m₀ h m m' out u u', initializeMachine sampleIface sampleInfo = some m₀ ∧
    Run step m₀ h m ∧ m.step .advertise = some (m', out) ∧ m'.table.receiveAll sampleReceived = some u ∧
    m'.table.receiveAll sampleReceived.reverse = some u' ∧ m'.table.knownAddresses = {0x08080808} ∧
    u.knownAddresses = {0x08080808, 0x09090909} ∧ u'.knownAddresses = {0x08080808, 0x09090909} ∧
    (u.learnedRtt 0x08080808 = some 5 ∧ u'.learnedRtt 0x08080808 = some 5) ∧
    (u.learnedLost 0x08080808 = some 0 ∧ u'.learnedLost 0x08080808 = some 0) ∧
    (u.learnedRtt 0x09090909 = some 6 ∧ u'.learnedRtt 0x09090909 = some 6) ∧
    u.learnedLost 0x09090909 = some (lostRateOf 1 2) ∧ u'.learnedLost 0x09090909 = some (lostRateOf 1 2) := by
  obtain ⟨m₀, h, m, hi, hr, hp⟩ := reaches sampleIface sampleInfo
    [.ping fun _ => 0, sampleEcho 0x08080808 0 10000000] (fun m _ => (m.step .advertise).map (fun r => decide
      (r.1.table.ipGateway.uint = 0x0A000001 ∧ r.1.table.numberOfAllServers ≤ maxServerNumbers ∧
        (r.1.table.learnAll (sampleReceived.flatMap Advertisement.calls)).isSome = true ∧
        r.1.table.knownAddresses = {0x08080808} ∧ r.1.table.ownRtt 0x08080808 = 10 ∧
        r.1.table.ownLost 0x08080808 = 0 ∧ r.1.table.ownRtt 0x09090909 = 65535 ∧
        r.1.table.ownLost 0x09090909 = 1)) = some true) (by decide +kernel)
  obtain ⟨⟨m', out⟩, hs, hp⟩ := Option.map_eq_some_iff.mp hp
  obtain ⟨hg, hle, hsome, hknown, hrtt, hlost, hrtt', hlost'⟩ := of_decide_eq_true hp
  have hd : m'.table.FromDistinctSenders sampleReceived := by
    refine ⟨by decide, fun a ha => ?_, by decide, by decide⟩
    rw [hg]
    revert a
    decide
  have hc := (ServerTable.learnAll_isSome_iff hle).mp hsome
  obtain ⟨u, u', hu, hu', hall, hk, hmerge⟩ := merged_in_any_order hi hr hs hd hc (List.reverse_perm _).symm
  have hlisted : ServerTable.listedAddresses sampleReceived = {0x08080808, 0x09090909} := by decide +kernel
  have hall : u.knownAddresses = {0x08080808, 0x09090909} := by
    rw [hall, hknown, hlisted]
    decide
  obtain ⟨r₁, l₁, ⟨hr₁, hr₁', hleast⟩, hl₁, hl₁', hleast'⟩ := hmerge 0x08080808 (by rw [hall]; decide)
  have hvalues : (ServerTable.recordsOf sampleReceived 0x08080808).map (·.rttTime) = [5] := by decide +kernel
  have hrates : (ServerTable.recordsOf sampleReceived 0x08080808).map (·.pingLostRate) = [lostRateOf 3 4] := by
    decide +kernel
  rw [hrtt, hvalues] at hleast
  rw [hlost, hrates] at hleast'
  obtain rfl : r₁ = 5 := hleast.eq (by simp) (by simp)
  obtain rfl : l₁ = 0 := hleast'.eq (by simp) (by simp; decide +kernel)
  obtain ⟨r₂, l₂, ⟨hr₂, hr₂', hleast⟩, hl₂, hl₂', hleast'⟩ := hmerge 0x09090909 (by rw [hall]; decide)
  have hvalues : (ServerTable.recordsOf sampleReceived 0x09090909).map (·.rttTime) = [7, 6] := by decide +kernel
  have hrates : (ServerTable.recordsOf sampleReceived 0x09090909).map (·.pingLostRate) =
      [lostRateOf 1 2, lostRateOf 1 3] := by decide +kernel
  rw [hrtt', hvalues] at hleast
  rw [hlost', hrates] at hleast'
  obtain rfl : r₂ = 6 := hleast.eq (by simp) (by simp)
  obtain rfl : l₂ = lostRateOf 1 2 := hleast'.eq (by simp) (by simp; decide +kernel)
  exact ⟨m₀, h, m, m', out, u, u', hi, hr, hs, hu, hu', hknown, hall, hk ▸ hall, ⟨hr₁, hr₁'⟩, ⟨hl₁, hl₁'⟩,
    ⟨hr₂, hr₂'⟩, hl₂, hl₂'⟩

end Overlay
