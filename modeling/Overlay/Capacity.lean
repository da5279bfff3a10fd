import Overlay.Learning
import Mathlib.Data.Finset.Card
import Mathlib.Data.Finset.Dedup

/-! The rows that are written, as indices into an array without end: the code checks
none of them. They stay within the array as long as the configured number and the
distinct addresses that peers add to it do. -/

namespace Overlay

open ByteMemory Execution

/-- A received advertisement. Its last record can reach into the bytes behind the payload. -/
structure Advertisement where
  ipSrc : UInt32
  advertiseData : Bytes
  behind : Bytes

namespace Advertisement

def records (a : Advertisement) : List ServerInformation :=
  (List.range (recordCount a.advertiseData.length)).map fun k => recordAt (a.advertiseData ++ a.behind) (12 * k)

def calls (a : Advertisement) : List (ServerInformation × IpInfo) :=
  a.records.map fun serverInfo => (serverInfo, ⟨a.ipSrc, ipUintIntoStr a.ipSrc⟩)

theorem recordAt_append_left {front : Bytes} (back : Bytes) {i : Nat} (h : i + 12 ≤ front.length) :
    recordAt (front ++ back) i = recordAt front i := by
  rw [recordAt, recordAt, word32_append_left back (by omega), word32_append_left back (by omega),
    word16_append_left back (by omega), word16_append_left back (by omega)]

theorem decodeRecords_eq_records {a : Advertisement} {records : List ServerInformation}
    (h : decodeRecords a.advertiseData = some records) : records = a.records := by
  rw [decodeRecords_eq h, Advertisement.records]
  refine List.map_congr_left fun k hk => ?_
  rw [recordAt_append_left a.behind ((mapM_decodeRecord h).2 k hk)]

theorem receiveAdvertiseData_eq_learnAll {a : Advertisement} {records : List ServerInformation}
    (h : decodeRecords a.advertiseData = some records) (t : ServerTable) :
    t.receiveAdvertiseData a.advertiseData a.ipSrc = t.learnAll a.calls := by
  rw [ServerTable.receiveAdvertiseData_eq, h, decodeRecords_eq_records h, Option.bind_some, calls,
    ServerTable.learnAll, List.foldlM_map]

end Advertisement

namespace ServerTable

variable {t u : ServerTable}

def InArray (id : Int) : Prop := 0 ≤ id ∧ id < maxServerNumbers

instance (id : Int) : Decidable (InArray id) := inferInstanceAs (Decidable (_ ∧ _))

/-- `initialize`, whatever the number of servers. -/
def initialTable (info : List Str) : ServerTable :=
  let ip := info.getD 0 []
  let numberOfServers := atoi ((info.getD 2 []).takeWhile (· ≠ 0))
  let t : ServerTable :=
    { numberOfServers, numberOfAllServers := numberOfServers, serverInfoes := fun _ => .zero,
      ipGateway := ⟨ipIntoUint ip, ip⟩, ipToId := fun _ => 0 }
  t.initializeRows 0 [] numberOfServers.toNat (info.drop 3)

/-- `server_id` in `update_learning_table`, the row that it and `insert_into_server_infoes` write. -/
def serverId (t : ServerTable) (uint : UInt32) : Int :=
  match t.getIndexByIp uint with
  | some id => id
  | none => t.numberOfAllServers

/-- `update_learning_table`, whatever the row. -/
def learned (t : ServerTable) (serverInfo : ServerInformation) (ip : IpInfo) : ServerTable :=
  match t.getIndexByIp serverInfo.ip.uint with
  | some id => t.learnAt id serverInfo ip
  | none => (t.inserted serverInfo).learnAt t.known serverInfo ip

/-- Every call writes within the array and leaves its count there. -/
def CallsInArray (t : ServerTable) : List (ServerInformation × IpInfo) → Prop
  | [] => True
  | call :: calls => InArray (t.serverId call.1.ip.uint) ∧
      (t.learned call.1 call.2).numberOfAllServers ≤ maxServerNumbers ∧
      (t.learned call.1 call.2).CallsInArray calls

/-- The addresses in the calls that no row has. -/
def newAddresses (t : ServerTable) (calls : List (ServerInformation × IpInfo)) : Finset UInt32 :=
  (calls.map fun call => call.1.ip.uint).toFinset.filter fun uint => t.getIndexByIp uint = none

theorem initialTable_counts (info : List Str) :
    (initialTable info).numberOfServers = atoi ((info.getD 2 []).takeWhile (· ≠ 0)) ∧
      (initialTable info).numberOfAllServers = atoi ((info.getD 2 []).takeWhile (· ≠ 0)) ∧
      (initialTable info).Filled (initialTable info).configured := by
  set n := atoi ((info.getD 2 []).takeWhile (· ≠ 0))
  have hz : Filled ⟨n, n, fun _ => .zero, ⟨ipIntoUint (info.getD 0 []), info.getD 0 []⟩, fun _ => 0⟩ 0 :=
    ⟨fun i hi => absurd hi (by omega), fun _ _ => rfl, fun _ => rfl⟩
  obtain ⟨hf, hn, hall⟩ := hz.initializeRows n.toNat [] (info.drop 3)
  have hc : (initialTable info).configured = 0 + n.toNat := by
    rw [configured, Nat.zero_add]
    exact congrArg Int.toNat hn
  exact ⟨hn, hall, hc ▸ hf⟩

theorem initializeTable_eq (info : List Str) : initializeTable info =
    if (initialTable info).numberOfServers ≤ maxServerNumbers then some (initialTable info) else none := by
  rw [(initialTable_counts info).1]
  rfl

section Call

variable {serverInfo : ServerInformation} {ip : IpInfo} {id : Nat}

theorem serverId_of_found {uint : UInt32} (h : t.getIndexByIp uint = some id) : t.serverId uint = id := by
  simp only [serverId, h]

theorem serverId_of_new {uint : UInt32} (h : t.getIndexByIp uint = none) :
    t.serverId uint = t.numberOfAllServers := by
  simp only [serverId, h]

theorem learned_of_found (h : t.getIndexByIp serverInfo.ip.uint = some id) :
    t.learned serverInfo ip = t.learnAt id serverInfo ip := by
  simp only [learned, h]

theorem learned_of_new (h : t.getIndexByIp serverInfo.ip.uint = none) :
    t.learned serverInfo ip = (t.inserted serverInfo).learnAt t.known serverInfo ip := by
  simp only [learned, h]

theorem inArray_of_found {uint : UInt32} (hle : t.numberOfAllServers ≤ maxServerNumbers)
    (h : t.getIndexByIp uint = some id) : InArray (t.serverId uint) := by
  have hk := (getIndexByIp_eq_some.mp h).1
  rw [known] at hk
  rw [serverId_of_found h]
  exact ⟨by omega, by omega⟩

theorem updateLearningTable_eq (h : t.numberOfAllServers ≤ maxServerNumbers) :
    t.updateLearningTable serverInfo ip =
      if InArray (t.serverId serverInfo.ip.uint) then some (t.learned serverInfo ip) else none := by
  cases hg : t.getIndexByIp serverInfo.ip.uint with
  | some id => rw [if_pos (inArray_of_found h hg), updateLearningTable_of_found hg, learned_of_found hg]
  | none =>
    rw [serverId_of_new hg, learned_of_new hg]
    simp only [updateLearningTable, hg, insertIntoServerInfoes]
    by_cases ha : InArray t.numberOfAllServers
    · have hi : 0 ≤ t.numberOfAllServers ∧ t.numberOfAllServers < maxServerNumbers := ha
      rw [if_pos ha, if_pos hi, Option.map_some]
    · have hi : ¬ (0 ≤ t.numberOfAllServers ∧ t.numberOfAllServers < maxServerNumbers) := ha
      rw [if_neg ha, if_neg hi, Option.map_none]

theorem numberOfAllServers_learned (hle : t.numberOfAllServers ≤ maxServerNumbers)
    (h : InArray (t.serverId serverInfo.ip.uint)) :
    (t.learned serverInfo ip).numberOfAllServers ≤ maxServerNumbers := by
  cases hg : t.getIndexByIp serverInfo.ip.uint with
  | some id =>
    rw [learned_of_found hg]
    exact hle
  | none =>
    rw [serverId_of_new hg] at h
    rw [learned_of_new hg]
    exact Int.add_one_le_of_lt h.2

theorem getIndexByIp_learned (h : 0 ≤ t.numberOfAllServers) {uint : UInt32} :
    (t.learned serverInfo ip).getIndexByIp uint = none ↔
      uint ≠ serverInfo.ip.uint ∧ t.getIndexByIp uint = none := by
  have hip {t : ServerTable} {id i : Nat} :
      ((t.learnAt id serverInfo ip).serverInfoes i).ip = (t.serverInfoes i).ip := by rw [learnAt_serverInfoes]
  cases hg : t.getIndexByIp serverInfo.ip.uint with
  | some id =>
    have hsame : (t.learned serverInfo ip).getIndexByIp uint = none ↔ t.getIndexByIp uint = none := by
      rw [learned_of_found hg, getIndexByIp_eq_none, getIndexByIp_eq_none]
      simp only [hip]
      rfl
    rw [hsame]
    refine ⟨fun hn => ⟨fun he => ?_, hn⟩, fun hn => hn.2⟩
    rw [he, hg] at hn
    cases hn
  | none =>
    have hself : ((t.inserted serverInfo).serverInfoes t.known).ip = serverInfo.ip := by
      simp only [inserted, setRow_serverInfoes, Function.update_self]
    have hk : ((t.inserted serverInfo).learnAt t.known serverInfo ip).known = t.known + 1 :=
      @known_inserted t serverInfo h
    rw [learned_of_new hg, getIndexByIp_eq_none, getIndexByIp_eq_none, hk]
    simp only [hip]
    constructor
    · intro hn
      refine ⟨fun he => hn t.known (Nat.lt_succ_self _) (by rw [hself, he]), fun i hi => ?_⟩
      have hni := hn i (by omega)
      rwa [inserted_serverInfoes_of_ne (by omega)] at hni
    · rintro ⟨hne, hn⟩ i hi
      rcases Nat.lt_succ_iff_lt_or_eq.mp hi with hi | rfl
      · rw [inserted_serverInfoes_of_ne (by omega)]
        exact hn i hi
      · rw [hself]
        exact hne.symm

end Call

section Calls

variable {calls : List (ServerInformation × IpInfo)}

/-- The table that ends with its array runs exactly as long as the calls stay within it. -/
theorem learnAll_isSome_iff (h : t.numberOfAllServers ≤ maxServerNumbers) :
    (t.learnAll calls).isSome = true ↔ t.CallsInArray calls := by
  induction calls generalizing t with
  | nil => simp [learnAll, CallsInArray]
  | cons call calls ih =>
    rw [CallsInArray, learnAll, List.foldlM_cons, updateLearningTable_eq h]
    by_cases ha : InArray (t.serverId call.1.ip.uint)
    · have hle : (t.learned call.1 call.2).numberOfAllServers ≤ maxServerNumbers :=
        numberOfAllServers_learned h ha
      rw [if_pos ha]
      exact (ih hle).trans ⟨fun hc => ⟨ha, hle, hc⟩, fun hc => hc.2.2⟩
    · rw [if_neg ha]
      exact ⟨fun hs => absurd hs (by simp), fun hc => absurd hc.1 ha⟩

theorem newAddresses_learned (h : 0 ≤ t.numberOfAllServers) (call : ServerInformation × IpInfo) :
    (t.learned call.1 call.2).newAddresses calls = (t.newAddresses calls).erase call.1.ip.uint := by
  ext uint
  simp only [newAddresses, Finset.mem_filter, Finset.mem_erase, getIndexByIp_learned h]
  tauto

theorem newAddresses_cons (call : ServerInformation × IpInfo) : t.newAddresses (call :: calls) =
    if t.getIndexByIp call.1.ip.uint = none then insert call.1.ip.uint (t.newAddresses calls)
    else t.newAddresses calls := by
  rw [newAddresses, List.map_cons, List.toFinset_cons, Finset.filter_insert, ← newAddresses]

/-- The calls stay within the array if and only if the new addresses, each counted once, do. -/
theorem callsInArray_iff (h : t.numberOfAllServers ≤ maxServerNumbers) : t.CallsInArray calls ↔
    t.newAddresses calls = ∅ ∨
      0 ≤ t.numberOfAllServers ∧ t.numberOfAllServers + (t.newAddresses calls).card ≤ maxServerNumbers := by
  induction calls generalizing t with
  | nil => simp [CallsInArray, newAddresses]
  | cons call calls ih =>
    rw [CallsInArray, newAddresses_cons]
    cases hg : t.getIndexByIp call.1.ip.uint with
    | some id =>
      have hk := (getIndexByIp_eq_some.mp hg).1
      have h₀ : 0 ≤ t.numberOfAllServers := by
        rw [known] at hk
        omega
      have hnot : call.1.ip.uint ∉ t.newAddresses calls := by simp [newAddresses, hg]
      have hcount : (t.learned call.1 call.2).numberOfAllServers = t.numberOfAllServers := by
        rw [learned_of_found hg]
        rfl
      rw [hcount, ih (hcount.trans_le h), newAddresses_learned h₀, Finset.erase_eq_of_notMem hnot, hcount,
        if_neg (by simp)]
      exact ⟨fun hc => hc.2.2, fun hc => ⟨inArray_of_found h hg, h, hc⟩⟩
    | none =>
      have hcount : (t.learned call.1 call.2).numberOfAllServers = t.numberOfAllServers + 1 := by
        rw [learned_of_new hg]
        rfl
      have hcard : (insert call.1.ip.uint (t.newAddresses calls)).card =
          ((t.newAddresses calls).erase call.1.ip.uint).card + 1 := by
        rw [← Finset.erase_insert_eq_erase, Finset.card_erase_add_one (Finset.mem_insert_self ..)]
      have hne := (Finset.insert_nonempty call.1.ip.uint (t.newAddresses calls)).ne_empty
      rw [serverId_of_new hg, hcount, if_pos rfl, hcard]
      constructor
      · rintro ⟨ha, hle, hc⟩
        rw [ih (hcount.trans_le hle), newAddresses_learned ha.1, hcount] at hc
        refine Or.inr ⟨ha.1, ?_⟩
        rcases hc with he | hc
        · rw [he, Finset.card_empty]
          omega
        · omega
      · rintro (he | ⟨h₀, hc⟩)
        · exact absurd he hne
        · have hle : t.numberOfAllServers + 1 ≤ maxServerNumbers := by omega
          rw [ih (hcount.trans_le hle), newAddresses_learned h₀, hcount]
          exact ⟨⟨h₀, by omega⟩, hle, Or.inr ⟨by omega, by omega⟩⟩

theorem callsInArray_perm {calls' : List (ServerInformation × IpInfo)}
    (h : t.numberOfAllServers ≤ maxServerNumbers) (hp : calls.Perm calls') (hc : t.CallsInArray calls) : t.CallsInArray calls' := by
  have hnew : t.newAddresses calls' = t.newAddresses calls := by
    rw [newAddresses, newAddresses, List.toFinset_eq_of_perm _ _ (hp.map fun call => call.1.ip.uint)]
  rw [callsInArray_iff h, hnew]
  exact (callsInArray_iff h).mp hc

end Calls

/-- A start with the custom information, which fills a row for each configured server, then
the advertisements in the order received. -/
structure WritesInArray (info : Str) (received : List Advertisement) : Prop where
  rows : ∀ id < (initialTable (tokens info)).configured, InArray id
  numberOfAllServers_le : (initialTable (tokens info)).numberOfAllServers ≤ maxServerNumbers
  calls : (initialTable (tokens info)).CallsInArray (received.flatMap Advertisement.calls)

def configuredNumber (info : Str) : Int := atoi (((tokens info).getD 2 []).takeWhile (· ≠ 0))

/-- The distinct addresses in the advertisements that are not configured. -/
def newServers (info : Str) (received : List Advertisement) : Nat :=
  ((initialTable (tokens info)).newAddresses (received.flatMap Advertisement.calls)).card

variable {info : Str} {received : List Advertisement}

theorem writesInArray_iff_run : WritesInArray info received ↔ ∃ t u,
    initializeTable (tokens info) = some t ∧ t.learnAll (received.flatMap Advertisement.calls) = some u := by
  obtain ⟨hn, hall, _⟩ := initialTable_counts (tokens info)
  constructor
  · intro h
    have hle := h.numberOfAllServers_le
    obtain ⟨u, hu⟩ := Option.isSome_iff_exists.mp ((learnAll_isSome_iff hle).mpr h.calls)
    refine ⟨_, u, ?_, hu⟩
    rw [initializeTable_eq, if_pos (by rwa [hn, ← hall])]
  · rintro ⟨t, u, ht, hu⟩
    rw [initializeTable_eq] at ht
    split_ifs at ht with hle
    obtain rfl := Option.some.inj ht
    have hle' : (initialTable (tokens info)).numberOfAllServers ≤ maxServerNumbers := by rwa [hall, ← hn]
    refine ⟨fun id hid => ?_, hle', (learnAll_isSome_iff hle').mp (by rw [hu]; rfl)⟩
    rw [configured] at hid
    exact ⟨by omega, by omega⟩

theorem WritesInArray.room (h : WritesInArray info received) : newServers info received = 0 ∨
    0 ≤ configuredNumber info ∧ configuredNumber info + newServers info received ≤ maxServerNumbers := by
  have hc := (callsInArray_iff h.numberOfAllServers_le).mp h.calls
  rwa [(initialTable_counts (tokens info)).2.1, ← configuredNumber, ← Finset.card_eq_zero, ← newServers] at hc

/-- The rows written stay within the array if and only if the configured number does and,
if peers list addresses that are not configured, it is not negative and has room for them. -/
theorem writes_in_array_iff (info : Str) (received : List Advertisement) : WritesInArray info received ↔
    configuredNumber info ≤ maxServerNumbers ∧ (newServers info received = 0 ∨
      0 ≤ configuredNumber info ∧ configuredNumber info + newServers info received ≤ maxServerNumbers) := by
  obtain ⟨hn, hall, _⟩ := initialTable_counts (tokens info)
  rw [← configuredNumber] at hn hall
  constructor
  · intro h
    exact ⟨hall ▸ h.numberOfAllServers_le, h.room⟩
  · rintro ⟨hle, hc⟩
    refine ⟨fun id hid => ?_, hall.trans_le hle, ?_⟩
    · rw [configured, hn] at hid
      exact ⟨by omega, by omega⟩
    · rw [callsInArray_iff (hall.trans_le hle), hall, ← Finset.card_eq_zero]
      exact hc

/-- A peer's thousand advertisements of one server each, which nobody has configured. -/
def sampleFlood : List Advertisement := (List.range 1000).map fun k =>
  ⟨0xC0A80002, [sampleRow (UInt32.ofNat (k + 1)) 10 1 1].flatMap ServerInformation.encode ++ bytes32 0, []⟩

theorem addresses_sampleFlood : (sampleFlood.flatMap Advertisement.calls).map (fun call => call.1.ip.uint) =
    (List.range 1000).map fun k => UInt32.ofNat (k + 1) := by
  have hone (k : Nat) : (Advertisement.calls ⟨0xC0A80002, [sampleRow (UInt32.ofNat (k + 1)) 10 1 1].flatMap
      ServerInformation.encode ++ bytes32 0, []⟩).map (fun call => call.1.ip.uint) = [UInt32.ofNat (k + 1)] := by
    rw [Advertisement.calls, ← Advertisement.decodeRecords_eq_records (decodeRecords_flatMap _ (length_bytes32 0))]
    rfl
  rw [sampleFlood, List.flatMap_map, List.map_flatMap, List.map_eq_flatMap]
  exact List.flatMap_congr fun k _ => hone k

theorem flood_leaves_array : ¬ WritesInArray sampleInfo sampleFlood := by
  have hstart : (initialTable (tokens sampleInfo)).numberOfAllServers = 1 ∧
      ((initialTable (tokens sampleInfo)).serverInfoes 0).ip.uint = 0x08080808 := by
    decide +kernel
  obtain ⟨hcount, hrow⟩ := hstart
  have htoNat (k : Nat) (hk : k < 1000) : (UInt32.ofNat (k + 1)).toNat = k + 1 := by
    rw [UInt32.toNat_ofNat']
    exact Nat.mod_eq_of_lt (by omega)
  have hinj (k l : Nat) (hk : k < 1000) (hl : l < 1000) (he : UInt32.ofNat (k + 1) = UInt32.ofNat (l + 1)) :
      k = l := by
    have hn := congrArg UInt32.toNat he
    rw [htoNat k hk, htoNat l hl] at hn
    omega
  have hnew (k : Nat) (hk : k < 1000) :
      (initialTable (tokens sampleInfo)).getIndexByIp (UInt32.ofNat (k + 1)) = none := by
    refine getIndexByIp_eq_none.mpr fun i hi he => ?_
    obtain rfl : i = 0 := by
      rw [known, hcount] at hi
      omega
    rw [hrow] at he
    have hn := congrArg UInt32.toNat he
    rw [htoNat k hk] at hn
    have hbig : (0x08080808 : UInt32).toNat = 134744072 := rfl
    omega
  have hcard : newServers sampleInfo sampleFlood = 1000 := by
    have hall : ∀ uint ∈ ((List.range 1000).map fun k => UInt32.ofNat (k + 1)).toFinset,
        (initialTable (tokens sampleInfo)).getIndexByIp uint = none := by
      intro uint hu
      obtain ⟨k, hk, rfl⟩ := List.mem_map.mp (List.mem_toFinset.mp hu)
      exact hnew k (List.mem_range.mp hk)
    have hnodup : ((List.range 1000).map fun k => UInt32.ofNat (k + 1)).Nodup :=
      List.nodup_range.map_on fun k hk l hl => hinj k l (List.mem_range.mp hk) (List.mem_range.mp hl)
    rw [newServers, newAddresses, addresses_sampleFlood, Finset.filter_true_of_mem hall,
      List.toFinset_card_of_nodup hnodup, List.length_map, List.length_range]
  intro h
  have hmax : maxServerNumbers = 1000 := rfl
  have hconfigured : configuredNumber sampleInfo = 1 :=
    (initialTable_counts (tokens sampleInfo)).2.1.symm.trans hcount
  rcases h.room with he | ⟨_, hc⟩ <;> omega

end ServerTable

end Overlay
