import Overlay.Tables

/-! The advertisement payload: twelve bytes for each live configured server and four
bytes of padding, and the loop that reads such a payload back. -/

namespace Overlay

open ByteMemory

namespace ServerTable

def advertiseRow (t : ServerTable) (r : Bytes × Nat) (i : Nat) : Option (Bytes × Nat) :=
  let row := t.serverInfoes i
  if row.rttTime ≠ 65535 then do
    let data ← store r.1 r.2 (bytes32 (swap32 row.ip.uint))
    let data ← store data (r.2 + 4) (bytes32 (swap32 row.rttTime.toUInt32))
    let data ← store data (r.2 + 8) (bytes16 (swap16 row.pingSent))
    let data ← store data (r.2 + 10) (bytes16 (swap16 row.pingReceived))
    some (data, r.2 + 12)
  else some r

/-- The payload; the allocation of a negative size throws. -/
def advertiseData (t : ServerTable) : Option Bytes :=
  if t.numberOfServers < 0 then none
  else do
    let r ← (List.range t.configured).foldlM t.advertiseRow
      (List.replicate (12 * t.numberOfServers + 4).toNat 0, 0)
    let data ← store r.1 r.2 (bytes32 0)
    some (data.take (r.2 + 4))

end ServerTable

/-- The record at `i`. The lost rate is computed from the two counters as they stand in
the payload, before they are swapped. -/
def decodeRecord (advertiseData : Bytes) (i : Nat) : Option ServerInformation := do
  let ipServer ← load32 advertiseData i
  let rttToServer ← load32 advertiseData (i + 4)
  let sentToServer ← load16 advertiseData (i + 8)
  let receivedToServer ← load16 advertiseData (i + 10)
  some { ServerInformation.zero with
    rttTime := (swap32 rttToServer).toUInt16
    pingLostRate := lostRateOf receivedToServer sentToServer
    pingSent := swap16 sentToServer
    pingReceived := swap16 receivedToServer
    ip := ⟨swap32 ipServer, ipUintIntoStr (swap32 ipServer)⟩ }

/-- The passes of `for (i = 0; i < advertise_size - 4; i += 12)`. -/
def recordCount (advertiseSize : Nat) : Nat := (advertiseSize - 4 + 11) / 12

def decodeRecords (advertiseData : Bytes) : Option (List ServerInformation) :=
  (List.range (recordCount advertiseData.length)).mapM fun k => decodeRecord advertiseData (12 * k)

namespace ServerTable

def receiveAdvertiseData (t : ServerTable) (advertiseData : Bytes) (ipSrc : UInt32) :
    Option ServerTable :=
  (List.range (recordCount advertiseData.length)).foldlM (fun t k =>
    (decodeRecord advertiseData (12 * k)).bind fun serverInfo =>
      t.updateLearningTable serverInfo ⟨ipSrc, ipUintIntoStr ipSrc⟩) t

theorem receiveAdvertiseData_eq (t : ServerTable) (advertiseData : Bytes) (ipSrc : UInt32) :
    t.receiveAdvertiseData advertiseData ipSrc = (decodeRecords advertiseData).bind fun records =>
      records.foldlM (fun t serverInfo => t.updateLearningTable serverInfo ⟨ipSrc, ipUintIntoStr ipSrc⟩) t :=
  Execution.foldlM_decode

def advertised (t : ServerTable) (n : Nat) : List ServerInformation :=
  ((List.range n).map t.serverInfoes).filter fun row => row.rttTime ≠ 65535

end ServerTable

def ServerInformation.encode (row : ServerInformation) : Bytes :=
  bytes32 (swap32 row.ip.uint) ++ bytes32 (swap32 row.rttTime.toUInt32) ++ bytes16 (swap16 row.pingSent) ++
    bytes16 (swap16 row.pingReceived)

def ServerInformation.received (row : ServerInformation) : ServerInformation :=
  { ServerInformation.zero with
    rttTime := row.rttTime
    pingLostRate := lostRateOf (swap16 row.pingReceived) (swap16 row.pingSent)
    pingSent := row.pingSent
    pingReceived := row.pingReceived
    ip := ⟨row.ip.uint, ipUintIntoStr row.ip.uint⟩ }

def recordAt (advertiseData : Bytes) (i : Nat) : ServerInformation :=
  { ServerInformation.zero with
    rttTime := (swap32 (word32 advertiseData (i + 4))).toUInt16
    pingLostRate := lostRateOf (word16 advertiseData (i + 10)) (word16 advertiseData (i + 8))
    pingSent := swap16 (word16 advertiseData (i + 8))
    pingReceived := swap16 (word16 advertiseData (i + 10))
    ip := ⟨swap32 (word32 advertiseData i), ipUintIntoStr (swap32 (word32 advertiseData i))⟩ }

theorem ServerInformation.length_encode (row : ServerInformation) : row.encode.length = 12 := rfl

theorem decodeRecord_eq_some {data : Bytes} {i : Nat} {serverInfo : ServerInformation} :
    decodeRecord data i = some serverInfo ↔ i + 12 ≤ data.length ∧ serverInfo = recordAt data i := by
  by_cases h : i + 12 ≤ data.length
  · have hd : decodeRecord data i = some (recordAt data i) := by
      unfold decodeRecord
      rw [load32_eq (by omega), load32_eq (by omega), load16_eq (by omega), load16_eq (by omega)]
      rfl
    rw [hd, Option.some.injEq]
    exact ⟨fun he => ⟨h, he.symm⟩, fun he => he.2.symm⟩
  · refine ⟨fun hd => ?_, fun hd => absurd hd.1 h⟩
    unfold decodeRecord at hd
    have hn : load16 data (i + 10) = none := if_neg (by omega)
    simp [hn] at hd

theorem mapM_decodeRecord {data : Bytes} {l : List Nat} {records : List ServerInformation}
    (h : l.mapM (fun k => decodeRecord data (12 * k)) = some records) :
    records = l.map (fun k => recordAt data (12 * k)) ∧ ∀ k ∈ l, 12 * k + 12 ≤ data.length := by
  induction l generalizing records with
  | nil => exact ⟨by simpa using h.symm, fun k hk => absurd hk (by simp)⟩
  | cons k l ih =>
    simp only [List.mapM_cons, Option.bind_eq_bind, Option.bind_eq_some_iff, Option.pure_def,
      Option.some.injEq] at h
    obtain ⟨r, hr, rs, hrs, rfl⟩ := h
    obtain ⟨hlen, rfl⟩ := decodeRecord_eq_some.mp hr
    obtain ⟨rfl, hall⟩ := ih hrs
    exact ⟨rfl, List.forall_mem_cons.mpr ⟨hlen, hall⟩⟩

theorem decodeRecords_eq {data : Bytes} {records : List ServerInformation}
    (h : decodeRecords data = some records) :
    records = (List.range (recordCount data.length)).map fun k => recordAt data (12 * k) :=
  (mapM_decodeRecord h).1

theorem decodeRecords_of_length {data : Bytes} (h : 12 * recordCount data.length ≤ data.length) :
    decodeRecords data =
      some ((List.range (recordCount data.length)).map fun k => recordAt data (12 * k)) := by
  have hall (n : Nat) (hn : n ≤ recordCount data.length) : (List.range n).mapM (fun k =>
      decodeRecord data (12 * k)) = some ((List.range n).map fun k => recordAt data (12 * k)) := by
    induction n with
    | zero => rfl
    | succ n ih =>
      have hr : decodeRecord data (12 * n) = some (recordAt data (12 * n)) :=
        decodeRecord_eq_some.mpr ⟨by omega, rfl⟩
      rw [List.range_succ, List.mapM_append, ih (by omega)]
      simp [hr]
  exact hall _ (le_refl _)

theorem recordAt_append_right (front back : Bytes) (i : Nat) :
    recordAt (front ++ back) (front.length + i) = recordAt back i := by
  simp only [recordAt, Nat.add_assoc, word32_append_right, word16_append_right]

theorem recordAt_encode (row : ServerInformation) (rest : Bytes) :
    recordAt (row.encode ++ rest) 0 = row.received := by
  have h₁ : word32 (row.encode ++ rest) 0 = swap32 row.ip.uint := join32_bytes _
  have h₂ : word32 (row.encode ++ rest) (0 + 4) = swap32 row.rttTime.toUInt32 := join32_bytes _
  have h₃ : word16 (row.encode ++ rest) (0 + 8) = swap16 row.pingSent := join16_bytes _
  have h₄ : word16 (row.encode ++ rest) (0 + 10) = swap16 row.pingReceived := join16_bytes _
  have h₅ : row.rttTime.toUInt32.toUInt16 = row.rttTime := UInt16.toUInt16_toUInt32 _
  simp only [recordAt, h₁, h₂, h₃, h₄, swap32_swap32, swap16_swap16, h₅]
  rfl

theorem map_recordAt (rows : List ServerInformation) (rest : Bytes) :
    (List.range rows.length).map (fun k => recordAt (rows.flatMap ServerInformation.encode ++ rest) (12 * k)) =
      rows.map ServerInformation.received := by
  induction rows with
  | nil => rfl
  | cons row rows ih =>
    rw [List.length_cons, List.range_succ_eq_map, List.map_cons, List.map_map, List.map_cons, ← ih,
      List.flatMap_cons, List.append_assoc]
    refine congrArg₂ List.cons (recordAt_encode row _) (List.map_congr_left fun k _ => ?_)
    have hk : 12 * (k + 1) = row.encode.length + 12 * k := by rw [row.length_encode]; omega
    show recordAt _ (12 * (k + 1)) = _
    rw [hk, recordAt_append_right]

theorem length_flatMap_encode (rows : List ServerInformation) :
    (rows.flatMap ServerInformation.encode).length = 12 * rows.length := by
  induction rows with
  | nil => rfl
  | cons row rows ih =>
    rw [List.flatMap_cons, List.length_append, row.length_encode, ih, List.length_cons]
    omega

theorem decodeRecords_flatMap (rows : List ServerInformation) {rest : Bytes} (h : rest.length = 4) :
    decodeRecords (rows.flatMap ServerInformation.encode ++ rest) =
      some (rows.map ServerInformation.received) := by
  have hl : (rows.flatMap ServerInformation.encode ++ rest).length = 12 * rows.length + 4 := by
    rw [List.length_append, length_flatMap_encode, h]
  have hc : recordCount (rows.flatMap ServerInformation.encode ++ rest).length = rows.length := by
    rw [hl, recordCount]
    omega
  rw [decodeRecords_of_length (by omega), hc, map_recordAt]

namespace ServerTable

variable {t : ServerTable}

theorem advertiseRow_live {data : Bytes} {offset i : Nat} (h : offset + 12 ≤ data.length)
    (hl : (t.serverInfoes i).rttTime ≠ 65535) : ∃ data', t.advertiseRow (data, offset) i =
      some (data', offset + 12) ∧ data'.length = data.length ∧
      data'.take (offset + 12) = data.take offset ++ (t.serverInfoes i).encode := by
  set row := t.serverInfoes i with hrow
  have l₀ : offset + (bytes32 (swap32 row.ip.uint)).length ≤ data.length := by simp; omega
  set d₁ := patch data offset (bytes32 (swap32 row.ip.uint)) with hd₁
  have e₁ : d₁.length = data.length := length_patch l₀
  have l₁ : offset + 4 + (bytes32 (swap32 row.rttTime.toUInt32)).length ≤ d₁.length := by simp; omega
  set d₂ := patch d₁ (offset + 4) (bytes32 (swap32 row.rttTime.toUInt32)) with hd₂
  have e₂ : d₂.length = d₁.length := length_patch l₁
  have l₂ : offset + 8 + (bytes16 (swap16 row.pingSent)).length ≤ d₂.length := by simp; omega
  set d₃ := patch d₂ (offset + 8) (bytes16 (swap16 row.pingSent)) with hd₃
  have e₃ : d₃.length = d₂.length := length_patch l₂
  have l₃ : offset + 10 + (bytes16 (swap16 row.pingReceived)).length ≤ d₃.length := by simp; omega
  refine ⟨patch d₃ (offset + 10) (bytes16 (swap16 row.pingReceived)), ?_, ?_, ?_⟩
  · simp only [advertiseRow, ← hrow, if_pos hl, store_eq l₀, ← hd₁, Option.bind_eq_bind, Option.bind_some,
      store_eq l₁, ← hd₂, store_eq l₂, ← hd₃, store_eq l₃]
  · rw [length_patch l₃, e₃, e₂, e₁]
  · have t₁ : d₁.take (offset + 4) = data.take offset ++ bytes32 (swap32 row.ip.uint) := take_patch_end l₀
    have t₂ : d₂.take (offset + 8) = d₁.take (offset + 4) ++ bytes32 (swap32 row.rttTime.toUInt32) :=
      take_patch_end l₁
    have t₃ : d₃.take (offset + 10) = d₂.take (offset + 8) ++ bytes16 (swap16 row.pingSent) :=
      take_patch_end l₂
    have t₄ : (patch d₃ (offset + 10) (bytes16 (swap16 row.pingReceived))).take (offset + 12) =
      d₃.take (offset + 10) ++ bytes16 (swap16 row.pingReceived) := take_patch_end l₃
    rw [t₄, t₃, t₂, t₁]
    simp only [ServerInformation.encode, List.append_assoc]

theorem advertiseRow_down {r : Bytes × Nat} {i : Nat} (hl : (t.serverInfoes i).rttTime = 65535) :
    t.advertiseRow r i = some r := by
  simp only [advertiseRow, hl, ne_eq, not_true_eq_false, if_false]

theorem advertised_succ (n : Nat) : t.advertised (n + 1) = t.advertised n ++
    if (t.serverInfoes n).rttTime ≠ 65535 then [t.serverInfoes n] else [] := by
  rw [advertised, List.range_succ, List.map_append, List.filter_append]
  by_cases hl : (t.serverInfoes n).rttTime = 65535 <;> simp [advertised, hl]

theorem length_advertised (n : Nat) : (t.advertised n).length ≤ n := by
  simpa [advertised] using List.length_filter_le (fun row : ServerInformation => row.rttTime ≠ 65535)
    ((List.range n).map t.serverInfoes)

theorem advertiseRow_loop {data : Bytes} {n : Nat} (h : 12 * n ≤ data.length) :
    ∃ data', (List.range n).foldlM t.advertiseRow (data, 0) = some (data', 12 * (t.advertised n).length) ∧
      data'.length = data.length ∧
      data'.take (12 * (t.advertised n).length) = (t.advertised n).flatMap ServerInformation.encode := by
  induction n with
  | zero => exact ⟨data, rfl, rfl, rfl⟩
  | succ n ih =>
    obtain ⟨d, hd, hlen, htake⟩ := ih (by omega)
    have hle := t.length_advertised n
    rw [List.range_succ, List.foldlM_append, hd, advertised_succ]
    by_cases hl : (t.serverInfoes n).rttTime = 65535
    · refine ⟨d, ?_, hlen, ?_⟩
      · simp [advertiseRow_down hl, hl]
      · simpa [hl] using htake
    · have hroom : 12 * (t.advertised n).length + 12 ≤ d.length := by omega
      obtain ⟨d', hd', hlen', htake'⟩ := advertiseRow_live hroom hl
      have hoff : 12 * (t.advertised n ++ [t.serverInfoes n]).length = 12 * (t.advertised n).length + 12 := by
        rw [List.length_append, List.length_singleton]
        omega
      refine ⟨d', ?_, hlen'.trans hlen, ?_⟩
      · rw [if_pos hl, hoff]
        simp [hd']
      · rw [if_pos hl, hoff, htake', htake, List.flatMap_append, List.flatMap_singleton]

theorem advertiseData_eq (h : 0 ≤ t.numberOfServers) : t.advertiseData =
    some ((t.advertised t.configured).flatMap ServerInformation.encode ++ bytes32 0) := by
  have hsize : (12 * t.numberOfServers + 4).toNat = 12 * t.configured + 4 := by
    rw [configured]
    omega
  have hroom : 12 * t.configured ≤ (List.replicate (12 * t.numberOfServers + 4).toNat (0 : UInt8)).length := by
    rw [List.length_replicate]
    omega
  obtain ⟨data, hd, hlen, htake⟩ := advertiseRow_loop (t := t) hroom
  have hle := t.length_advertised t.configured
  rw [List.length_replicate, hsize] at hlen
  have hs : 12 * (t.advertised t.configured).length + (bytes32 0).length ≤ data.length := by
    rw [length_bytes32]
    omega
  have hend := take_patch_end hs
  rw [length_bytes32] at hend
  simp only [advertiseData, if_neg (show ¬ t.numberOfServers < 0 by omega), hd, Option.bind_eq_bind,
    Option.bind_some, store_eq hs, hend, htake]

theorem advertiseData_cases {data : Bytes} (h : t.advertiseData = some data) : 0 ≤ t.numberOfServers ∧
    data = (t.advertised t.configured).flatMap ServerInformation.encode ++ bytes32 0 := by
  by_cases hn : t.numberOfServers < 0
  · rw [advertiseData, if_pos hn] at h
    cases h
  · have he := advertiseData_eq (t := t) (by omega)
    rw [h] at he
    exact ⟨by omega, Option.some.inj he⟩

theorem decodeRecords_advertiseData {data : Bytes} (h : t.advertiseData = some data) :
    decodeRecords data = some ((t.advertised t.configured).map ServerInformation.received) := by
  obtain ⟨_, rfl⟩ := advertiseData_cases h
  exact decodeRecords_flatMap _ (length_bytes32 0)

end ServerTable

end Overlay
