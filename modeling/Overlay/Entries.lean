import Overlay.KeyIndex
import Overlay.Exchanges
import Overlay.Learning

/-! The addresses of the known rows as an index that only grows. A record of an
advertisement adds its address; every other step leaves the index alone, and a frame
changes no row but those of the addresses it names. -/

namespace Overlay

open ByteMemory Execution

/-- What a frame lists, if the node takes it for an advertisement. -/
def listed (frame : Bytes) : List UInt32 :=
  if isValidPacket frame = some true ∧ ipP frame = 17 ∧ portDst frame = 5000 then
    ((decodeRecords (frame.drop 42)).getD []).map (·.ip.uint)
  else []

/-- The server of an echo reply, or the servers an advertisement lists. -/
def named (frame : Bytes) : List UInt32 :=
  if isValidPacket frame = some true ∧ ipP frame = 1 then [ipSrc frame] else listed frame

theorem named_echo {frame : Bytes} (h : ValidIcmp frame) : named frame = [ipSrc frame] :=
  if_pos ⟨(isValidPacket_iff frame).mpr (Or.inr h), h.ipP_eq⟩

theorem listed_eq_nil {frame : Bytes} (h : ¬ (ValidUdp frame ∧ portDst frame = 5000)) : listed frame = [] :=
  if_neg fun hv => h ⟨validUdp_of_accepted hv.1 hv.2.1, hv.2.2⟩

theorem listed_advertisement {frame : Bytes} {records : List ServerInformation} (h : ValidUdp frame)
    (hp : portDst frame = 5000) (hd : decodeRecords (frame.drop 42) = some records) :
    listed frame = records.map (·.ip.uint) ∧ named frame = records.map (·.ip.uint) := by
  have hl : listed frame = records.map (·.ip.uint) := by
    rw [listed, if_pos ⟨(isValidPacket_iff frame).mpr (Or.inl h), h.ipP_eq, hp⟩, hd, Option.getD_some]
  have hn : ¬ (isValidPacket frame = some true ∧ ipP frame = 1) := by
    rw [h.ipP_eq]
    exact fun hc => absurd hc.2 (by decide)
  exact ⟨hl, (if_neg hn).trans hl⟩

namespace ServerTable

variable {t u : ServerTable} {i : Nat} {uint : UInt32}

def keys (t : ServerTable) : List UInt32 := (List.range t.known).map fun i => (t.serverInfoes i).ip.uint

theorem mem_keys : uint ∈ t.keys ↔ ∃ i < t.known, (t.serverInfoes i).ip.uint = uint := by
  simp [keys]

theorem getIndexByIp_eq_none_iff : t.getIndexByIp uint = none ↔ uint ∉ t.keys := by
  rw [getIndexByIp_eq_none, mem_keys]
  push Not
  rfl

theorem nodup_keys : t.keys.Nodup ↔ ∀ i < t.known, ∀ j < t.known,
    (t.serverInfoes i).ip.uint = (t.serverInfoes j).ip.uint → i = j := by
  rw [keys, List.nodup_map_iff_inj_on List.nodup_range]
  simp only [List.mem_range]

theorem getIndexByIp_of_nodup (h : t.keys.Nodup) (hi : i < t.known) :
    t.getIndexByIp (t.serverInfoes i).ip.uint = some i := by
  refine getIndexByIp_eq_some.mpr ⟨hi, rfl, fun j hj he => ?_⟩
  have := nodup_keys.mp h j (hj.trans hi) i hi he
  omega

theorem keys_congr (hx : t.Extends u) (hk : u.known = t.known) : u.keys = t.keys := by
  rw [keys, hk]
  refine List.map_congr_left fun i hi => ?_
  rw [hx.ip_eq i (List.mem_range.mp hi)]

theorem keys_updateLearningTable {serverInfo : ServerInformation} {ip : IpInfo}
    (h : t.updateLearningTable serverInfo ip = some u) : u.keys = KeyIndex.add t.keys serverInfo.ip.uint := by
  have hx := extends_updateLearningTable h
  rcases updateLearningTable_cases h with ⟨id, hid, rfl⟩ | ⟨hnone, h₀, _, rfl⟩
  · obtain ⟨hk, hu, _⟩ := getIndexByIp_eq_some.mp hid
    rw [KeyIndex.add_of_mem (mem_keys.mpr ⟨id, hk, hu⟩), keys_congr hx rfl]
  · have hk : ((t.inserted serverInfo).learnAt t.known serverInfo ip).known = t.known + 1 :=
      @known_inserted t serverInfo h₀
    have hold : (List.range t.known).map (fun i =>
        (((t.inserted serverInfo).learnAt t.known serverInfo ip).serverInfoes i).ip.uint) = t.keys := by
      refine List.map_congr_left fun i hi => ?_
      rw [hx.ip_eq i (List.mem_range.mp hi)]
    rw [KeyIndex.add_of_notMem (getIndexByIp_eq_none_iff.mp hnone), keys, hk, List.range_succ,
      List.map_append, hold, List.map_singleton, learnAt_serverInfoes_self]
    simp only [inserted, setRow_serverInfoes, Function.update_self]

theorem updateLearningTable_row {serverInfo : ServerInformation} {ip : IpInfo}
    (h : t.updateLearningTable serverInfo ip = some u) (i : Nat) :
    u.serverInfoes i = t.serverInfoes i ∨ (u.serverInfoes i).ip.uint = serverInfo.ip.uint := by
  rcases updateLearningTable_cases h with ⟨id, hid, rfl⟩ | ⟨_, _, _, rfl⟩
  · by_cases hi : i = id
    · subst hi
      rw [learnAt_serverInfoes_self]
      exact Or.inr (getIndexByIp_eq_some.mp hid).2.1
    · exact Or.inl (learnAt_serverInfoes_of_ne hi)
  · by_cases hi : i = t.known
    · subst hi
      rw [learnAt_serverInfoes_self]
      simp only [inserted, setRow_serverInfoes, Function.update_self, or_true]
    · rw [learnAt_serverInfoes_of_ne hi, inserted_serverInfoes_of_ne hi]
      exact Or.inl rfl

theorem keys_learnAll {calls : List (ServerInformation × IpInfo)} (h : t.learnAll calls = some u) :
    u.keys = KeyIndex.addAll t.keys (calls.map fun call => call.1.ip.uint) := by
  induction calls generalizing t with
  | nil =>
    obtain rfl : t = u := by simpa [learnAll] using h
    rfl
  | cons call calls ih =>
    obtain ⟨v, hv, hu⟩ := Option.bind_eq_some_iff.mp h
    rw [ih hu, keys_updateLearningTable hv]
    rfl

theorem keys_receiveAdvertiseData {advertiseData : Bytes} {ipSrc : UInt32}
    (h : t.receiveAdvertiseData advertiseData ipSrc = some u) : ∃ records,
    decodeRecords advertiseData = some records ∧ u.keys = KeyIndex.addAll t.keys (records.map (·.ip.uint)) ∧
    ∀ i, u.serverInfoes i = t.serverInfoes i ∨ (u.serverInfoes i).ip.uint ∈ records.map (·.ip.uint) := by
  obtain ⟨records, hd, hl⟩ := learnAll_of_receiveAdvertiseData h
  refine ⟨records, hd, ?_, fun i => ?_⟩
  · rw [keys_learnAll hl, List.map_map]
    rfl
  · refine receiveAdvertiseData_induction (P := fun v => v.serverInfoes i = t.serverInfoes i ∨
      (v.serverInfoes i).ip.uint ∈ records.map (·.ip.uint)) h (Or.inl rfl) fun {rs serverInfo v w} hrs hm hv hw => ?_
    obtain rfl : records = rs := Option.some.inj (hd.symm.trans hrs)
    rcases updateLearningTable_row hw i with hi | hi
    · rwa [hi]
    · exact Or.inr (hi ▸ List.mem_map_of_mem hm)

theorem receivePingPacket_row {ip : UInt32} {now : Int} {sequenceId : UInt16}
    (h : t.receivePingPacket ip now sequenceId = some u) (i : Nat) :
    u.serverInfoes i = t.serverInfoes i ∨ (u.serverInfoes i).ip.uint = ip := by
  refine receivePingPacket_induction (P := fun v => v.serverInfoes i = t.serverInfoes i ∨
    (v.serverInfoes i).ip.uint = ip) h (Or.inl rfl) fun {j v w} _ hv ha hw => ?_
  have hj : ((v.serverInfoes j).pingReceivedAt now).ip.uint = ip := by
    rw [pingReceivedAt_ip]
    exact ha.1
  rcases updateLearningTable_row hw i with hi | hi
  · rw [hi, setRow_serverInfoes]
    by_cases hij : i = j
    · subst hij
      rw [Function.update_self]
      exact Or.inr hj
    · rwa [Function.update_of_ne hij]
  · exact Or.inr (hi.trans hj)

theorem keys_receivePingPacket {ip : UInt32} {now : Int} {sequenceId : UInt16} (hw : t.WellFormed)
    (h : t.receivePingPacket ip now sequenceId = some u) : u.keys = t.keys := by
  have hc := hw.configured_le_known
  have hp : t.Extends u ∧ u.keys = t.keys := by
    refine receivePingPacket_induction (P := fun v => t.Extends v ∧ v.keys = t.keys) h ⟨.refl t, rfl⟩
      fun {i v w} hi hv _ hw => ?_
    have hset := extends_pingReceivedAt v i now
    have hk : i < v.known := (hi.trans_le hc).trans_le hv.1.known
    refine ⟨(hv.1.trans hset).trans (extends_updateLearningTable hw), ?_⟩
    -- the row that takes the reply is found again by its own address
    rw [keys_updateLearningTable hw, keys_congr hset rfl, pingReceivedAt_ip, hv.2]
    exact KeyIndex.add_of_mem (hv.2 ▸ mem_keys.mpr ⟨i, hk, rfl⟩)
  exact hp.2

end ServerTable

section Frames

variable {m m' : Machine} {data : Bytes} {now : Int} {out : List Sent}

theorem keys_frame (hw : m.table.WellFormed) (h : FrameStep m data now m' out) :
    m'.table.keys = KeyIndex.addAll m.table.keys (listed data) ∧
    ∀ i, m'.table.serverInfoes i = m.table.serverInfoes i ∨ (m'.table.serverInfoes i).ip.uint ∈ named data := by
  have hother (hn : ¬ (ValidUdp data ∧ portDst data = 5000)) (ht : m'.table = m.table) :
      m'.table.keys = KeyIndex.addAll m.table.keys (listed data) ∧
      ∀ i, m'.table.serverInfoes i = m.table.serverInfoes i ∨
        (m'.table.serverInfoes i).ip.uint ∈ named data := by
    rw [listed_eq_nil hn, ht]
    exact ⟨rfl, fun _ => Or.inl rfl⟩
  cases h with
  | rejected hv => exact hother (fun hu => not_validUdp_of_rejected hv hu.1) rfl
  | echo hi ht =>
    rw [listed_eq_nil fun hu => hi.not_validUdp hu.1, named_echo hi]
    refine ⟨ServerTable.keys_receivePingPacket hw ht, fun i => ?_⟩
    exact (ServerTable.receivePingPacket_row ht i).imp_right List.mem_singleton.mpr
  | advertisement hu hp ht =>
    obtain ⟨records, hd, hkeys, hrows⟩ := ServerTable.keys_receiveAdvertiseData ht
    obtain ⟨hl, hn⟩ := listed_advertisement hu hp hd
    rw [hl, hn]
    exact ⟨hkeys, hrows⟩
  | forward hu hp hf =>
    obtain ⟨_, _, _, rfl⟩ := Machine.natForward_cases hf
    refine hother (fun hc => ?_) rfl
    rcases hp with hp | hp <;> rw [hp] at hc <;> exact absurd hc.2 (by decide)
  | reply hu h₁ h₂ hk hr =>
    obtain ⟨rfl, _⟩ := Machine.natReply_cases hr
    exact hother (fun hc => (service_ports h₁).2.2 hc.2) rfl
  | ignored hu hp => exact hother (fun hc => hp hc.2) rfl

end Frames

namespace Threads

/-- The addresses listed in the advertisement processed by a step. -/
def listedIn (x : Moment) : List UInt32 :=
  match x.event with
  | .frame data _ => listed data
  | _ => []

variable {t u : Threads} {e : ThreadEvent} {out : List Sent}

/-- Only a frame makes a row known. -/
theorem frame_or_kept (h : t.step e = some (u, out)) :
    (∃ data now, e = .frame data now ∧ FrameStep t.machine data now u.machine out) ∨
    (listedIn ⟨t, e, out⟩ = [] ∧ t.machine.table.Extends u.machine.table ∧
      u.machine.table.known = t.machine.table.known) := by
  cases step_cases h with
  | check _ => exact Or.inr ⟨rfl, ServerTable.extends_mapRows fun _ row => ServerTable.checkAlive_ip row, rfl⟩
  | @request k now _ =>
    exact Or.inr ⟨rfl, ServerTable.extends_setRow (ServerTable.updateServerInformation_ip (t.row k) _ now), rfl⟩
  | advertise _ hm =>
    obtain ⟨_, _, rfl, rfl⟩ := Machine.step_advertise hm
    exact Or.inr ⟨rfl, ServerTable.extends_routes _, rfl⟩
  | unknown _ _ => exact Or.inr ⟨rfl, .refl _, rfl⟩
  | allocate _ _ _ => exact Or.inr ⟨rfl, .refl _, rfl⟩
  | record _ => exact Or.inr ⟨rfl, .refl _, rfl⟩
  | frame hf => exact Or.inl ⟨_, _, rfl, hf⟩

theorem keys_step {t₀ : ServerTable} (hs : Sound t₀ t) (h : t.step e = some (u, out)) :
    u.machine.table.keys = KeyIndex.addAll t.machine.table.keys (listedIn ⟨t, e, out⟩) := by
  rcases frame_or_kept h with ⟨data, now, rfl, hf⟩ | ⟨hl, hx, hk⟩
  · exact (keys_frame hs.wellFormed hf).1
  · rw [hl]
    exact ServerTable.keys_congr hx hk

section Runs

variable {iface : Fin 2 → Interface} {info : Str} {m₀ : Machine} {h : List Moment}

theorem known_at_start (hi : Machine.initializeMachine iface info = some m₀) :
    m₀.table.known = m₀.table.configured :=
  congrArg Int.toNat (Machine.run_table hi .start).1.counts

theorem run_keys (hi : Machine.initializeMachine iface info = some m₀) (hr : Run step ⟨m₀, .idle⟩ h t) :
    t.machine.table.keys = KeyIndex.addAll m₀.table.keys (h.flatMap listedIn) := by
  induction hr with
  | start => rfl
  | snoc hr he ih =>
    rw [keys_step (run_sound hi hr) he, ih, List.flatMap_append, KeyIndex.addAll_append, List.flatMap_singleton]

/-- In every state the rows have distinct addresses, each found at its own index, and the
missing addresses are those neither configured nor listed. Rows are only added, and a
frame changes no row but those it names. -/
theorem entries_indexed (hi : Machine.initializeMachine iface info = some m₀)
    (hd : ∀ i < m₀.table.configured, ∀ j < m₀.table.configured,
      (m₀.table.serverInfoes i).ip.uint = (m₀.table.serverInfoes j).ip.uint → i = j)
    (hr : Run step ⟨m₀, .idle⟩ h t) :
    (∀ i < t.machine.table.known, ∀ j < t.machine.table.known, (t.row i).ip.uint = (t.row j).ip.uint → i = j) ∧
    (∀ i < t.machine.table.known, t.machine.table.getIndexByIp (t.row i).ip.uint = some i) ∧
    (∀ uint, t.machine.table.getIndexByIp uint = none ↔
      (∀ i < m₀.table.configured, (m₀.table.serverInfoes i).ip.uint ≠ uint) ∧ uint ∉ h.flatMap listedIn) ∧
    (∀ k u, Run step t k u → t.machine.table.known ≤ u.machine.table.known ∧
      ∀ i < t.machine.table.known, (u.row i).ip = (t.row i).ip) ∧
    ∀ data now u out, t.step (.frame data now) = some (u, out) →
      ∀ i, u.row i ≠ t.row i → (u.row i).ip.uint ∈ named data := by
  have hs := run_sound hi hr
  have hknown := known_at_start hi
  have hkeys := run_keys hi hr
  have hnodup : t.machine.table.keys.Nodup := by
    rw [hkeys]
    refine KeyIndex.nodup_addAll (ServerTable.nodup_keys.mpr ?_) _
    rwa [hknown]
  refine ⟨ServerTable.nodup_keys.mp hnodup, fun i hi => ServerTable.getIndexByIp_of_nodup hnodup hi,
    fun uint => ?_, fun k u hk => ?_, fun data now u out he i hne => ?_⟩
  · rw [ServerTable.getIndexByIp_eq_none_iff, hkeys, KeyIndex.mem_addAll, ServerTable.mem_keys, hknown]
    push Not
    rfl
  · have ht : Sound t.machine.table t := ⟨.refl _, hs.wellFormed, hs.ping_lt⟩
    have hx := (hk.invariant (P := Sound t.machine.table) ht fun hv he => hv.step he).extends_start
    exact ⟨hx.known, hx.ip_eq⟩
  · cases step_cases he with
    | frame hf => exact ((keys_frame hs.wellFormed hf).2 i).resolve_left hne

/-- After an advertisement that lists a new server twice and the configured one once. -/
theorem entries_indexed_after_repeats : ∃ m₀ h t, Machine.initializeMachine sampleIface sampleInfo = some m₀ ∧
    Run step ⟨m₀, .idle⟩ h t ∧ t.machine.table.known = 2 ∧ ∀ i < 2, ∀ j < 2,
      (t.row i).ip.uint = (t.row j).ip.uint → i = j := by
  obtain ⟨m₀, h, t, hi, hr, _, hc, hk⟩ := reaches sampleIface sampleInfo
    [.frame (sampleAdvertisement 0xC0A80002 [sampleRow 0x09090909 10 1 1, sampleRow 0x08080808 5 1 1,
      sampleRow 0x09090909 20 1 1]).data 0]
    (fun t _ => t.machine.table.configured = 1 ∧ t.machine.table.known = 2) (by decide +kernel)
  have hone : m₀.table.configured = 1 := (configured_eq hi hr).trans hc
  have hd : ∀ i < m₀.table.configured, ∀ j < m₀.table.configured,
      (m₀.table.serverInfoes i).ip.uint = (m₀.table.serverInfoes j).ip.uint → i = j := by
    intro i hi j hj _
    omega
  have hrows := (entries_indexed hi hd hr).1
  rw [hk] at hrows
  exact ⟨m₀, h, t, hi, hr, hk, hrows⟩

end Runs

end Threads

end Overlay
