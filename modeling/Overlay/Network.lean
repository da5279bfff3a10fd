import Overlay.Interleaving
import Overlay.PeerReports
import Overlay.Probes
import Overlay.Replies

/-! Any number of nodes that hear of each other through advertisements only. A learned
route by way of a peer leads back to one advertisement of that peer, and from there to
what the peer had measured itself. -/

namespace Overlay

open BestSlot ByteMemory Execution Interleaving

/-- Nodes and the advertisements in flight. On its own a node does anything but receive an
advertisement: its commands, the replies of the servers, the packets it forwards. -/
def overlay : Parties Machine Event (List Sent) Bytes Int where
  step := Machine.step
  own e := e.advertiser.isNone
  sends e out := match e with
    | .advertise => out.map Sent.frame
    | _ => []
  arrival := .frame

/-- The frame of an advertisement gives a round trip time for the server `s`. -/
def Lists (frame : Bytes) (s : UInt32) (rttTime : UInt16) : Prop :=
  ∃ records, decodeRecords (frame.drop 42) = some records ∧
    ∃ record ∈ records, record.ip.uint = s ∧ record.rttTime = rttTime

def Processes {ι : Type*} (a p : ι) (frame : Bytes)
    (x : Taken (World ι Machine Bytes) (Move ι Event Int) (List Sent)) : Prop :=
  ∃ k now, x.event = .deliver a k now ∧ x.before.pool[k]? = some (p, frame) ∧ isValidPacket frame = some true

/-! What an event reports. -/

theorem reported_frame {frame : Bytes} (hu : ValidUdp frame) (hp : portDst frame = 5000) (now : Int)
    (hop s : UInt32) : (Event.frame frame now).reported hop s =
      if ipSrc frame = hop then (decodeRecords (frame.drop 42)).bind (lastRtt s) else none := by
  rw [Event.reported, Event.onTable_udp hu, if_pos hp]
  rfl

theorem exists_frame_of_reported {e : Event} {hop s : UInt32} {v : UInt16} (h : e.reported hop s = some v) :
    ∃ frame now, e = .frame frame now ∧ ValidUdp frame ∧ portDst frame = 5000 := by
  obtain ⟨te, hte, hv⟩ := Option.bind_eq_some_iff.mp h
  cases e with
  | ping | advertise => cases hte; cases hv
  | dsa | lsa => cases hte
  | frame frame now =>
    by_cases hval : isValidPacket frame = some true
    · rcases (isValidPacket_iff frame).mp hval with hu | hi
      · by_cases hp : portDst frame = 5000
        · exact ⟨frame, now, rfl, hu, hp⟩
        · rw [Event.onTable_udp hu, if_neg hp] at hte
          cases hte
      · rw [Event.onTable_echo hi] at hte
        cases hte
        cases hv
    · rw [Event.onTable, if_neg hval] at hte
      cases hte

theorem reported_of_advertiser_none {e : Event} (h : e.advertiser = none) (hop s : UInt32) :
    e.reported hop s = none := by
  rw [Option.eq_none_iff_forall_ne_some]
  intro v hv
  obtain ⟨frame, now, rfl, hu, hp⟩ := exists_frame_of_reported hv
  have hs : (Event.frame frame now).advertiser = some (ipSrc frame, etherShost frame) :=
    if_pos ⟨(isValidPacket_iff frame).mpr (Or.inl hu), hu.ipP_eq, hp⟩
  rw [hs] at h
  cases h

theorem exists_record_of_lastRtt {s : UInt32} {records : List ServerInformation} {v : UInt16}
    (h : lastRtt s records = some v) : ∃ record ∈ records, record.ip.uint = s ∧ record.rttTime = v := by
  obtain ⟨record, hl, hv⟩ := Option.map_eq_some_iff.mp h
  have hm := List.mem_of_getLast? hl
  rw [List.mem_filter, decide_eq_true_eq] at hm
  exact ⟨record, hm.1, hm.2, hv⟩

theorem lastRtt_ne_none {s : UInt32} {records : List ServerInformation} {record : ServerInformation}
    (hm : record ∈ records) (hs : record.ip.uint = s) : lastRtt s records ≠ none := by
  intro hn
  rw [lastRtt, Option.map_eq_none_iff, List.getLast?_eq_none_iff, List.filter_eq_nil_iff] at hn
  exact hn record hm (decide_eq_true hs)

/-! The frame of an advertisement. -/

theorem ipSrc_advertisePacket (iface : Fin 2 → Interface) (ipDst : UInt32) (macDst : Mac) (advertiseData : Bytes) :
    ipSrc (Machine.advertisePacket iface ipDst macDst advertiseData).frame = (iface 0).ip := by
  have h : word32 (Machine.advertisePacket iface ipDst macDst advertiseData).frame 26 = swap32 (iface 0).ip :=
    join32_bytes _
  rw [ipSrc, h, swap32_swap32]

theorem portDst_advertisePacket (iface : Fin 2 → Interface) (ipDst : UInt32) (macDst : Mac)
    (advertiseData : Bytes) :
    portDst (Machine.advertisePacket iface ipDst macDst advertiseData).frame = 5000 := by
  have h : word16 (Machine.advertisePacket iface ipDst macDst advertiseData).frame 36 = swap16 5000 :=
    join16_bytes _
  rw [portDst, h, swap16_swap16]

theorem ipP_advertisePacket (iface : Fin 2 → Interface) (ipDst : UInt32) (macDst : Mac) (advertiseData : Bytes) :
    ipP (Machine.advertisePacket iface ipDst macDst advertiseData).frame = 17 := rfl

/-! What every node of a network keeps. -/

theorem step_iface {m m' : Machine} {e : Event} {out : List Sent} (h : m.step e = some (m', out)) :
    m'.iface = m.iface := by
  cases Machine.step_cases h with
  | ping clock => rfl
  | advertise _ => rfl
  | unknown _ _ => rfl
  | own _ _ hs =>
    obtain ⟨rfl, _⟩ := Machine.sendUdpPacket_cases hs
    rfl
  | frame hf =>
    cases hf with
    | rejected _ => rfl
    | echo _ _ => rfl
    | advertisement _ _ _ => rfl
    | forward _ _ hf =>
      obtain ⟨_, _, _, rfl⟩ := Machine.natForward_cases hf
      rfl
    | reply _ _ _ _ hr =>
      obtain ⟨rfl, _⟩ := Machine.natReply_cases hr
      rfl
    | ignored _ _ _ _ _ => rfl

theorem run_iface {iface : Fin 2 → Interface} {info : Str} {m₀ m : Machine}
    {h : List (Taken Machine Event (List Sent))} (hi : Machine.initializeMachine iface info = some m₀)
    (hr : Run Machine.step m₀ h m) : m.iface = iface := by
  refine hr.invariant (P := fun m => m.iface = iface) ?_ fun hm he => (step_iface he).trans hm
  obtain ⟨t, _, rfl⟩ := Option.map_eq_some_iff.mp hi
  rfl

namespace ServerTable

variable {t u : ServerTable}

def Indexed (t : ServerTable) : Prop := ∀ i < t.known, t.getIndexByIp (t.serverInfoes i).ip.uint = some i

theorem Indexed.of_known_eq (h : t.Indexed) (he : t.Extends u) (hk : u.known = t.known) : u.Indexed := by
  intro i hi
  rw [hk] at hi
  rw [he.ip_eq i hi]
  exact he.getIndexByIp (h i hi)

theorem Indexed.updateLearningTable {serverInfo : ServerInformation} {ip : IpInfo} (h : t.Indexed)
    (he : t.updateLearningTable serverInfo ip = some u) : u.Indexed := by
  have hx := extends_updateLearningTable he
  rcases updateLearningTable_cases he with ⟨id, _, rfl⟩ | ⟨hnone, h₀, _, rfl⟩
  · exact h.of_known_eq hx rfl
  · intro i hi
    have hk : (t.inserted serverInfo).known = t.known + 1 := known_inserted h₀
    have hi' : i < (t.inserted serverInfo).known := hi
    by_cases hlt : i < t.known
    · rw [hx.ip_eq i hlt]
      exact hx.getIndexByIp (h i hlt)
    · obtain rfl : i = t.known := by omega
      refine getIndexByIp_eq_some.mpr ⟨hi, rfl, fun j hj => ?_⟩
      rw [hx.ip_eq j hj, learnAt_serverInfoes_self]
      simpa only [inserted, setRow_serverInfoes, Function.update_self] using getIndexByIp_eq_none.mp hnone j hj

theorem Indexed.step {te : TableEvent} (h : t.Indexed) (hw : t.WellFormed) (he : t.step te = some u) :
    u.Indexed := by
  have hx := extends_step he
  cases te with
  | ping clock =>
    obtain rfl := Option.some.inj he
    exact h.of_known_eq hx rfl
  | advertise =>
    obtain ⟨_, _, rfl⟩ := Option.map_eq_some_iff.mp he
    exact h.of_known_eq hx rfl
  | echo ip now sequenceId => exact h.of_known_eq hx (hopsFrom_echo hw he).2
  | advertisement advertiseData ipSrc =>
    exact receiveAdvertiseData_induction (P := Indexed) he h fun _ _ hv hu => hv.updateLearningTable hu

def Distinct (t : ServerTable) : Prop := ∀ i < t.configured, ∀ j < t.configured,
  (t.serverInfoes i).ip.uint = (t.serverInfoes j).ip.uint → i = j

instance (t : ServerTable) : Decidable t.Distinct := inferInstanceAs (Decidable (∀ i < t.configured, _))

theorem Distinct.of_extends (h : t.Distinct) (hc : t.configured ≤ t.known) (he : t.Extends u) : u.Distinct := by
  intro i hi j hj hu
  rw [he.configured] at hi hj
  rw [he.ip_eq i (hi.trans_le hc), he.ip_eq j (hj.trans_le hc)] at hu
  exact h i hi j hj hu

theorem Initial.indexed (h : t.Initial) (hd : t.Distinct) : t.Indexed := by
  intro i hi
  have hk : t.known = t.configured := by rw [known, h.counts, configured]
  refine getIndexByIp_eq_some.mpr ⟨hi, rfl, fun j hj hu => ?_⟩
  have := hd j (by omega) i (by omega) hu
  omega

theorem exists_row_of_record {advertiseData : Bytes} {records : List ServerInformation}
    (h : t.advertiseData = some advertiseData) (hr : decodeRecords advertiseData = some records)
    {record : ServerInformation} (hm : record ∈ records) : ∃ j < t.configured,
      (t.serverInfoes j).ip.uint = record.ip.uint ∧ (t.serverInfoes j).rttTime = record.rttTime := by
  obtain ⟨_, rfl⟩ := advertiseData_cases h
  rw [decodeRecords_flatMap _ (length_bytes32 0)] at hr
  obtain rfl := Option.some.inj hr
  obtain ⟨row, hrow, rfl⟩ := List.mem_map.mp hm
  have hrow := (List.mem_filter.mp hrow).1
  obtain ⟨j, hj, rfl⟩ := List.mem_map.mp hrow
  exact ⟨j, List.mem_range.mp hj, rfl, rfl⟩

end ServerTable

section Network

variable {ι : Type*} [DecidableEq ι] {iface : ι → Fin 2 → Interface} {info : ι → Str}
  {w₀ w : World ι Machine Bytes} {h : List (Taken (World ι Machine Bytes) (Move ι Event Int) (List Sent))}
  {a p : ι} {frame : Bytes}

/-- Nodes that have just started, whose addresses tell them apart from each other, from
no address and from every gateway, each with servers of different addresses. -/
structure Started (iface : ι → Fin 2 → Interface) (info : ι → Str) (w₀ : World ι Machine Bytes) : Prop where
  node : ∀ p, Machine.initializeMachine (iface p) (info p) = some (w₀.party p)
  pool_eq : w₀.pool = []
  address_inj : ∀ p q, (iface p 0).ip = (iface q 0).ip → p = q
  address_ne_zero : ∀ p, (iface p 0).ip ≠ 0
  address_ne_gateway : ∀ p q, (iface p 0).ip ≠ (w₀.party q).table.ipGateway.uint
  distinct : ∀ p, (w₀.party p).table.Distinct

theorem pool_frame (hs : Started iface info w₀) (hr : Run overlay.move w₀ h w) (hm : (p, frame) ∈ w.pool) :
    ∃ g₁ y g₂, h = g₁ ++ y :: g₂ ∧ y.event = .own p .advertise ∧ y.output = [⟨0, frame⟩] ∧
      (y.before.party p).table.advertiseData = some (frame.drop 42) ∧ ipSrc frame = (iface p 0).ip ∧
      portDst frame = 5000 ∧ ipP frame = 17 := by
  obtain ⟨g₁, y, g₂, e, rfl, hturn, hsend⟩ := Parties.origin hr hs.pool_eq hm
  obtain ⟨_, hr₁, hmove, _⟩ := hr.split_at
  obtain ⟨j, e', s, hturn', hstep, _⟩ := Parties.move_cases hmove
  obtain ⟨rfl, rfl⟩ := Prod.mk.inj (Option.some.inj (hturn.symm.trans hturn'))
  cases e with
  | ping | dsa | lsa | frame => cases hsend
  | advertise =>
    obtain ⟨data, hd, _, ho⟩ := Machine.step_advertise hstep
    have hiface := run_iface (hs.node p) (Parties.run_party hr₁ p)
    rw [ho] at hsend
    obtain rfl := List.mem_singleton.mp hsend
    refine ⟨g₁, y, g₂, rfl, ?_, ho, hd, ?_, portDst_advertisePacket _ _ _ _, ipP_advertisePacket _ _ _ _⟩
    · rcases Parties.turn_cases hturn with ⟨hev, _⟩ | ⟨_, _, _, _, _, _, he⟩
      · exact hev
      · cases he
    · rw [ipSrc_advertisePacket, hiface]

theorem run_tables (hs : Started iface info w₀) (hr : Run overlay.move w₀ h w) (p : ι) :
    (w.party p).table.Indexed ∧ (w.party p).table.Distinct := by
  have hrp := Parties.run_party hr p
  obtain ⟨h₀, hx, _⟩ := Machine.run_table (hs.node p) hrp
  refine ⟨?_, (hs.distinct p).of_extends h₀.wellFormed.configured_le_known hx⟩
  have hp : (w.party p).table.WellFormed ∧ (w.party p).table.Indexed := by
    refine hrp.invariant (P := fun m => m.table.WellFormed ∧ m.table.Indexed)
      ⟨h₀.wellFormed, h₀.indexed (hs.distinct p)⟩ fun {m e m' o} hm he => ?_
    rcases Machine.step_table he with ⟨_, ht, _⟩ | ⟨te, _, ht, _⟩
    · rwa [ht]
    · exact ⟨hm.1.step ht, hm.2.step hm.1 ht⟩
  exact hp.2

theorem pool_of_reported (hs : Started iface info w₀) (hr : Run overlay.move w₀ h w) {mv : Move ι Event Int}
    {e : Event} {s : UInt32} {v : UInt16} (hturn : overlay.turn w mv = some (a, e))
    (hrep : e.reported (iface p 0).ip s = some v) : ∃ k now frame records, mv = .deliver a k now ∧
      w.pool[k]? = some (p, frame) ∧ isValidPacket frame = some true ∧
      decodeRecords (frame.drop 42) = some records ∧ lastRtt s records = some v := by
  rcases Parties.turn_cases hturn with ⟨_, hown⟩ | ⟨k, now, q, frame, hmv, hk, rfl⟩
  · rw [reported_of_advertiser_none (Option.isNone_iff_eq_none.mp hown)] at hrep
    cases hrep
  · obtain ⟨_, _, he, hu, hp⟩ := exists_frame_of_reported hrep
    obtain ⟨rfl, rfl⟩ := Event.frame.inj he
    obtain ⟨_, _, _, _, _, _, _, hsrc, _, _⟩ := pool_frame hs hr (List.mem_of_getElem? hk)
    change (Event.frame frame now).reported (iface p 0).ip s = some v at hrep
    rw [reported_frame hu hp, Option.ite_none_right_eq_some, hsrc] at hrep
    obtain ⟨haddr, hrep⟩ := hrep
    obtain rfl := hs.address_inj q p haddr
    obtain ⟨records, hd, hl⟩ := Option.bind_eq_some_iff.mp hrep
    exact ⟨k, now, frame, records, hmv, hk, (isValidPacket_iff frame).mpr (Or.inl hu), hd, hl⟩

theorem reported_of_processes (hs : Started iface info w₀)
    {x : Taken (World ι Machine Bytes) (Move ι Event Int) (List Sent)} (hr : Run overlay.move w₀ h x.before)
    (hx : Processes a p frame x) {s : UInt32} {v : UInt16} (hl : Lists frame s v) :
    ∃ e, overlay.turn x.before x.event = some (a, e) ∧ e.reported (iface p 0).ip s ≠ none := by
  obtain ⟨k, now, hev, hk, hv⟩ := hx
  obtain ⟨records, hd, record, hm, hrs, _⟩ := hl
  obtain ⟨_, _, _, _, _, _, _, hsrc, hport, hproto⟩ := pool_frame hs hr (List.mem_of_getElem? hk)
  refine ⟨.frame frame now, ?_, ?_⟩
  · rw [hev, Parties.turn, hk]
    rfl
  · rw [reported_frame (validUdp_of_accepted hv hproto) hport, if_pos hsrc, hd]
    exact lastRtt_ne_none hm hrs

/-- If the next hop of a learned route is a peer, the route comes from the last advertisement
of this peer for the server that the node has processed since its last reset, and its
time is the one the peer had measured by its own requests when it sent that advertisement. -/
theorem learned_from_last_advertisement (hs : Started iface info w₀) (hr : Run overlay.move w₀ h w) {i : Nat}
    (hi : i < (w.party a).table.known)
    (hhop : ((w.party a).table.serverInfoes i).learningTable.ipNextHopRtt.uint = (iface p 0).ip) :
    let s := ((w.party a).table.serverInfoes i).ip.uint
    let rttTime := ((w.party a).table.serverInfoes i).learningTable.rttTime
    ∃ h₁ x h₂ frame, h = h₁ ++ x :: h₂ ∧ Processes a p frame x ∧ (∀ v, Lists frame s v ↔ v = rttTime) ∧
      (∀ y ∈ h₂, y.event ≠ .own a .advertise ∧ ∀ frame v, Processes a p frame y → ¬ Lists frame s v) ∧
      ∃ g₁ y g₂ j, h₁ = g₁ ++ y :: g₂ ∧ y.event = .own p .advertise ∧ y.output = [⟨0, frame⟩] ∧
        j < (y.before.party p).table.configured ∧ ((y.before.party p).table.serverInfoes j).ip.uint = s ∧
        ((y.before.party p).table.serverInfoes j).rttTime = rttTime ∧
        (Probe.observeAll s j (overlay.history p g₁)).rttTime = rttTime := by
  intro s rttTime
  have hra := Parties.run_party hr a
  obtain ⟨k₁, y, k₂, hk, hrep, hrest⟩ := run_reported (hs.node a) hra ((run_tables hs hr a).1 i hi) hhop
    (hs.address_ne_gateway p a) (hs.address_ne_zero p)
  obtain ⟨h₁, x, h₂, rfl, _, rfl, hturn, _, _⟩ := Parties.history_split hk
  obtain ⟨_, hr₁, _, _⟩ := hr.split_at
  obtain ⟨k, now, frame, records, hev, hpool, hv, hd, hlast⟩ := pool_of_reported hs hr₁ hturn hrep
  obtain ⟨g₁, z, g₂, rfl, hzev, hzout, hdata, _⟩ := pool_frame hs hr₁ (List.mem_of_getElem? hpool)
  obtain ⟨record, hm, hrs, hrv⟩ := exists_record_of_lastRtt hlast
  obtain ⟨j, hj, hjs, hjv⟩ := ServerTable.exists_row_of_record hdata hd hm
  obtain ⟨_, hrz, _, _⟩ := hr₁.split_at
  have hprobe := congrArg Probe.rttTime (run_probe (hs.node p) (Parties.run_party hrz p) hj)
  rw [hjs, hrs] at hprobe
  refine ⟨_, x, h₂, frame, rfl, ⟨k, now, hev, hpool, hv⟩, fun v => ⟨?_, ?_⟩, fun z' hz' => ⟨?_, ?_⟩,
    g₁, z, g₂, j, rfl, hzev, hzout, hj, hjs.trans hrs, hjv.trans hrv, ?_⟩
  · -- two records for the server come from one row
    rintro ⟨records', hd', record', hm', hrs', rfl⟩
    obtain rfl := Option.some.inj (hd.symm.trans hd')
    obtain ⟨j', hj', hjs', hjv'⟩ := ServerTable.exists_row_of_record hdata hd hm'
    obtain rfl := (run_tables hs hrz p).2 j hj j' hj' (by rw [hjs, hjs', hrs, hrs'])
    rw [← hjv', hjv, hrv]
    rfl
  · rintro rfl
    exact ⟨records, hd, record, hm, hrs, hrv⟩
  · intro he
    have ht : overlay.turn z'.before z'.event = some (a, .advertise) := by
      rw [he]
      rfl
    exact (hrest _ (Parties.mem_history hz' ht)).1 rfl
  · intro frame' v' hp' hl'
    obtain ⟨l₁, l₂, rfl⟩ := List.append_of_mem hz'
    rw [← List.cons_append, ← List.append_assoc] at hr
    obtain ⟨_, hr', _, _⟩ := hr.split_at
    obtain ⟨e, ht, hne⟩ := reported_of_processes hs hr' hp' hl'
    exact hne (hrest _ (Parties.mem_history hz' ht)).2
  · exact hprobe.symm.trans (hjv.trans hrv)

end Network

def twoIface (p : Bool) (i : Fin 2) : Interface :=
  if p then (if i = 0 then ⟨0xC0A80002, ⟨2, 0, 0, 0, 1, 2⟩⟩ else ⟨0x0A000003, ⟨2, 0, 0, 0, 1, 3⟩⟩)
  else sampleIface i

theorem learned_from_last_advertisement_of_peer : ∃ w₀ h w,
    Started twoIface (fun _ => sampleInfo) w₀ ∧ Run overlay.move w₀ h w ∧
    ∃ x ∈ h, ∃ frame, Processes false true frame x ∧ Lists frame 0x08080808 10 := by
  have hrun : ((Machine.initializeMachine (twoIface false) sampleInfo).bind fun m₀ =>
      (Machine.initializeMachine (twoIface true) sampleInfo).bind fun m₁ =>
        (exec overlay.move ⟨fun p => if p then m₁ else m₀, []⟩
          [.own true (.ping fun _ => 0), .own true (sampleEcho 0x08080808 0 10000000), .own true .advertise,
            .deliver false 0 0]).map fun r => decide
        (m₀.table.Distinct ∧ m₁.table.Distinct ∧ m₀.table.ipGateway.uint = 0x0A000001 ∧
          m₁.table.ipGateway.uint = 0x0A000001 ∧ 0 < (r.1.party false).table.known ∧
          ((r.1.party false).table.serverInfoes 0).learningTable.ipNextHopRtt.uint = (twoIface true 0).ip ∧
          ((r.1.party false).table.serverInfoes 0).ip.uint = 0x08080808 ∧
          ((r.1.party false).table.serverInfoes 0).learningTable.rttTime = 10)) = some true := by
    decide +kernel
  obtain ⟨m₀, hi₀, hrun⟩ := Option.bind_eq_some_iff.mp hrun
  obtain ⟨m₁, hi₁, hrun⟩ := Option.bind_eq_some_iff.mp hrun
  obtain ⟨⟨w, h⟩, he, hp⟩ := Option.map_eq_some_iff.mp hrun
  obtain ⟨hd₀, hd₁, hg₀, hg₁, hk, hhop, hip, hrtt⟩ := of_decide_eq_true hp
  have hs : Started twoIface (fun _ => sampleInfo) ⟨fun p => if p then m₁ else m₀, []⟩ := by
    refine ⟨fun p => ?_, rfl, fun p q hpq => ?_, fun p => ?_, fun p q => ?_, fun p => ?_⟩
    · cases p
      · exact hi₀
      · exact hi₁
    · revert hpq
      revert p q
      decide
    · revert p
      decide
    · cases q
      · show (twoIface p 0).ip ≠ m₀.table.ipGateway.uint
        rw [hg₀]
        revert p
        decide
      · show (twoIface p 0).ip ≠ m₁.table.ipGateway.uint
        rw [hg₁]
        revert p
        decide
    · cases p
      · exact hd₀
      · exact hd₁
  obtain ⟨h₁, x, h₂, frame, hh, hx, hl, _⟩ :=
    learned_from_last_advertisement hs (run_of_exec he) hk hhop
  refine ⟨_, h, w, hs, run_of_exec he, x, by rw [hh]; simp, frame, hx, ?_⟩
  rw [hip, hrtt] at hl
  exact (hl 10).mpr rfl

end Overlay
