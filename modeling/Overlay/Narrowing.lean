import Overlay.Advertise
import Overlay.Learning

/-! The RTT of a record has 32 bits, the entry it is compared with and stored in has 16.
The narrowing comes first, so a slow path can look like a fast one. -/

namespace Overlay

open ByteMemory Execution

/-- The RTT field of the record at `i`, as sent. -/
def rttField (advertiseData : Bytes) (i : Nat) : UInt32 := swap32 (word32 advertiseData (i + 4))

theorem recordAt_rttTime (advertiseData : Bytes) (i : Nat) :
    (recordAt advertiseData i).rttTime.toNat = (rttField advertiseData i).toNat % 65536 :=
  UInt32.toNat_toUInt16 _

/-- A report from a hop does not make its path look faster than it is: it replaces the route
of another hop only if it is better, and what it stores is no smaller. -/
structure NeverFaster (reported hop : UInt32) (before after : RoutingInfo) : Prop where
  replaced : hop ≠ before.ipNextHopRtt.uint → after.ipNextHopRtt.uint = hop →
    reported.toNat < before.rttTime.toNat
  stored : after.ipNextHopRtt.uint = hop → reported.toNat ≤ after.rttTime.toNat ∨ after.rttTime = 65535

namespace RoutingInfo

variable {r : RoutingInfo} {serverInfo : ServerInformation} {ip : IpInfo} {reported : UInt32}

theorem learn_rtt_of_taken (h : r.TakesRtt serverInfo ip) :
    (r.learn serverInfo ip).ipNextHopRtt = ip ∧ (r.learn serverInfo ip).rttTime = serverInfo.rttTime := by
  rw [learn_eq]
  exact ⟨if_pos h, if_pos h⟩

theorem learn_hop_of_not_taken (h : ¬ r.TakesRtt serverInfo ip) :
    (r.learn serverInfo ip).ipNextHopRtt.uint ≠ ip.uint := by
  rw [learn_eq]
  simp only [if_neg h]
  exact fun he => h (Or.inl he.symm)

theorem neverFaster_of_not_taken (h : ¬ r.TakesRtt serverInfo ip) :
    NeverFaster reported ip.uint r (r.learn serverInfo ip) :=
  ⟨fun _ he => absurd he (learn_hop_of_not_taken h), fun he => absurd he (learn_hop_of_not_taken h)⟩

theorem neverFaster_of_taken (h : r.TakesRtt serverInfo ip) :
    NeverFaster reported ip.uint r (r.learn serverInfo ip) ↔
      (ip.uint ≠ r.ipNextHopRtt.uint → reported.toNat < r.rttTime.toNat) ∧
      (reported.toNat ≤ serverInfo.rttTime.toNat ∨ serverInfo.rttTime.toNat = 65535) := by
  obtain ⟨hhop, hrtt⟩ := learn_rtt_of_taken h
  have hself : (r.learn serverInfo ip).ipNextHopRtt.uint = ip.uint := by rw [hhop]
  constructor
  · intro hn
    refine ⟨fun hne => hn.replaced hne hself, ?_⟩
    rw [← hrtt]
    exact (hn.stored hself).imp_right fun he => by rw [he]; rfl
  · rintro ⟨hbetter, hstored⟩
    refine ⟨fun hne _ => hbetter hne, fun _ => ?_⟩
    rw [hrtt]
    exact hstored.imp_right fun he => UInt16.toNat_inj.mp he

theorem learn_neverFaster_iff (hs : serverInfo.rttTime.toNat = reported.toNat % 65536) :
    NeverFaster reported ip.uint r (r.learn serverInfo ip) ↔
      reported.toNat < 65536 ∨ reported.toNat % 65536 = 65535 ∨
      ip.uint ≠ r.ipNextHopRtt.uint ∧ r.rttTime.toNat ≤ reported.toNat % 65536 := by
  have hr := r.rttTime.toNat_lt
  have hlow : reported.toNat % 65536 ≤ reported.toNat := Nat.mod_le _ _
  have hsmall : reported.toNat < 65536 → reported.toNat % 65536 = reported.toNat := Nat.mod_eq_of_lt
  by_cases h : r.TakesRtt serverInfo ip
  · rw [neverFaster_of_taken h, hs]
    rw [TakesRtt, UInt16.lt_iff_toNat_lt, hs] at h
    constructor
    · rintro ⟨_, hstored⟩
      omega
    · rintro (hlt | hinf | ⟨hne, hle⟩)
      · exact ⟨fun hne => by have := h.resolve_left hne; omega, Or.inl (by omega)⟩
      · exact ⟨fun hne => by have := h.resolve_left hne; omega, Or.inr hinf⟩
      · have := h.resolve_left hne
        omega
  · refine iff_of_true (neverFaster_of_not_taken h) ?_
    rw [TakesRtt, UInt16.lt_iff_toNat_lt, hs] at h
    push Not at h
    exact Or.inr (Or.inr ⟨h.1, h.2⟩)

end RoutingInfo

/-- A record does not make a path look faster if and only if its RTT fits into 16 bits, or
narrows to the value of a server that is down, or comes from another hop than the current
one and does not narrow to a smaller value than the current one. -/
theorem narrowed_rtt_iff {t u : ServerTable} {advertiseData : Bytes} {i id : Nat}
    {serverInfo : ServerInformation} {ip : IpInfo} (hd : decodeRecord advertiseData i = some serverInfo)
    (hu : t.updateLearningTable serverInfo ip = some u) (hg : u.getIndexByIp serverInfo.ip.uint = some id) :
    NeverFaster (rttField advertiseData i) ip.uint (t.learningStart id) (u.serverInfoes id).learningTable ↔
      (rttField advertiseData i).toNat < 65536 ∨ (rttField advertiseData i).toNat % 65536 = 65535 ∨
      ip.uint ≠ (t.learningStart id).ipNextHopRtt.uint ∧
        (t.learningStart id).rttTime.toNat ≤ (rttField advertiseData i).toNat % 65536 := by
  obtain ⟨_, rfl⟩ := decodeRecord_eq_some.mp hd
  obtain ⟨id', _, hg', hl, _⟩ := ServerTable.updateLearningTable_learning hu
  obtain rfl : id' = id := Option.some.inj (hg'.symm.trans hg)
  rw [hl]
  exact RoutingInfo.learn_neverFaster_iff (recordAt_rttTime advertiseData i)

/-- A record of 5 ms for a server whose current path takes 10 ms. -/
theorem narrowed_rtt_small : ∃ u : ServerTable,
    ServerTable.liveTable.resetLearningTable.updateLearningTable (sampleRow 0x08080808 5 1 1).received
      ⟨0xC0A80002, []⟩ = some u ∧
    NeverFaster 5 0xC0A80002 (ServerTable.liveTable.resetLearningTable.learningStart 0)
      (u.serverInfoes 0).learningTable := by
  have hrun : (ServerTable.liveTable.resetLearningTable.updateLearningTable (sampleRow 0x08080808 5 1 1).received
      ⟨0xC0A80002, []⟩).map (fun u => u.getIndexByIp 0x08080808) = some (some 0) := by
    decide +kernel
  obtain ⟨u, hu, hg⟩ := Option.map_eq_some_iff.mp hrun
  have hd : decodeRecord ((sampleRow 0x08080808 5 1 1).encode ++ []) 0 = some (sampleRow 0x08080808 5 1 1).received :=
    decodeRecord_eq_some.mpr ⟨Nat.le_refl 12, (recordAt_encode _ _).symm⟩
  have hfield : rttField ((sampleRow 0x08080808 5 1 1).encode ++ []) 0 = 5 := by decide +kernel
  have h := narrowed_rtt_iff hd hu hg
  rw [hfield] at h
  exact ⟨u, hu, h.mpr (Or.inl (by decide))⟩

/-- A record of 65539 ms. -/
def sampleSlow : Bytes :=
  (Machine.advertisePacket (fun _ => ⟨0xC0A80002, ⟨2, 0, 0, 0, 1, 2⟩⟩) 0xFFFFFFFF ⟨255, 255, 255, 255, 255, 255⟩
    (bytes32 (swap32 0x08080808) ++ bytes32 (swap32 65539) ++ bytes16 (swap16 1) ++ bytes16 (swap16 1) ++
      bytes32 0)).frame

theorem slow_path_looks_fast : ∃ m₀ h m, Machine.initializeMachine sampleIface sampleInfo = some m₀ ∧
    Run Machine.step m₀ h m ∧ h.map (·.event) = [.frame sampleSlow 0] ∧
    rttField (sampleSlow.drop 42) 0 = 65539 ∧ m.table.getIndexByIp (recordAt (sampleSlow.drop 42) 0).ip.uint = some 0 ∧
    ¬ NeverFaster 65539 (ipSrc sampleSlow) (m₀.table.learningStart 0) (m.table.serverInfoes 0).learningTable := by
  obtain ⟨m₀, h, m, hi, hr, he, hg, hhop, hrtt⟩ := Machine.reaches_by sampleIface sampleInfo [.frame sampleSlow 0]
    (fun m _ => m.table.getIndexByIp (recordAt (sampleSlow.drop 42) 0).ip.uint = some 0 ∧
      (m.table.serverInfoes 0).learningTable.ipNextHopRtt.uint = ipSrc sampleSlow ∧
      (m.table.serverInfoes 0).learningTable.rttTime = 3) (by decide +kernel)
  refine ⟨m₀, h, m, hi, hr, he, by decide +kernel, hg, fun hn => ?_⟩
  have hstored := hn.stored hhop
  rw [hrtt] at hstored
  exact absurd hstored (by decide)

end Overlay
