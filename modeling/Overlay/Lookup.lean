import Overlay.TableSteps

/-! Three ways to find the row of a destination: by its text, by `ip_to_id`, and by its
address. The map is filled at start-up only, so it does not know the rows a peer's
advertisement has added. -/

namespace Overlay

open ByteMemory Execution

namespace ServerTable

variable {t u : ServerTable}

/-- The text of every known row reads as its address. -/
def Named (t : ServerTable) : Prop :=
  ∀ i < t.known, ipIntoUint (t.serverInfoes i).ip.str = (t.serverInfoes i).ip.uint

theorem Named.of_extends (h : t.Named) (he : t.Extends u) {i : Nat} (hi : i < t.known) :
    ipIntoUint (u.serverInfoes i).ip.str = (u.serverInfoes i).ip.uint := by
  rw [he.ip_eq i hi]
  exact h i hi

theorem Initial.named (h : t.Initial) : t.Named := by
  intro i hi
  obtain ⟨serverId, hr⟩ := h.configured_row i (by rwa [configured, ← h.counts])
  rw [hr]
  rfl

theorem Named.updateLearningTable {serverInfo : ServerInformation} {ip : IpInfo} (h : t.Named)
    (hs : ipIntoUint serverInfo.ip.str = serverInfo.ip.uint)
    (he : t.updateLearningTable serverInfo ip = some u) : u.Named := by
  intro i hi
  have hx := extends_updateLearningTable he
  by_cases hk : i < t.known
  · exact h.of_extends hx hk
  · rcases updateLearningTable_cases he with ⟨id, _, rfl⟩ | ⟨_, h₀, _, rfl⟩
    · exact absurd hi hk
    · have hki : (t.inserted serverInfo).known = t.known + 1 := known_inserted h₀
      have hi' : i < (t.inserted serverInfo).known := hi
      obtain rfl : i = t.known := by omega
      rw [learnAt_serverInfoes_self]
      simpa only [inserted, setRow_serverInfoes, Function.update_self] using hs

theorem Named.of_known_eq (h : t.Named) (he : t.Extends u) (hk : u.known = t.known) : u.Named := by
  intro i hi
  exact h.of_extends he (hk ▸ hi)

theorem Named.step {te : TableEvent} (h : t.Named) (hw : t.WellFormed) (he : t.step te = some u) :
    u.Named := by
  have hx := extends_step he
  cases te with
  | ping clock =>
    obtain rfl := Option.some.inj he
    exact h.of_known_eq hx rfl
  | advertise =>
    obtain ⟨_, _, rfl⟩ := Option.map_eq_some_iff.mp he
    exact h.of_known_eq hx rfl
  | echo ip now sequenceId =>
    have hp : u.Named ∧ t.Extends u := by
      refine receivePingPacket_induction (P := fun v => v.Named ∧ t.Extends v) he ⟨h, .refl t⟩
        fun {i v w} hi hv _ hu => ?_
      have hk : i < v.known := (hi.trans_le hw.configured_le_known).trans_le hv.2.known
      have hset := extends_pingReceivedAt v i now
      refine ⟨(hv.1.of_known_eq hset rfl).updateLearningTable ?_ hu, ?_⟩
      · rw [pingReceivedAt_ip]
        exact hv.1 i hk
      · exact (hv.2.trans hset).trans (extends_updateLearningTable hu)
    exact hp.1
  | advertisement advertiseData ipSrc =>
    refine receiveAdvertiseData_induction (P := Named) he h fun hd hr hv hu => hv.updateLearningTable ?_ hu
    rw [decodeRecords_eq hd] at hr
    obtain ⟨k, _, rfl⟩ := List.mem_map.mp hr
    exact ipIntoUint_ipUintIntoStr _

theorem isServerValid_iff {serverIp : Str} :
    t.isServerValid serverIp = true ↔ ∃ i < t.known, (t.serverInfoes i).ip.str = serverIp := by
  simp [isServerValid]

theorem Extends.ipToId_startRow (h : t.Extends u) (hc : t.configured ≤ t.known)
    (hm : ∀ uint, t.ipToId uint = t.startRow uint) (uint : UInt32) : u.ipToId uint = u.startRow uint := by
  rw [h.ipToId_eq, hm, startRow, startRow, h.configured]
  refine (lastRow_congr fun i hi => ?_).symm
  rw [h.ip_eq i (hi.trans_le hc)]

end ServerTable

section Runs

variable {iface : Fin 2 → Interface} {info : Str} {m₀ m : Machine}
  {h : List (Taken Machine Event (List Sent))}

theorem run_named (hi : Machine.initializeMachine iface info = some m₀) (hr : Run Machine.step m₀ h m) :
    m.table.Named := by
  have h₀ := (Machine.run_table hi .start).1
  have hp : m.table.WellFormed ∧ m.table.Named := by
    refine hr.invariant (P := fun m => m.table.WellFormed ∧ m.table.Named) ⟨h₀.wellFormed, h₀.named⟩
      fun {m e m' o} hm he => ?_
    rcases Machine.step_table he with ⟨_, hs, _⟩ | ⟨te, _, hs, _⟩
    · rwa [hs]
    · exact ⟨hm.1.step hs, hm.2.step hm.1 hs⟩
  exact hp.2

theorem run_ipToId (hi : Machine.initializeMachine iface info = some m₀) (hr : Run Machine.step m₀ h m)
    (uint : UInt32) : m.table.ipToId uint = m.table.startRow uint := by
  obtain ⟨h₀, hx, _⟩ := Machine.run_table hi hr
  obtain ⟨t, ht, rfl⟩ := Option.map_eq_some_iff.mp hi
  exact hx.ipToId_startRow h₀.wellFormed.configured_le_known
    (ServerTable.initial_of_initializeTable ht).2 uint

theorem run_ipToId_lt (hi : Machine.initializeMachine iface info = some m₀) (hr : Run Machine.step m₀ h m)
    (hk : 0 < m.table.known) (uint : UInt32) : m.table.ipToId uint < m.table.known := by
  have hle := (Machine.run_table hi hr).2.2.configured_le_known
  rw [run_ipToId hi hr, ServerTable.startRow]
  rcases Nat.eq_zero_or_pos m.table.configured with hc | hc
  · rwa [hc]
  · exact (ServerTable.lastRow_lt hc).trans_le hle

end Runs

end Overlay
