import Overlay.TableSteps
import Overlay.Learning

/-! The node's own path in the learned entry of a configured row. While the gateway is
the next hop, the learned metrics should be the measured ones. The check that declares a
server down changes the measured delay and not the learned one. -/

namespace Overlay

open ByteMemory Execution

namespace ServerInformation

structure OwnPath (row : ServerInformation) (ipGateway : IpInfo) : Prop where
  rtt : row.learningTable.ipNextHopRtt.uint = ipGateway.uint → row.learningTable.rttTime = row.rttTime
  lost : row.learningTable.ipNextHopLost.uint = ipGateway.uint → row.learningTable.lostRate = row.pingLostRate

def GoesDown (row : ServerInformation) (ipGateway : IpInfo) : Prop :=
  row.isReceivedLastPing = false ∧ row.pingLostNumbers = 2 ∧ row.rttTime ≠ 65535 ∧
    row.learningTable.ipNextHopRtt.uint = ipGateway.uint

variable {row serverInfo : ServerInformation} {ipGateway ip : IpInfo}

instance : Decidable (row.GoesDown ipGateway) := inferInstanceAs (Decidable (_ ∧ _))

theorem OwnPath.ping_iff (h : row.OwnPath ipGateway) (now : Int) :
    (row.checkAlive.updateServerInformation ipGateway now).OwnPath ipGateway ↔ ¬ row.GoesDown ipGateway := by
  rw [updateServerInformation_eq, checkAlive_eq]
  constructor
  · rintro hp ⟨h₁, h₂, h₃, h₄⟩
    have he := hp.rtt h₄
    simp only [h₁, h₂, and_self, if_true] at he
    exact h₃ ((h.rtt h₄).symm.trans he)
  · intro hd
    refine ⟨fun hg => ?_, fun hg => if_pos hg⟩
    show row.learningTable.rttTime =
      if row.isReceivedLastPing = false ∧ row.pingLostNumbers = 2 then 65535 else row.rttTime
    by_cases hc : row.isReceivedLastPing = false ∧ row.pingLostNumbers = 2
    · rw [if_pos hc, h.rtt hg]
      by_contra hne
      exact hd ⟨hc.1, hc.2, hne, hg⟩
    · rw [if_neg hc]
      exact h.rtt hg

theorem ownPath_learn_self : { row with learningTable := row.learningTable.learn row ip }.OwnPath ip := by
  rw [RoutingInfo.learn_eq]
  constructor
  · intro hg
    by_cases ht : row.learningTable.TakesRtt row ip
    · simp only [if_pos ht]
    · simp only [if_neg ht] at hg
      exact absurd (Or.inl hg.symm) ht
  · intro hg
    by_cases ht : row.learningTable.TakesLost row ip
    · simp only [if_pos ht]
    · simp only [if_neg ht] at hg
      exact absurd (Or.inl hg.symm) ht

/-- A report of another hop either leaves a metric alone or moves it off the gateway. -/
theorem OwnPath.learn (h : row.OwnPath ipGateway) (hne : ip.uint ≠ ipGateway.uint) :
    { row with learningTable := row.learningTable.learn serverInfo ip }.OwnPath ipGateway := by
  rw [RoutingInfo.learn_eq]
  constructor
  · intro hg
    by_cases ht : row.learningTable.TakesRtt serverInfo ip
    · simp only [if_pos ht] at hg
      exact absurd hg hne
    · simp only [if_neg ht] at hg ⊢
      exact h.rtt hg
  · intro hg
    by_cases ht : row.learningTable.TakesLost serverInfo ip
    · simp only [if_pos ht] at hg
      exact absurd hg hne
    · simp only [if_neg ht] at hg ⊢
      exact h.lost hg

end ServerInformation

namespace ServerTable

variable {t u : ServerTable} {i : Nat}

def OwnPaths (t : ServerTable) : Prop := ∀ i < t.configured, (t.serverInfoes i).OwnPath t.ipGateway

/-- No row goes down while it learns from the gateway, and an echo reply is taken only by
the first row of its address. -/
def KeepsOwnPaths (t : ServerTable) : Option TableEvent → Prop
  | some (.ping _) => ∀ i < t.configured, ¬ (t.serverInfoes i).GoesDown t.ipGateway
  | some (.echo ip _ sequenceId) => ∀ i < t.configured, t.Accepts i ip sequenceId → t.getIndexByIp ip = some i
  | _ => True

instance (t : ServerTable) : (te : Option TableEvent) → Decidable (t.KeepsOwnPaths te)
  | some (.ping _) => inferInstanceAs (Decidable (∀ i < t.configured, _))
  | some (.echo _ _ _) => inferInstanceAs (Decidable (∀ i < t.configured, _ → _))
  | some .advertise => .isTrue trivial
  | some (.advertisement _ _) => .isTrue trivial
  | none => .isTrue trivial

theorem Initial.ownPaths (h : t.Initial) : t.OwnPaths := by
  intro i hi
  obtain ⟨serverId, hr⟩ := h.configured_row i hi
  rw [hr]
  exact ⟨fun _ => rfl, fun _ => rfl⟩

theorem OwnPaths.ping_iff (h : t.OwnPaths) (clock : Nat → Int) :
    (t.ping clock).OwnPaths ↔ t.KeepsOwnPaths (some (.ping clock)) := by
  refine forall₂_congr fun i hi => ?_
  have hi' : i < t.configured := hi
  rw [ping_row hi']
  exact (h i hi').ping_iff (clock i)

theorem ownPaths_reset (t : ServerTable) (hc : t.configured ≤ t.known) : t.resetLearningTable.OwnPaths := by
  intro i hi
  have hi' : i < t.configured := hi
  rw [resetLearningTable_row (hi'.trans_le hc)]
  exact ⟨fun _ => rfl, fun _ => rfl⟩

theorem OwnPaths.updateLearningTable {serverInfo : ServerInformation} {ip : IpInfo} (h : t.OwnPaths)
    (hw : t.WellFormed) (hne : ip.uint ≠ t.ipGateway.uint)
    (he : t.updateLearningTable serverInfo ip = some u) : u.OwnPaths := by
  have hc := hw.configured_le_known
  intro i hi
  rcases updateLearningTable_cases he with ⟨id, _, rfl⟩ | ⟨_, _, _, rfl⟩
  · have hi' : i < t.configured := hi
    by_cases hid : i = id
    · subst hid
      rw [learnAt_serverInfoes_self]
      exact (h i hi').learn hne
    · rw [learnAt_serverInfoes_of_ne hid]
      exact h i hi'
  · have hi' : i < t.configured := hi
    rw [learnAt_serverInfoes_of_ne (by omega), inserted_serverInfoes_of_ne (by omega)]
    exact h i hi'

theorem OwnPaths.accept (h : t.OwnPaths) {now : Int} {ip : UInt32} {sequenceId : UInt16}
    (ha : t.Accepts i ip sequenceId) (hfirst : t.getIndexByIp ip = some i)
    (he : (t.setRow i ((t.serverInfoes i).pingReceivedAt now)).updateLearningTable
      ((t.serverInfoes i).pingReceivedAt now) t.ipGateway = some u) :
    u.OwnPaths ∧ ∀ j, (u.serverInfoes j).sequenceId = (t.serverInfoes j).sequenceId := by
  set row := (t.serverInfoes i).pingReceivedAt now with hrow
  have hget : (t.setRow i row).getIndexByIp row.ip.uint = some i := by
    rw [hrow, pingReceivedAt_ip, ha.1]
    exact (extends_pingReceivedAt t i now).getIndexByIp hfirst
  rw [updateLearningTable_of_found hget] at he
  obtain rfl := Option.some.inj he
  have hself : (t.setRow i row).serverInfoes i = row := Function.update_self ..
  have hother {j : Nat} (hj : j ≠ i) : (t.setRow i row).serverInfoes j = t.serverInfoes j :=
    Function.update_of_ne hj ..
  have hseq : row.sequenceId = (t.serverInfoes i).sequenceId := by
    rw [hrow, ServerInformation.pingReceivedAt_eq]
  refine ⟨fun j hj => ?_, fun j => ?_⟩
  · by_cases hij : j = i
    · subst hij
      rw [learnAt_serverInfoes_self, hself]
      exact ServerInformation.ownPath_learn_self
    · rw [learnAt_serverInfoes_of_ne hij, hother hij]
      exact h j hj
  · by_cases hij : j = i
    · subst hij
      rw [learnAt_serverInfoes_self, hself, hseq]
    · rw [learnAt_serverInfoes_of_ne hij, hother hij]

theorem OwnPaths.echo (h : t.OwnPaths) (hw : t.WellFormed) {now : Int} {ip : UInt32} {sequenceId : UInt16}
    (hk : t.KeepsOwnPaths (some (.echo ip now sequenceId)))
    (he : t.receivePingPacket ip now sequenceId = some u) : u.OwnPaths := by
  have hp : u.OwnPaths ∧ t.Extends u ∧ ∀ j, (u.serverInfoes j).sequenceId = (t.serverInfoes j).sequenceId := by
    refine receivePingPacket_induction (P := fun v => v.OwnPaths ∧ t.Extends v ∧
      ∀ j, (v.serverInfoes j).sequenceId = (t.serverInfoes j).sequenceId) he
      ⟨h, .refl t, fun _ => rfl⟩ fun {i v w} hi hv ha hu => ?_
    obtain ⟨hpaths, hx, hseq⟩ := hv
    have ha' : t.Accepts i ip sequenceId := by
      refine ⟨?_, by rw [← hseq]; exact ha.2⟩
      rw [← hx.ip_eq i (hi.trans_le hw.configured_le_known)]
      exact ha.1
    obtain ⟨hpaths', hseq'⟩ := hpaths.accept ha (hx.getIndexByIp (hk i hi ha')) hu
    exact ⟨hpaths', (hx.trans (extends_pingReceivedAt v i now)).trans (extends_updateLearningTable hu),
      fun j => (hseq' j).trans (hseq j)⟩
  exact hp.1

theorem OwnPaths.advertisement (h : t.OwnPaths) (hw : t.WellFormed) {advertiseData : Bytes} {ipSrc : UInt32}
    (hne : ipSrc ≠ t.ipGateway.uint) (he : t.receiveAdvertiseData advertiseData ipSrc = some u) : u.OwnPaths := by
  have hp : u.OwnPaths ∧ u.WellFormed ∧ u.ipGateway = t.ipGateway := by
    refine receiveAdvertiseData_induction (P := fun v => v.OwnPaths ∧ v.WellFormed ∧ v.ipGateway = t.ipGateway) he
      ⟨h, hw, rfl⟩ fun _ _ hv hu => ?_
    obtain ⟨h₁, h₂, h₃⟩ := hv
    exact ⟨h₁.updateLearningTable h₂ (by rwa [h₃]) hu, h₂.updateLearningTable hu,
      (extends_updateLearningTable hu).ipGateway_eq.trans h₃⟩
  exact hp.1

theorem OwnPaths.step {te : TableEvent} (h : t.OwnPaths) (hw : t.WellFormed)
    (hpeer : ∀ advertiseData ipSrc, te = .advertisement advertiseData ipSrc → ipSrc ≠ t.ipGateway.uint)
    (hk : t.KeepsOwnPaths (some te)) (he : t.step te = some u) : u.OwnPaths := by
  cases te with
  | ping clock => exact Option.some.inj he ▸ (h.ping_iff clock).mpr hk
  | advertise =>
    obtain ⟨_, _, rfl⟩ := Option.map_eq_some_iff.mp he
    exact t.fillForwardingTable.ownPaths_reset hw.configured_le_known
  | echo ip now sequenceId => exact h.echo hw hk he
  | advertisement advertiseData ipSrc => exact h.advertisement hw (hpeer _ _ rfl) he

theorem OwnPaths.keeps {te : TableEvent} (h : t.OwnPaths) (hw : t.WellFormed)
    (hd : ∀ i < t.configured, ∀ j < t.configured,
      (t.serverInfoes i).ip.uint = (t.serverInfoes j).ip.uint → i = j)
    (he : t.step te = some u) (hu : u.OwnPaths) : t.KeepsOwnPaths (some te) := by
  cases te with
  | ping clock => exact (h.ping_iff clock).mp (Option.some.inj he ▸ hu)
  | advertise => trivial
  | echo ip now sequenceId =>
    intro i hi ha
    refine getIndexByIp_eq_some.mpr ⟨hi.trans_le hw.configured_le_known, ha.1, fun j hj hu => ?_⟩
    have hij := hd j (hj.trans hi) i hi (hu.trans ha.1.symm)
    omega
  | advertisement advertiseData ipSrc => trivial

end ServerTable

/-- In a run without the two kinds of step that `KeepsOwnPaths` excludes, every state has
the measured values on its own paths; for distinct configured addresses only in such a run. -/
theorem own_path_kept {iface : Fin 2 → Interface} {info : Str} {m₀ m : Machine}
    {h : List (Taken Machine Event (List Sent))} (hi : Machine.initializeMachine iface info = some m₀)
    (hr : Run Machine.step m₀ h m)
    (hpeers : ∀ x ∈ h, ∀ advertiseData ipSrc, x.event.onTable = some (.advertisement advertiseData ipSrc) →
      ipSrc ≠ m₀.table.ipGateway.uint) :
    ((∀ x ∈ h, x.before.table.KeepsOwnPaths x.event.onTable) → Visits h m fun m => m.table.OwnPaths) ∧
    ((∀ i < m₀.table.configured, ∀ j < m₀.table.configured,
        (m₀.table.serverInfoes i).ip.uint = (m₀.table.serverInfoes j).ip.uint → i = j) →
      (Visits h m fun m => m.table.OwnPaths) → ∀ x ∈ h, x.before.table.KeepsOwnPaths x.event.onTable) := by
  have hinit := (Machine.run_table hi hr).1
  have hstep {k : List (Taken Machine Event (List Sent))} {u v : Machine} {e : Event} {o : List Sent}
      (hk : Run Machine.step m₀ k u) (hm : ⟨u, e, o⟩ ∈ h) (hp : u.table.OwnPaths)
      (he : u.step e = some (v, o)) (hc : u.table.KeepsOwnPaths e.onTable) : v.table.OwnPaths := by
    obtain ⟨_, hx, hw⟩ := Machine.run_table hi hk
    rcases Machine.step_table he with ⟨_, hs, _⟩ | ⟨te, hte, hs, _⟩
    · rwa [hs]
    · refine hp.step hw (fun advertiseData ipSrc hte' => ?_) (hte ▸ hc) hs
      rw [hx.ipGateway_eq]
      exact hpeers _ hm advertiseData ipSrc (hte.trans (congrArg some hte'))
  refine ⟨fun hc => hr.visits hinit.ownPaths hc hstep, fun hd hv => ?_⟩
  refine (hr.visits_iff hinit.ownPaths id fun {k u e v o} hk hm hp he =>
    ⟨hstep hk hm hp he, fun hv => ?_⟩).mpr hv
  obtain ⟨_, hx, hw⟩ := Machine.run_table hi hk
  show u.table.KeepsOwnPaths e.onTable
  rcases Machine.step_table he with ⟨hn, _⟩ | ⟨te, hte, hs, _⟩
  · rw [hn]
    trivial
  · rw [hte]
    refine hp.keeps hw (fun i hi j hj hu => ?_) hs hv
    rw [hx.configured] at hi hj
    have hc := hinit.wellFormed.configured_le_known
    rw [hx.ip_eq i (hi.trans_le hc), hx.ip_eq j (hj.trans_le hc)] at hu
    exact hd i hi j hj hu

def TableEvent.sender : TableEvent → Option UInt32
  | .advertisement _ ipSrc => some ipSrc
  | _ => none

/-- The server is measured, a peer reports a longer way and then a shorter one, and the
route through the peer is put into the forwarding table. -/
theorem own_path_kept_while_up : ∃ m₀ h m, Machine.initializeMachine sampleIface sampleInfo = some m₀ ∧
    Run Machine.step m₀ h m ∧ (m.table.serverInfoes 0).forwardingTable.ipNextHopRtt.uint = 0xC0A80002 ∧
    (m.table.serverInfoes 0).learningTable.ipNextHopRtt.uint = m.table.ipGateway.uint ∧
    (m.table.serverInfoes 0).learningTable.rttTime = 15 ∧ Visits h m fun m => m.table.OwnPaths := by
  obtain ⟨m₀, h, m, hi, hr, hg, hforwarding, hhop, hrtt, hk, hsenders⟩ := Machine.reaches sampleIface sampleInfo
    [.ping fun _ => 0, sampleEcho 0x08080808 0 10000000,
      sampleAdvertisement 0xC0A80002 [sampleRow 0x08080808 20 4 3], .ping fun _ => 0,
      sampleAdvertisement 0xC0A80002 [sampleRow 0x08080808 5 4 4, sampleRow 0x09090909 7 2 1], .advertise,
      sampleEcho 0x08080808 1 20000000]
    (fun m h => m.table.ipGateway.uint = 0x0A000001 ∧
      (m.table.serverInfoes 0).forwardingTable.ipNextHopRtt.uint = 0xC0A80002 ∧
      (m.table.serverInfoes 0).learningTable.ipNextHopRtt.uint = m.table.ipGateway.uint ∧
      (m.table.serverInfoes 0).learningTable.rttTime = 15 ∧
      (∀ x ∈ h, x.before.table.KeepsOwnPaths x.event.onTable) ∧
      ∀ x ∈ h, x.event.onTable.bind TableEvent.sender ≠ some 0x0A000001) (by decide +kernel)
  refine ⟨m₀, h, m, hi, hr, hforwarding, hhop, hrtt, (own_path_kept hi hr fun x hx data ipSrc he hsrc => ?_).1 hk⟩
  refine hsenders x hx ?_
  rw [he, Option.bind_some, TableEvent.sender, hsrc, ← hg, (Machine.run_table hi hr).2.1.ipGateway_eq]

/-- One reply after ten milliseconds, then three requests without one: the fourth check
declares the server down, and the path through the gateway still counts ten. -/
theorem own_path_lost_on_down : ∃ m₀ h m, Machine.initializeMachine sampleIface sampleInfo = some m₀ ∧
    Run Machine.step m₀ h m ∧ 0 < m.table.configured ∧
    (m.table.serverInfoes 0).learningTable.ipNextHopRtt.uint = m.table.ipGateway.uint ∧
    (m.table.serverInfoes 0).rttTime = 65535 ∧ (m.table.serverInfoes 0).learningTable.rttTime = 10 :=
  Machine.reaches sampleIface sampleInfo
    [.ping fun _ => 0, sampleEcho 0x08080808 0 10000000, .ping fun _ => 0, .ping fun _ => 0,
      .ping fun _ => 0, .ping fun _ => 0] _ (by decide +kernel)

end Overlay
