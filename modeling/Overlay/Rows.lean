import Overlay.TableSteps

/-! The fields of one row that a node measures itself. A reply changes those of the rows
that accept it; an advertisement and the commands about routes leave them alone. -/

namespace Overlay

open ByteMemory Execution

def ServerInformation.SameButRoutes (row row' : ServerInformation) : Prop :=
  ∃ forwardingTable learningTable, row' = { row with forwardingTable, learningTable }

namespace ServerInformation

variable {row row' row'' : ServerInformation}

theorem SameButRoutes.refl (row : ServerInformation) : row.SameButRoutes row := ⟨_, _, rfl⟩

theorem SameButRoutes.trans (h : row.SameButRoutes row') (h' : row'.SameButRoutes row'') :
    row.SameButRoutes row'' := by
  obtain ⟨_, _, rfl⟩ := h
  obtain ⟨_, _, rfl⟩ := h'
  exact ⟨_, _, rfl⟩

theorem SameButRoutes.pingReceivedAt (h : row.SameButRoutes row') (now : Int) :
    (row.pingReceivedAt now).SameButRoutes (row'.pingReceivedAt now) := by
  obtain ⟨_, _, rfl⟩ := h
  rw [pingReceivedAt_eq, pingReceivedAt_eq]
  exact ⟨_, _, rfl⟩

end ServerInformation

namespace ServerTable

open ServerInformation

variable {t u : ServerTable} {i j : Nat}

theorem same_learnAt {serverInfo : ServerInformation} {ip : IpInfo} :
    (t.serverInfoes i).SameButRoutes ((t.learnAt j serverInfo ip).serverInfoes i) := by
  rw [learnAt_serverInfoes]
  exact ⟨_, _, rfl⟩

theorem same_updateLearningTable {serverInfo : ServerInformation} {ip : IpInfo} (hi : i < t.known)
    (h : t.updateLearningTable serverInfo ip = some u) :
    (t.serverInfoes i).SameButRoutes (u.serverInfoes i) := by
  rcases updateLearningTable_cases h with ⟨id, _, rfl⟩ | ⟨_, _, _, rfl⟩
  · exact same_learnAt
  · have hrow : (t.inserted serverInfo).serverInfoes i = t.serverInfoes i :=
      inserted_serverInfoes_of_ne (by omega)
    rw [← hrow]
    exact same_learnAt

theorem accepts_congr (h : (t.serverInfoes i).SameButRoutes (u.serverInfoes i)) (ip : UInt32)
    (sequenceId : UInt16) : u.Accepts i ip sequenceId ↔ t.Accepts i ip sequenceId := by
  obtain ⟨_, _, hrow⟩ := h
  rw [Accepts, hrow, Accepts]

theorem extends_receivePingRow {ip : UInt32} {now : Int} {sequenceId : UInt16}
    (h : receivePingRow ip now sequenceId t j = some u) : t.Extends u := by
  unfold receivePingRow at h
  by_cases ha : t.Accepts j ip sequenceId
  · rw [if_pos ha] at h
    exact (extends_pingReceivedAt t j now).trans (extends_updateLearningTable h)
  · rw [if_neg ha] at h
    exact Option.some.inj h ▸ .refl t

theorem same_receivePingRow {ip : UInt32} {now : Int} {sequenceId : UInt16} (hi : i < t.known)
    (h : receivePingRow ip now sequenceId t j = some u) :
    (if j = i ∧ t.Accepts i ip sequenceId then (t.serverInfoes i).pingReceivedAt now
      else t.serverInfoes i).SameButRoutes (u.serverInfoes i) := by
  unfold receivePingRow at h
  by_cases ha : t.Accepts j ip sequenceId
  · rw [if_pos ha] at h
    have hs := same_updateLearningTable (show i < (t.setRow j _).known from hi) h
    rw [setRow_serverInfoes] at hs
    by_cases hj : j = i
    · subst hj
      rw [if_pos ⟨rfl, ha⟩]
      rwa [Function.update_self] at hs
    · rw [if_neg fun hc => hj hc.1]
      rwa [Function.update_of_ne (Ne.symm hj)] at hs
  · rw [if_neg ha] at h
    have hn : ¬ (j = i ∧ t.Accepts i ip sequenceId) := fun hc => ha (hc.1 ▸ hc.2)
    rw [if_neg hn, Option.some.inj h]
    exact .refl _

theorem same_receivePingPacket {ip : UInt32} {now : Int} {sequenceId : UInt16} (hw : t.WellFormed)
    (hi : i < t.configured) (h : t.receivePingPacket ip now sequenceId = some u) :
    (if t.Accepts i ip sequenceId then (t.serverInfoes i).pingReceivedAt now
      else t.serverInfoes i).SameButRoutes (u.serverInfoes i) := by
  have hc := hw.configured_le_known
  have hp : t.Extends u ∧ (if i < t.configured ∧ t.Accepts i ip sequenceId then
      (t.serverInfoes i).pingReceivedAt now else t.serverInfoes i).SameButRoutes (u.serverInfoes i) := by
    refine foldlM_range_induction (P := fun n v => t.Extends v ∧ (if i < n ∧ t.Accepts i ip sequenceId then
      (t.serverInfoes i).pingReceivedAt now else t.serverInfoes i).SameButRoutes (v.serverInfoes i))
      ⟨.refl t, ?_⟩ (fun {j v w} hj hv hw => ⟨?_, ?_⟩) h
    · rw [if_neg fun hn => Nat.not_lt_zero i hn.1]
      exact .refl _
    · exact hv.1.trans (extends_receivePingRow hw)
    · have hle := hv.1.known
      have hstep := same_receivePingRow (by omega : i < v.known) hw
      by_cases hij : j = i
      · subst hij
        have hrow := hv.2
        rw [if_neg fun hn => Nat.lt_irrefl j hn.1] at hrow
        simp only [accepts_congr hrow, true_and] at hstep
        by_cases ha : t.Accepts j ip sequenceId
        · rw [if_pos ha] at hstep
          rw [if_pos ⟨Nat.lt_succ_self j, ha⟩]
          exact (hrow.pingReceivedAt now).trans hstep
        · rw [if_neg ha] at hstep
          rw [if_neg fun hn => ha hn.2]
          exact hrow.trans hstep
      · have hlt : i < j + 1 ↔ i < j := by omega
        rw [if_neg fun hn => hij hn.1] at hstep
        simp only [hlt]
        exact hv.2.trans hstep
  simpa only [hi, true_and] using hp.2

theorem same_receiveAdvertiseData {advertiseData : Bytes} {ipSrc : UInt32} (hi : i < t.known)
    (h : t.receiveAdvertiseData advertiseData ipSrc = some u) :
    (t.serverInfoes i).SameButRoutes (u.serverInfoes i) := by
  have hp : t.Extends u ∧ (t.serverInfoes i).SameButRoutes (u.serverInfoes i) := by
    refine receiveAdvertiseData_induction
      (P := fun v => t.Extends v ∧ (t.serverInfoes i).SameButRoutes (v.serverInfoes i)) h ⟨.refl t, .refl _⟩
      fun _ _ hv hu => ⟨hv.1.trans (extends_updateLearningTable hu), ?_⟩
    have hle := hv.1.known
    exact hv.2.trans (same_updateLearningTable (by omega) hu)
  exact hp.2

theorem same_advertise (hi : i < t.known) :
    (t.serverInfoes i).SameButRoutes (t.fillForwardingTable.resetLearningTable.serverInfoes i) := by
  rw [resetLearningTable_row (show i < t.fillForwardingTable.known from hi), fillForwardingTable_row hi]
  exact ⟨_, _, rfl⟩

end ServerTable

end Overlay
