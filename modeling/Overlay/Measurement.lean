import Overlay.Threads
import Overlay.Rows

/-! A configured row along a run of the two threads. Its measured fields change by the
check, by a request to its server and by a reply it accepts, and by nothing else. -/

namespace Overlay

open ByteMemory Execution

namespace Threads

/-- The check has been made and the request to row `i` is still to come. -/
def Checked (i : Nat) (t : Threads) : Prop := ∃ k ≤ i, t.command = .ping k

def requestsTo (i : Nat) (x : Moment) : Bool :=
  match x.event with
  | .request _ => x.before.command = .ping i
  | _ => false

/-- The address and the number of the echo reply that arrives. -/
def echoReply (x : Moment) : Option (UInt32 × UInt16) :=
  match x.event with
  | .frame data _ =>
    if isValidPacket data = some true ∧ ipP data = 1 then some (ipSrc data, sequenceId data) else none
  | _ => none

def acceptedBy (i : Nat) (x : Moment) : Bool :=
  (echoReply x).any fun r => x.before.machine.table.Accepts i r.1 r.2

inductive RowStep (i : Nat) (t u : Threads) (out : List Sent) : ThreadEvent → Prop
  | check : ¬ t.Checked i → u.Checked i → (t.row i).checkAlive.SameButRoutes (u.row i) → RowStep i t u out .check
  | request {now : Int} : t.command = .ping i → ¬ u.Checked i → out = [t.machine.icmpPacket (t.row i)] →
      ((t.row i).updateServerInformation t.machine.table.ipGateway now).SameButRoutes (u.row i) →
      RowStep i t u out (.request now)
  | accept {data : Bytes} {now : Int} : acceptedBy i ⟨t, .frame data now, out⟩ = true → u.command = t.command →
      ((t.row i).pingReceivedAt now).SameButRoutes (u.row i) → RowStep i t u out (.frame data now)
  | other {e : ThreadEvent} : e ≠ .check → requestsTo i ⟨t, e, out⟩ = false →
      acceptedBy i ⟨t, e, out⟩ = false → (u.Checked i ↔ t.Checked i) → (t.row i).SameButRoutes (u.row i) →
      RowStep i t u out e

variable {t u : Threads} {i : Nat} {e : ThreadEvent} {out : List Sent}

theorem echoReply_of_validIcmp {data : Bytes} {now : Int} (h : ValidIcmp data) :
    echoReply ⟨t, .frame data now, out⟩ = some (ipSrc data, sequenceId data) :=
  if_pos ⟨(isValidPacket_iff data).mpr (Or.inr h), h.ipP_eq⟩

theorem echoReply_eq_none {data : Bytes} {now : Int} (h : ¬ ValidIcmp data) :
    echoReply ⟨t, .frame data now, out⟩ = none := by
  refine if_neg fun hv => ?_
  rcases (isValidPacket_iff data).mp hv.1 with hu | hi
  · have hp := hu.ipP_eq
    rw [hv.2] at hp
    exact absurd hp (by decide)
  · exact h hi

theorem checked_pinging {m : Machine} {k : Nat} (hi : i < m.table.configured) :
    (pinging m k).Checked i ↔ k ≤ i := by
  by_cases hk : k < m.table.configured
  · have hc : (pinging m k).command = .ping k := if_pos hk
    simp only [Checked, hc, Command.ping.injEq]
    exact ⟨fun ⟨j, hj, he⟩ => he ▸ hj, fun h => ⟨k, h, rfl⟩⟩
  · have hc : (pinging m k).command = .idle := if_neg hk
    simp only [Checked, hc, reduceCtorEq, and_false, exists_false, false_iff]
    omega

theorem not_checked (h : t.command = .idle ∨ t.command = .packet) : ¬ t.Checked i := by
  rintro ⟨k, _, hk⟩
  rcases h with h | h <;> rw [h] at hk <;> cases hk

theorem checked_congr (h : u.command = t.command) : u.Checked i ↔ t.Checked i := by
  rw [Checked, h, Checked]

/-- What holds of the table between any two steps, `t₀` being the table at start. -/
structure Sound (t₀ : ServerTable) (t : Threads) : Prop where
  extends_start : t₀.Extends t.machine.table
  wellFormed : t.machine.table.WellFormed
  ping_lt : ∀ k, t.command = .ping k → k < t.machine.table.configured

theorem ping_lt_pinging {m : Machine} {j k : Nat} (h : (pinging m j).command = .ping k) :
    k < m.table.configured := by
  by_cases hj : j < m.table.configured
  · have hc : (pinging m j).command = .ping j := if_pos hj
    rw [hc, Command.ping.injEq] at h
    exact h ▸ hj
  · have hc : (pinging m j).command = .idle := if_neg hj
    rw [hc] at h
    cases h

theorem frame_table {data : Bytes} {now : Int} {m m' : Machine} (h : FrameStep m data now m' out) :
    m'.table = m.table ∨ ∃ te, m.table.step te = some m'.table := by
  cases h with
  | rejected => exact Or.inl rfl
  | echo hi ht => exact Or.inr ⟨.echo _ _ _, ht⟩
  | advertisement hu hp ht => exact Or.inr ⟨.advertisement _ _, ht⟩
  | forward _ _ hf =>
    obtain ⟨_, _, _, rfl⟩ := Machine.natForward_cases hf
    exact Or.inl rfl
  | reply _ _ _ _ hr =>
    obtain ⟨rfl, _⟩ := Machine.natReply_cases hr
    exact Or.inl rfl
  | ignored => exact Or.inl rfl

theorem Sound.step {t₀ : ServerTable} (hs : Sound t₀ t) (h : t.step e = some (u, out)) : Sound t₀ u := by
  obtain ⟨hx, hw, hp⟩ := hs
  have hc := hw.configured_le_known
  cases step_cases h with
  | check _ =>
    exact ⟨hx.trans (ServerTable.extends_mapRows fun _ row => ServerTable.checkAlive_ip row), hw.mapRows hc _,
      fun k hk => ping_lt_pinging hk⟩
  | @request k now hk =>
    have hlt := hp k hk
    exact ⟨hx.trans (ServerTable.extends_setRow (ServerTable.updateServerInformation_ip _ _ now)),
      hw.setRow (hlt.trans_le hc) _, fun k hk => ping_lt_pinging hk⟩
  | advertise _ hm =>
    obtain ⟨_, hd, rfl, rfl⟩ := Machine.step_advertise hm
    have he : t.machine.table.step .advertise = some t.machine.table.fillForwardingTable.resetLearningTable := by
      simp [ServerTable.step, hd]
    exact ⟨hx.trans (ServerTable.extends_step he), hw.step he, fun k hk => absurd hk (by simp)⟩
  | unknown hi _ => exact ⟨hx, hw, fun k hk => by rw [hi] at hk; cases hk⟩
  | allocate _ _ _ => exact ⟨hx, hw, fun k hk => absurd hk (by simp)⟩
  | record _ => exact ⟨hx, hw, fun k hk => absurd hk (by simp)⟩
  | frame hf =>
    rcases frame_table hf with he | ⟨te, he⟩
    · exact ⟨he ▸ hx, he ▸ hw, fun k hk => he ▸ hp k hk⟩
    · have hx' := ServerTable.extends_step he
      exact ⟨hx.trans hx', hw.step he, fun k hk => hx'.configured ▸ hp k hk⟩

theorem row_request {k : Nat} (hi : i < t.machine.table.configured) (hcommand : t.command = .ping k) (now : Int) :
    RowStep i t (pinging (t.machine.sendIcmpPacket k now).1 (k + 1))
      [t.machine.icmpPacket (t.machine.table.serverInfoes k)] (.request now) := by
  have hchecked : (pinging (t.machine.sendIcmpPacket k now).1 (k + 1)).Checked i ↔ k + 1 ≤ i := checked_pinging hi
  by_cases hki : k = i
  · subst hki
    refine .request hcommand ?_ rfl ?_
    · rw [hchecked]
      omega
    · show ServerInformation.SameButRoutes _ ((t.machine.sendIcmpPacket k now).1.table.serverInfoes k)
      rw [Machine.sendIcmpPacket_row]
      exact .refl _
  · refine .other (by simp) ?_ rfl ?_ ?_
    · simp [requestsTo, hcommand, hki]
    · rw [hchecked]
      constructor
      · exact fun hlt => ⟨k, by omega, hcommand⟩
      · rintro ⟨j, hj, he⟩
        rw [hcommand, Command.ping.injEq] at he
        omega
    · show (t.row i).SameButRoutes ((t.machine.sendIcmpPacket k now).1.table.serverInfoes i)
      rw [Machine.sendIcmpPacket_row_of_ne _ (Ne.symm hki)]
      exact .refl _

theorem row_frame {data : Bytes} {now : Int} {m : Machine} (hw : t.machine.table.WellFormed)
    (hi : i < t.machine.table.configured) (hf : FrameStep t.machine data now m out) :
    RowStep i t ⟨m, t.command⟩ out (.frame data now) := by
  have hk := hi.trans_le hw.configured_le_known
  have hsame (hn : ¬ ValidIcmp data) (hrow : (t.row i).SameButRoutes (m.table.serverInfoes i)) :
      RowStep i t ⟨m, t.command⟩ out (.frame data now) := by
    refine .other (by simp) rfl ?_ (checked_congr rfl) hrow
    rw [acceptedBy, echoReply_eq_none hn, Option.any_none]
  cases hf with
  | rejected hv =>
    refine hsame (fun hi => ?_) (.refl _)
    rw [(isValidPacket_iff data).mpr (Or.inr hi)] at hv
    cases hv
  | echo hicmp ht =>
    have hrow := ServerTable.same_receivePingPacket hw hi ht
    by_cases ha : t.machine.table.Accepts i (ipSrc data) (sequenceId data)
    · rw [if_pos ha] at hrow
      refine .accept ?_ rfl hrow
      rw [acceptedBy, echoReply_of_validIcmp hicmp]
      exact decide_eq_true ha
    · rw [if_neg ha] at hrow
      refine .other (by simp) rfl ?_ (checked_congr rfl) hrow
      rw [acceptedBy, echoReply_of_validIcmp hicmp]
      exact decide_eq_false ha
  | advertisement hu _ ht =>
    exact hsame (fun hi => hi.not_validUdp hu) (ServerTable.same_receiveAdvertiseData hk ht)
  | forward hu _ hf =>
    obtain ⟨_, _, _, rfl⟩ := Machine.natForward_cases hf
    exact hsame (fun hi => hi.not_validUdp hu) (.refl _)
  | reply hu _ _ _ hr =>
    obtain ⟨rfl, _⟩ := Machine.natReply_cases hr
    exact hsame (fun hi => hi.not_validUdp hu) (.refl _)
  | ignored hu => exact hsame (fun hi => hi.not_validUdp hu) (.refl _)

theorem row_cases {t₀ : ServerTable} (hs : Sound t₀ t) (hi : i < t.machine.table.configured)
    (h : t.step e = some (u, out)) : RowStep i t u out e := by
  have hk := hi.trans_le hs.wellFormed.configured_le_known
  cases step_cases h with
  | check hidle =>
    refine .check (not_checked (Or.inl hidle)) ((checked_pinging hi).mpr (Nat.zero_le i)) ?_
    have hrow : t.machine.table.checkConnectionsIsAlive.serverInfoes i = (t.row i).checkAlive := if_pos hi
    show (t.row i).checkAlive.SameButRoutes (t.machine.table.checkConnectionsIsAlive.serverInfoes i)
    rw [hrow]
    exact .refl _
  | request hcommand => exact row_request hi hcommand _
  | advertise hidle hm =>
    obtain ⟨_, _, rfl, rfl⟩ := Machine.step_advertise hm
    refine .other (by simp) rfl rfl ?_ (ServerTable.same_advertise hk)
    exact iff_of_false (not_checked (Or.inl rfl)) (not_checked (Or.inl hidle))
  | unknown hidle _ => exact .other (by simp) rfl rfl Iff.rfl (.refl _)
  | allocate hidle _ _ =>
    refine .other (by simp) rfl rfl ?_ (.refl _)
    exact iff_of_false (not_checked (Or.inr rfl)) (not_checked (Or.inl hidle))
  | record hpacket =>
    refine .other (by simp) rfl rfl ?_ (.refl _)
    exact iff_of_false (not_checked (Or.inl rfl)) (not_checked (Or.inr hpacket))
  | frame hf => exact row_frame hs.wellFormed hi hf

theorem run_sound {iface : Fin 2 → Interface} {info : Str} {m₀ : Machine} {h : List Moment}
    (hi : Machine.initializeMachine iface info = some m₀) (hr : Run step ⟨m₀, .idle⟩ h t) :
    Sound m₀.table t := by
  have hw := (Machine.run_table hi .start).1.wellFormed
  exact hr.invariant (P := Sound m₀.table) ⟨.refl _, hw, nofun⟩ fun hs he => hs.step he

end Threads

end Overlay
