import Overlay.Rows

/-! What a node measures itself. The round trip time of a configured server depends on the
node's own requests and the replies from that server, and on nothing a peer says. -/

namespace Overlay

open Execution

/-- The fields of a row that its round trip time is computed from. -/
structure Probe where
  rttTime : UInt16
  sequenceId : UInt16
  pingSendTime : Int
  isReceivedLastPing : Bool
  pingLostNumbers : UInt16

namespace Probe

def start : Probe := ⟨65535, 0, 0, false, 0⟩

def ping (p : Probe) (now : Int) : Probe where
  rttTime := if p.isReceivedLastPing = false ∧ p.pingLostNumbers = 2 then 65535 else p.rttTime
  sequenceId := p.sequenceId + 1
  pingSendTime := now
  isReceivedLastPing := false
  pingLostNumbers := if p.isReceivedLastPing = false then p.pingLostNumbers + 1 else p.pingLostNumbers

def echo (p : Probe) (now : Int) (sequenceId : UInt16) : Probe :=
  if sequenceId.toNat + 1 = p.sequenceId.toNat then
    { p with
      rttTime :=
        if p.rttTime = 65535 then milliseconds (now - p.pingSendTime)
        else UInt16.ofNat ((p.rttTime.toNat + (milliseconds (now - p.pingSendTime)).toNat) / 2)
      isReceivedLastPing := true
      pingLostNumbers := 0 }
  else p

/-- The requests to row `i` and the replies from its server, of all that happens to a table. -/
def observe (p : Probe) (ip : UInt32) (i : Nat) : TableEvent → Probe
  | .ping clock => p.ping (clock i)
  | .echo ip' now sequenceId => if ip' = ip then p.echo now sequenceId else p
  | .advertise => p
  | .advertisement _ _ => p

def observeAll (ip : UInt32) (i : Nat) (h : List (Taken Machine Event (List Sent))) : Probe :=
  h.foldl (fun p x => (x.event.onTable).elim p (p.observe ip i)) start

end Probe

def ServerInformation.probe (row : ServerInformation) : Probe :=
  ⟨row.rttTime, row.sequenceId, row.pingSendTime, row.isReceivedLastPing, row.pingLostNumbers⟩

theorem ServerInformation.SameButRoutes.probe_eq {row row' : ServerInformation} (h : row.SameButRoutes row') :
    row'.probe = row.probe := by
  obtain ⟨_, _, rfl⟩ := h
  rfl

namespace ServerTable

variable {t u : ServerTable} {i : Nat}

theorem probe_ping {clock : Nat → Int} (hi : i < t.configured) :
    ((t.ping clock).serverInfoes i).probe = (t.serverInfoes i).probe.ping (clock i) := by
  rw [ping_row hi, ServerInformation.updateServerInformation_eq, ServerInformation.checkAlive_eq]
  rfl

theorem probe_pingReceivedAt {row : ServerInformation} {now : Int} {sequenceId : UInt16}
    (h : sequenceId.toNat + 1 = row.sequenceId.toNat) :
    (row.pingReceivedAt now).probe = row.probe.echo now sequenceId := by
  have hp : sequenceId.toNat + 1 = row.probe.sequenceId.toNat := h
  rw [ServerInformation.pingReceivedAt_eq, Probe.echo, if_pos hp]
  rfl

theorem probe_receivePingPacket {ip : UInt32} {now : Int} {sequenceId : UInt16} (hw : t.WellFormed)
    (hi : i < t.configured) (h : t.receivePingPacket ip now sequenceId = some u) :
    (u.serverInfoes i).probe = if ip = (t.serverInfoes i).ip.uint then
      (t.serverInfoes i).probe.echo now sequenceId else (t.serverInfoes i).probe := by
  rw [(same_receivePingPacket hw hi h).probe_eq]
  by_cases ha : t.Accepts i ip sequenceId
  · rw [if_pos ha, if_pos ha.1.symm, probe_pingReceivedAt ha.2]
  · rw [if_neg ha]
    by_cases hip : ip = (t.serverInfoes i).ip.uint
    · have hs : ¬ sequenceId.toNat + 1 = (t.serverInfoes i).probe.sequenceId.toNat :=
        fun hs => ha ⟨hip.symm, hs⟩
      rw [if_pos hip, Probe.echo, if_neg hs]
    · rw [if_neg hip]

theorem probe_step {te : TableEvent} (hw : t.WellFormed) (hi : i < t.configured) (h : t.step te = some u) :
    (u.serverInfoes i).probe = (t.serverInfoes i).probe.observe (t.serverInfoes i).ip.uint i te := by
  have hc := hw.configured_le_known
  cases te with
  | ping clock => exact Option.some.inj h ▸ probe_ping hi
  | advertise =>
    obtain ⟨_, _, rfl⟩ := Option.map_eq_some_iff.mp h
    exact (same_advertise (hi.trans_le hc)).probe_eq
  | echo ip now sequenceId => exact probe_receivePingPacket hw hi h
  | advertisement advertiseData ipSrc => exact (same_receiveAdvertiseData (hi.trans_le hc) h).probe_eq

end ServerTable

theorem run_probe {iface : Fin 2 → Interface} {info : Str} {m₀ m : Machine}
    {h : List (Taken Machine Event (List Sent))} (hi : Machine.initializeMachine iface info = some m₀)
    (hr : Run Machine.step m₀ h m) {i : Nat} (hc : i < m.table.configured) :
    (m.table.serverInfoes i).probe = Probe.observeAll (m.table.serverInfoes i).ip.uint i h := by
  induction hr with
  | start =>
    obtain ⟨h₀, _, _⟩ := Machine.run_table hi .start
    obtain ⟨serverId, hs⟩ := h₀.configured_row i hc
    rw [hs]
    rfl
  | @snoc h t u e o hr he ih =>
    obtain ⟨_, hx, hw⟩ := Machine.run_table hi hr
    rw [Probe.observeAll, List.foldl_append]
    rcases Machine.step_table he with ⟨hn, hs, _⟩ | ⟨te, hte, hs, _⟩
    · rw [hs] at hc ⊢
      rw [ih hc, List.foldl_cons, List.foldl_nil, hn]
      rfl
    · have hu := ServerTable.extends_step hs
      rw [hu.configured] at hc
      have hk := hc.trans_le hw.configured_le_known
      rw [ServerTable.probe_step hw hc hs, ih hc, hu.ip_eq i hk, List.foldl_cons, List.foldl_nil, hte]
      rfl

end Overlay
