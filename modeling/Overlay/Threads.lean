import Overlay.TableSteps

/-! The two threads of a node. The run loop is taken apart where the main thread can step
in: between the check of a ping and each of its requests, and between the port of an own
packet and the entry of its time. A node that is never interrupted is the one of `Node`. -/

namespace Overlay

open ByteMemory Execution

namespace Machine

def sendIcmpPacket (m : Machine) (i : Nat) (now : Int) : Machine × Sent :=
  let row := m.table.serverInfoes i
  let table := m.table.setRow i (row.updateServerInformation m.table.ipGateway now)
  ({ m with table }, m.icmpPacket row)

theorem sendIcmpPacket_row (m : Machine) (i : Nat) (now : Int) :
    (m.sendIcmpPacket i now).1.table.serverInfoes i =
      (m.table.serverInfoes i).updateServerInformation m.table.ipGateway now := Function.update_self ..

theorem sendIcmpPacket_row_of_ne (m : Machine) {i j : Nat} (h : j ≠ i) (now : Int) :
    (m.sendIcmpPacket i now).1.table.serverInfoes j = m.table.serverInfoes j := Function.update_of_ne h ..

/-- The part of `send_udp_packet` under the mutex. -/
def takePort (m : Machine) : Machine := { m with srcPort := m.srcPort + 1 }

/-- The key of the last line of `send_udp_packet`, read from the shared counter again. -/
def timesKey (m : Machine) : UInt16 := UInt16.ofNat (m.srcPort - 1)

def recordTime (m : Machine) (now : Int) : Machine :=
  { m with sentTimes := Function.update m.sentTimes m.timesKey now }

def ownPacket (m : Machine) (ipDst nextHop : UInt32) (isDsa : Bool) : Option Sent :=
  if nextHop = m.table.ipGateway.uint then
    some ⟨1, m.udpPacket ipDst nextHop isDsa (m.iface 1).mac m.macGateway⟩
  else (m.ipToMac nextHop).map fun mac => ⟨0, m.udpPacket ipDst nextHop isDsa (m.iface 0).mac mac⟩

theorem sendUdpPacket_eq (m : Machine) (ipDst nextHop : UInt32) (isDsa : Bool) (now : Int) :
    m.sendUdpPacket ipDst nextHop isDsa now =
      (m.ownPacket ipDst nextHop isDsa).map fun sent => (m.takePort.recordTime now, sent) := by
  unfold sendUdpPacket ownPacket
  by_cases hg : nextHop = m.table.ipGateway.uint
  · simp only [if_pos hg, Option.map_some]
    rfl
  · simp only [if_neg hg, Option.map_map]
    rfl

def nextHop (m : Machine) (isDsa : Bool) (ipDst : Str) : UInt32 :=
  if isDsa then (m.dsaNextHop ipDst).uint else (m.lsaNextHop ipDst).uint

end Machine

/-- What the run loop is in the middle of: the requests of a ping from a row on, or an own
packet whose port is taken and whose time is not yet entered. -/
inductive Command
  | idle
  | ping (next : Nat)
  | packet
  deriving DecidableEq

structure Threads where
  machine : Machine
  command : Command

/-- `frame` is the main thread, the others are the run loop. -/
inductive ThreadEvent
  | check
  | request (now : Int)
  | advertise
  | allocate (isDsa : Bool) (ipDst : Str)
  | record (now : Int)
  | frame (data : Bytes) (now : Int)

def ThreadEvent.isFrame : ThreadEvent → Bool
  | .frame .. => true
  | _ => false

namespace Threads

abbrev Moment := Taken Threads ThreadEvent (List Sent)

def row (t : Threads) (i : Nat) : ServerInformation := t.machine.table.serverInfoes i

def pinging (m : Machine) (i : Nat) : Threads := ⟨m, if i < m.table.configured then .ping i else .idle⟩

def step (t : Threads) : ThreadEvent → Option (Threads × List Sent)
  | .check =>
    if t.command = .idle then
      some (pinging { t.machine with table := t.machine.table.checkConnectionsIsAlive } 0, [])
    else none
  | .request now =>
    match t.command with
    | .ping i =>
      let r := t.machine.sendIcmpPacket i now
      some (pinging r.1 (i + 1), [r.2])
    | _ => none
  | .advertise => if t.command = .idle then t.machine.advertise.map fun r => (⟨r.1, .idle⟩, r.2) else none
  | .allocate isDsa ipDst =>
    if t.command = .idle then
      if t.machine.table.isServerValid ipDst then
        (t.machine.ownPacket (ipIntoUint ipDst) (t.machine.nextHop isDsa ipDst) isDsa).map fun sent =>
          (⟨t.machine.takePort, .packet⟩, [sent])
      else some (t, [])
    else none
  | .record now => if t.command = .packet then some (⟨t.machine.recordTime now, .idle⟩, []) else none
  | .frame data now => (t.machine.processFrame data now).map fun r => (⟨r.1, t.command⟩, r.2)

def outputs (h : List Moment) : List Sent := h.flatMap (·.output)

@[simp] theorem pinging_machine (m : Machine) (i : Nat) : (pinging m i).machine = m := rfl

variable {m m' : Machine} {t u : Threads} {e : ThreadEvent} {out : List Sent}

/-- Everything a step of the threads can do. -/
inductive Step (t : Threads) : ThreadEvent → Threads → List Sent → Prop
  | check : t.command = .idle → Step t .check
      (pinging { t.machine with table := t.machine.table.checkConnectionsIsAlive } 0) []
  | request {k : Nat} {now : Int} : t.command = .ping k → Step t (.request now)
      (pinging (t.machine.sendIcmpPacket k now).1 (k + 1)) [t.machine.icmpPacket (t.row k)]
  | advertise {m : Machine} {out : List Sent} : t.command = .idle → t.machine.step .advertise = some (m, out) →
      Step t .advertise ⟨m, .idle⟩ out
  | unknown {isDsa : Bool} {ipDst : Str} : t.command = .idle → t.machine.table.isServerValid ipDst = false →
      Step t (.allocate isDsa ipDst) t []
  | allocate {isDsa : Bool} {ipDst : Str} {sent : Sent} : t.command = .idle →
      t.machine.table.isServerValid ipDst = true →
      t.machine.ownPacket (ipIntoUint ipDst) (t.machine.nextHop isDsa ipDst) isDsa = some sent →
      Step t (.allocate isDsa ipDst) ⟨t.machine.takePort, .packet⟩ [sent]
  | record {now : Int} : t.command = .packet → Step t (.record now) ⟨t.machine.recordTime now, .idle⟩ []
  | frame {data : Bytes} {now : Int} {m : Machine} {out : List Sent} : FrameStep t.machine data now m out →
      Step t (.frame data now) ⟨m, t.command⟩ out

theorem step_cases (h : t.step e = some (u, out)) : Step t e u out := by
  cases e with
  | check =>
    simp only [step, Option.ite_none_right_eq_some, Option.some.injEq, Prod.mk.injEq] at h
    obtain ⟨hc, rfl, rfl⟩ := h
    exact .check hc
  | request now =>
    cases hc : t.command with
    | ping k =>
      simp only [step, hc, Option.some.injEq, Prod.mk.injEq] at h
      obtain ⟨rfl, rfl⟩ := h
      exact .request hc
    | idle => simp [step, hc] at h
    | packet => simp [step, hc] at h
  | advertise =>
    simp only [step, Option.ite_none_right_eq_some] at h
    obtain ⟨hc, h⟩ := h
    obtain ⟨r, hr, he⟩ := Option.map_eq_some_iff.mp h
    obtain ⟨rfl, rfl⟩ := Prod.mk.inj he
    exact .advertise hc hr
  | allocate isDsa ipDst =>
    simp only [step, Option.ite_none_right_eq_some] at h
    obtain ⟨hc, h⟩ := h
    cases hv : t.machine.table.isServerValid ipDst with
    | false =>
      simp only [hv, Bool.false_eq_true, if_false, Option.some.injEq, Prod.mk.injEq] at h
      obtain ⟨rfl, rfl⟩ := h
      exact .unknown hc hv
    | true =>
      simp only [hv, if_true] at h
      obtain ⟨sent, hs, he⟩ := Option.map_eq_some_iff.mp h
      obtain ⟨rfl, rfl⟩ := Prod.mk.inj he
      exact .allocate hc hv hs
  | record now =>
    simp only [step, Option.ite_none_right_eq_some, Option.some.injEq, Prod.mk.injEq] at h
    obtain ⟨hc, rfl, rfl⟩ := h
    exact .record hc
  | frame data now =>
    obtain ⟨r, hr, he⟩ := Option.map_eq_some_iff.mp h
    obtain ⟨rfl, rfl⟩ := Prod.mk.inj he
    exact .frame (Machine.processFrame_cases hr)

/-! Each event of the node is a run of its threads. -/

theorem outputs_append (h h' : List Moment) : outputs (h ++ h') = outputs h ++ outputs h' := List.flatMap_append

/-- The rows below `n` have sent their requests. -/
def requested (m : Machine) (clock : Nat → Int) (n : Nat) : Machine :=
  { m with table := m.table.mapRows n fun i row => row.updateServerInformation m.table.ipGateway (clock i) }

theorem sendIcmpPacket_requested (m : Machine) (clock : Nat → Int) (n : Nat) :
    (requested m clock n).sendIcmpPacket n (clock n) =
      (requested m clock (n + 1), m.icmpPacket (m.table.serverInfoes n)) := by
  have hrow : (requested m clock n).table.serverInfoes n = m.table.serverInfoes n :=
    if_neg (Nat.lt_irrefl n)
  have hnext : (requested m clock n).table.setRow n
      ((m.table.serverInfoes n).updateServerInformation m.table.ipGateway (clock n)) =
      (requested m clock (n + 1)).table := by
    simp only [requested, ServerTable.setRow, ServerTable.mapRows, ServerTable.mk.injEq, true_and, and_true]
    funext i
    by_cases hi : i = n
    · subst hi
      simp
    · have hlt : i < n + 1 ↔ i < n := by omega
      simp [Function.update_of_ne hi, hlt]
  have hgateway : (requested m clock n).table.ipGateway = m.table.ipGateway := rfl
  rw [Machine.sendIcmpPacket, hrow, hgateway, hnext]
  rfl

theorem run_requests (m : Machine) (clock : Nat → Int) {n : Nat} (hn : n ≤ m.table.configured) :
    ∃ h, Run step (pinging m 0) h (pinging (requested m clock n) n) ∧
      outputs h = (List.range n).map fun i => m.icmpPacket (m.table.serverInfoes i) := by
  induction n with
  | zero =>
    have hz : requested m clock 0 = m := by simp [requested, ServerTable.mapRows]
    refine ⟨[], ?_, rfl⟩
    rw [hz]
    exact .start
  | succ n ih =>
    obtain ⟨h, hr, ho⟩ := ih (by omega)
    have hcommand : (pinging (requested m clock n) n).command = .ping n :=
      if_pos (show n < m.table.configured by omega)
    have hstep : step (pinging (requested m clock n) n) (.request (clock n)) =
        some (pinging (requested m clock (n + 1)) (n + 1), [m.icmpPacket (m.table.serverInfoes n)]) := by
      rw [step, hcommand]
      simp only [pinging_machine, sendIcmpPacket_requested]
    refine ⟨_, hr.snoc hstep, ?_⟩
    rw [outputs_append, ho, List.range_succ, List.map_append]
    rfl

theorem run_ping (m : Machine) (clock : Nat → Int) :
    ∃ h, Run step ⟨m, .idle⟩ h ⟨(m.ping clock).1, .idle⟩ ∧ outputs h = (m.ping clock).2 := by
  have hcheck : step ⟨m, .idle⟩ .check =
      some (pinging { m with table := m.table.checkConnectionsIsAlive } 0, []) := by
    rw [step, if_pos rfl]
  obtain ⟨h, hr, ho⟩ := run_requests { m with table := m.table.checkConnectionsIsAlive } clock
    (le_refl m.table.configured)
  have hend : pinging (m.ping clock).1 m.table.configured = ⟨(m.ping clock).1, .idle⟩ := by
    have hn : ¬ m.table.configured < (m.ping clock).1.table.configured := Nat.lt_irrefl _
    rw [pinging, if_neg hn]
  rw [← hend]
  exact ⟨_, (Run.single hcheck).trans hr, ho⟩

theorem run_own (isDsa : Bool) {ipDst : Str} {now : Int} (hv : m.table.isServerValid ipDst = true)
    {sent : Sent} (h : m.sendUdpPacket (ipIntoUint ipDst) (m.nextHop isDsa ipDst) isDsa now = some (m', sent)) :
    ∃ k, Run step ⟨m, .idle⟩ k ⟨m', .idle⟩ ∧ outputs k = [sent] := by
  rw [Machine.sendUdpPacket_eq] at h
  obtain ⟨sent', hs, he⟩ := Option.map_eq_some_iff.mp h
  obtain ⟨rfl, rfl⟩ := Prod.mk.inj he
  have hallocate : step ⟨m, .idle⟩ (.allocate isDsa ipDst) = some (⟨m.takePort, .packet⟩, [sent']) := by
    simp [step, hv, hs]
  have hrecord : step ⟨m.takePort, .packet⟩ (.record now) =
      some (⟨m.takePort.recordTime now, .idle⟩, []) := by
    rw [step, if_pos rfl]
  exact ⟨_, (Run.single hallocate).trans (Run.single hrecord), rfl⟩

theorem run_event {e : Event} (h : m.step e = some (m', out)) :
    ∃ k, Run step ⟨m, .idle⟩ k ⟨m', .idle⟩ ∧ outputs k = out := by
  cases e with
  | ping clock =>
    obtain ⟨rfl, rfl⟩ := Prod.mk.inj (Option.some.inj h)
    exact run_ping m clock
  | advertise =>
    have he : step ⟨m, .idle⟩ .advertise = some (⟨m', .idle⟩, out) := by
      have h' : m.advertise = some (m', out) := h
      simp [step, h']
    exact ⟨_, Run.single he, by simp [outputs]⟩
  | dsa ipDst now =>
    rcases Machine.step_dsa h with ⟨hv, rfl, rfl⟩ | ⟨hv, sent, hs, rfl⟩
    · have he : step ⟨m', .idle⟩ (.allocate true ipDst) = some (⟨m', .idle⟩, []) := by simp [step, hv]
      exact ⟨_, Run.single he, rfl⟩
    · exact run_own true hv hs
  | lsa ipDst now =>
    rcases Machine.step_lsa h with ⟨hv, rfl, rfl⟩ | ⟨hv, sent, hs, rfl⟩
    · have he : step ⟨m', .idle⟩ (.allocate false ipDst) = some (⟨m', .idle⟩, []) := by simp [step, hv]
      exact ⟨_, Run.single he, rfl⟩
    · exact run_own false hv hs
  | frame data now =>
    have he : step ⟨m, .idle⟩ (.frame data now) = some (⟨m', .idle⟩, out) := by
      have h' : m.processFrame data now = some (m', out) := h
      simp [step, h']
    exact ⟨_, Run.single he, by simp [outputs]⟩

/-- The node is its two threads when neither interrupts the other. -/
theorem run_of_machine {h : List (Taken Machine Event (List Sent))} {m₀ : Machine} (hr : Run Machine.step m₀ h m) :
    ∃ k, Run step ⟨m₀, .idle⟩ k ⟨m, .idle⟩ ∧ outputs k = h.flatMap (·.output) := by
  induction hr with
  | start => exact ⟨[], .start, rfl⟩
  | snoc _ he ih =>
    obtain ⟨k, hk, ho⟩ := ih
    obtain ⟨k', hk', ho'⟩ := run_event he
    refine ⟨k ++ k', hk.trans hk', ?_⟩
    rw [outputs_append, ho, ho', List.flatMap_append]
    simp

theorem reaches (iface : Fin 2 → Interface) (info : Str) (events : List ThreadEvent)
    (P : Threads → List Moment → Prop) [∀ t h, Decidable (P t h)]
    (hp : ((Machine.initializeMachine iface info).bind fun m =>
      (exec step ⟨m, .idle⟩ events).map fun r => decide (P r.1 r.2)) = some true) :
    ∃ m₀ h t, Machine.initializeMachine iface info = some m₀ ∧ Run step ⟨m₀, .idle⟩ h t ∧
      h.map (·.event) = events ∧ P t h :=
  exists_run (fun m => ⟨m, .idle⟩) events P hp

end Threads

end Overlay
