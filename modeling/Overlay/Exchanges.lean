import Overlay.Measurement

/-! Requests and replies of one configured row over a run: which number a request carries,
and which replies the row takes. -/

namespace Overlay

open ByteMemory Execution

namespace ServerTable

variable {t : ServerTable} {i : Nat}

theorem receivePingRow_isSome (ip : UInt32) (now : Int) (number : UInt16) (hi : i < t.known) :
    ∃ u, receivePingRow ip now number t i = some u := by
  unfold receivePingRow
  by_cases ha : t.Accepts i ip number
  · rw [if_pos ha]
    set row := (t.serverInfoes i).pingReceivedAt now with hrow
    have hip : ((t.setRow i row).serverInfoes i).ip.uint = row.ip.uint := by
      rw [setRow_serverInfoes, Function.update_self]
    cases hg : (t.setRow i row).getIndexByIp row.ip.uint with
    | none => exact absurd hip (getIndexByIp_eq_none.mp hg i hi)
    | some id => exact ⟨_, updateLearningTable_of_found hg⟩
  · exact ⟨t, if_neg ha⟩

theorem receivePingPacket_isSome (hw : t.WellFormed) (ip : UInt32) (now : Int) (number : UInt16) :
    ∃ u, t.receivePingPacket ip now number = some u := by
  have hc := hw.configured_le_known
  have hloop (n : Nat) (hn : n ≤ t.configured) :
      ∃ u, (List.range n).foldlM (receivePingRow ip now number) t = some u ∧ t.known ≤ u.known := by
    induction n with
    | zero => exact ⟨t, rfl, Nat.le_refl _⟩
    | succ n ih =>
      obtain ⟨v, hv, hk⟩ := ih (by omega)
      obtain ⟨u, hu⟩ := receivePingRow_isSome ip now number (show n < v.known by omega)
      refine ⟨u, ?_, ?_⟩
      · rw [List.range_succ, List.foldlM_append, hv]
        simp [hu]
      · exact hk.trans (extends_receivePingRow hu).known
  obtain ⟨u, hu, _⟩ := hloop t.configured (Nat.le_refl _)
  exact ⟨u, hu⟩

theorem receivePingPacket_ignored {ip : UInt32} {now : Int} {number : UInt16}
    (h : ∀ i < t.configured, ¬ t.Accepts i ip number) :
    t.receivePingPacket ip now number = some t := by
  have hloop (n : Nat) (hn : n ≤ t.configured) :
      (List.range n).foldlM (receivePingRow ip now number) t = some t := by
    induction n with
    | zero => rfl
    | succ n ih =>
      rw [List.range_succ, List.foldlM_append, ih (by omega)]
      simp [receivePingRow, h n (by omega)]
  exact hloop t.configured (Nat.le_refl _)

end ServerTable

def Event.data : Event → Bytes
  | .frame data _ => data
  | _ => []

namespace Threads

def requests (i : Nat) (h : List Moment) : Nat := h.countP (requestsTo i)

/-- A reply from the address with the number of the latest request, after `h`. -/
def answers (ip : UInt32) (i : Nat) (h : List Moment) (x : Moment) : Bool :=
  (echoReply x).any fun r => r.1 = ip ∧ r.2.toNat + 1 = requests i h % 65536

/-- The step changes the number of replies counted for the row. -/
def counts (i : Nat) (x : Moment) : Bool :=
  (x.before.step x.event).any fun r => (r.1.row i).pingReceived ≠ (x.before.row i).pingReceived

variable {t u : Threads} {i : Nat} {e : ThreadEvent} {out : List Sent} {h h' : List Moment} {x : Moment}

theorem reply_place {replies : List (Option (UInt32 × UInt16))} {sent : List Bool} {a c : List Moment}
    {r : UInt32 × UInt16} (hreplies : h.map echoReply = replies) (hsent : h.map (requestsTo i) = sent)
    (hx : h = a ++ x :: c) (hr : echoReply x = some r) : ∃ n < replies.length, a.length = n ∧
      replies[n]? = some (some r) ∧ requests i a = (sent.take n).count true := by
  subst hreplies hsent
  refine ⟨a.length, by simp [hx], rfl, by simp [hx, hr], ?_⟩
  have hbefore : (h.map (requestsTo i)).take a.length = a.map (requestsTo i) := by simp [hx]
  rw [hbefore, requests, List.count, List.countP_map]
  congr 1
  funext z
  simp

theorem requests_append : requests i (h ++ h') = requests i h + requests i h' := List.countP_append

theorem requests_singleton : requests i [x] = if requestsTo i x then 1 else 0 := List.countP_singleton

theorem echoReply_of_answers {ip : UInt32} (ha : answers ip i h x = true) :
    ∃ number, echoReply x = some (ip, number) ∧ number.toNat + 1 = requests i h % 65536 := by
  obtain ⟨⟨address, number⟩, hx, hr⟩ := (Option.any_eq_true _ _).mp ha
  obtain ⟨rfl, hn⟩ := of_decide_eq_true hr
  exact ⟨number, hx, hn⟩

theorem step_echo {data : Bytes} {now : Int} {table : ServerTable} (hi : ValidIcmp data)
    (ht : t.machine.table.receivePingPacket (ipSrc data) now (sequenceId data) = some table) :
    t.step (.frame data now) = some (⟨{ t.machine with table }, t.command⟩, []) := by
  have hv : isValidPacket data = some true := (isValidPacket_iff data).mpr (Or.inr hi)
  have hp : t.machine.processFrame data now = some ({ t.machine with table }, []) := by
    simp only [Machine.processFrame, hv, if_pos hi.ipP_eq, ht, Option.map_some]
  rw [step, hp, Option.map_some]

theorem RowStep.told (h : RowStep i t u out e) :
    (requestsTo i ⟨t, e, out⟩ = true ∧ acceptedBy i ⟨t, e, out⟩ = false ∧
      ∃ now, ((t.row i).updateServerInformation t.machine.table.ipGateway now).SameButRoutes (u.row i)) ∨
    (requestsTo i ⟨t, e, out⟩ = false ∧ acceptedBy i ⟨t, e, out⟩ = true ∧
      ∃ now, ((t.row i).pingReceivedAt now).SameButRoutes (u.row i)) ∨
    (requestsTo i ⟨t, e, out⟩ = false ∧ acceptedBy i ⟨t, e, out⟩ = false ∧
      ((t.row i).checkAlive.SameButRoutes (u.row i) ∨ (t.row i).SameButRoutes (u.row i))) := by
  cases h with
  | check _ _ hrow => exact Or.inr (Or.inr ⟨rfl, rfl, Or.inl hrow⟩)
  | request hc _ _ hrow => exact Or.inl ⟨decide_eq_true hc, rfl, _, hrow⟩
  | accept ha _ hrow => exact Or.inr (Or.inl ⟨rfl, ha, _, hrow⟩)
  | other _ hq ha _ hrow => exact Or.inr (Or.inr ⟨hq, ha, Or.inr hrow⟩)

theorem RowStep.sequenceId_eq (h : RowStep i t u out e) : (u.row i).sequenceId =
    (t.row i).sequenceId + if requestsTo i ⟨t, e, out⟩ then 1 else 0 := by
  rcases h.told with ⟨hq, _, now, _, _, hrow⟩ | ⟨hq, _, now, _, _, hrow⟩ | ⟨hq, _, ⟨_, _, hrow⟩ | ⟨_, _, hrow⟩⟩
  · rw [hrow, hq, ServerInformation.updateServerInformation_eq]
    rfl
  · rw [hrow, hq, ServerInformation.pingReceivedAt_eq]
    simp
  · rw [hrow, hq, ServerInformation.checkAlive_eq]
    simp
  · rw [hrow, hq]
    simp

theorem RowStep.pingReceived_eq (h : RowStep i t u out e) : (u.row i).pingReceived =
    (t.row i).pingReceived + if acceptedBy i ⟨t, e, out⟩ then 1 else 0 := by
  rcases h.told with ⟨_, ha, now, _, _, hrow⟩ | ⟨_, ha, now, _, _, hrow⟩ | ⟨_, ha, ⟨_, _, hrow⟩ | ⟨_, _, hrow⟩⟩
  · rw [hrow, ha, ServerInformation.updateServerInformation_eq]
    simp
  · rw [hrow, ha, ServerInformation.pingReceivedAt_eq]
    rfl
  · rw [hrow, ha, ServerInformation.checkAlive_eq]
    simp
  · rw [hrow, ha]
    simp

theorem RowStep.counts_eq (h : RowStep i t u out e) (he : t.step e = some (u, out)) :
    counts i ⟨t, e, out⟩ = acceptedBy i ⟨t, e, out⟩ := by
  have hr := h.pingReceived_eq
  simp only [counts, he, Option.any_some, hr]
  cases acceptedBy i ⟨t, e, out⟩ with
  | false => simp
  | true => simp

theorem average_ne {a : UInt16} (ha : a ≠ 65535) (b : UInt16) :
    UInt16.ofNat ((a.toNat + b.toNat) / 2) ≠ 65535 := by
  intro hn
  have hlt := a.toNat_lt
  have hb := b.toNat_lt
  have hne : a.toNat ≠ 65535 := fun h => ha (UInt16.toNat_inj.mp h)
  rw [← UInt16.toNat_inj, UInt16.toNat_ofNat'] at hn
  have hn : (a.toNat + b.toNat) / 2 % 65536 = 65535 := hn
  omega

section Runs

variable {iface : Fin 2 → Interface} {info : Str} {m₀ : Machine}

theorem run_row (hi : Machine.initializeMachine iface info = some m₀) (hr : Run step ⟨m₀, .idle⟩ h t)
    (hlt : i < m₀.table.configured) (he : t.step e = some (u, out)) : RowStep i t u out e := by
  have hs := run_sound hi hr
  exact row_cases hs (hs.extends_start.configured.symm ▸ hlt) he

theorem start_row (hi : Machine.initializeMachine iface info = some m₀) (hlt : i < m₀.table.configured) :
    ∃ serverId, (Threads.mk m₀ .idle).row i = .initial m₀.table.ipGateway serverId :=
  (Machine.run_table hi .start).1.configured_row i hlt

theorem run_address (hi : Machine.initializeMachine iface info = some m₀) (hr : Run step ⟨m₀, .idle⟩ h t)
    (hlt : i < m₀.table.configured) : (t.row i).ip = (m₀.table.serverInfoes i).ip := by
  have hw := (run_sound hi .start).wellFormed
  exact (run_sound hi hr).extends_start.ip_eq i (hlt.trans_le hw.configured_le_known)

theorem run_sequenceId (hi : Machine.initializeMachine iface info = some m₀)
    (hr : Run step ⟨m₀, .idle⟩ h t) (hlt : i < m₀.table.configured) :
    (t.row i).sequenceId = UInt16.ofNat (requests i h) := by
  induction hr with
  | start =>
    obtain ⟨serverId, hs⟩ := start_row hi hlt
    rw [hs]
    rfl
  | snoc hr he ih =>
    rw [(run_row hi hr hlt he).sequenceId_eq, ih, requests_append, requests_singleton]
    split_ifs
    · simp
    · simp

theorem acceptedBy_eq_answers (hi : Machine.initializeMachine iface info = some m₀)
    (hr : Run step ⟨m₀, .idle⟩ h x.before) (hlt : i < m₀.table.configured) :
    acceptedBy i x = answers (m₀.table.serverInfoes i).ip.uint i h x := by
  have hs := run_sequenceId hi hr hlt
  have ha := run_address hi hr hlt
  have hn : (x.before.machine.table.serverInfoes i).sequenceId.toNat = requests i h % 65536 := by
    show (x.before.row i).sequenceId.toNat = _
    rw [hs, UInt16.toNat_ofNat']
  have hip : (x.before.machine.table.serverInfoes i).ip = (m₀.table.serverInfoes i).ip := ha
  unfold acceptedBy answers
  congr 1
  funext r
  simp only [ServerTable.Accepts, hip, hn, eq_comm]

theorem configured_eq (hi : Machine.initializeMachine iface info = some m₀) (hr : Run step ⟨m₀, .idle⟩ h t) :
    m₀.table.configured = t.machine.table.configured :=
  (run_sound hi hr).extends_start.configured.symm

theorem configured_pos (hi : Machine.initializeMachine iface info = some m₀) (hr : Run step ⟨m₀, .idle⟩ h t)
    (hc : t.machine.table.configured = 1) : 0 < m₀.table.configured := by
  rw [configured_eq hi hr, hc]
  exact Nat.one_pos

end Runs

/-! The ping of a node with one server, step by step. -/

theorem step_check_one {m : Machine} (hc : m.table.configured = 1) : step ⟨m, .idle⟩ .check =
    some (⟨{ m with table := m.table.checkConnectionsIsAlive }, .ping 0⟩, []) := by
  have hlt : 0 < m.table.checkConnectionsIsAlive.configured := hc ▸ Nat.one_pos
  rw [step, if_pos rfl, pinging, if_pos hlt]

theorem step_request_one {m : Machine} (hc : m.table.configured = 1) (now : Int) :
    step ⟨m, .ping 0⟩ (.request now) =
      some (⟨(m.sendIcmpPacket 0 now).1, .idle⟩, [m.icmpPacket (m.table.serverInfoes 0)]) := by
  have hn : ¬ 0 + 1 < (m.sendIcmpPacket 0 now).1.table.configured := by
    show ¬ 0 + 1 < m.table.configured
    omega
  have hend : pinging (m.sendIcmpPacket 0 now).1 (0 + 1) = ⟨(m.sendIcmpPacket 0 now).1, .idle⟩ := by
    rw [pinging, if_neg hn]
  rw [← hend]
  rfl

end Threads

end Overlay
