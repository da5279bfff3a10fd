import Overlay.Exchanges

/-! A row should take a reply exactly if it answers the latest request to its server. The
row compares with a counter of 16 bits, and a counter that has come round to zero is the
successor of no number. -/

namespace Overlay

open ByteMemory Execution

theorem sequenceId_icmpPacket (m : Machine) (serverInfo : ServerInformation) :
    sequenceId (m.icmpPacket serverInfo).frame = serverInfo.sequenceId ∧
      ipDst (m.icmpPacket serverInfo).frame = serverInfo.ip.uint := by
  constructor
  · have h : word16 (m.icmpPacket serverInfo).frame 38 = swap16 serverInfo.sequenceId := join16_bytes _
    rw [sequenceId, h, swap16_swap16]
  · have h : word32 (m.icmpPacket serverInfo).frame 30 = swap32 serverInfo.ip.uint := join32_bytes _
    rw [ipDst, h, swap32_swap32]

namespace Threads

variable {t u : Threads} {i : Nat} {e : ThreadEvent} {out : List Sent} {h : List Moment}

/-- The number in the latest request to the row's server, as it was sent. -/
def LatestNumber (i : Nat) (h : List Moment) (number : UInt16) : Prop :=
  ∃ a x b, h = a ++ x :: b ∧ requestsTo i x = true ∧ (∀ z ∈ b, requestsTo i z = false) ∧
    ∃ sent ∈ x.output, sequenceId sent.frame = number

def TakesReply (t : Threads) (i : Nat) (now : Int) (number : UInt16) : Prop :=
  ∃ table, t.machine.table.receivePingPacket (t.row i).ip.uint now number = some table ∧
    (table.serverInfoes i).pingReceived = (t.row i).pingReceived + 1

/-- A row with an address of its own is the only one the reply could change. -/
def IgnoresReply (t : Threads) (i : Nat) (now : Int) (number : UInt16) : Prop :=
  ∃ table, t.machine.table.receivePingPacket (t.row i).ip.uint now number = some table ∧
    (t.row i).SameButRoutes (table.serverInfoes i) ∧
    ((∀ j < t.machine.table.configured, (t.row j).ip.uint = (t.row i).ip.uint → j = i) → table = t.machine.table)

theorem takesReply_iff (hw : t.machine.table.WellFormed) (hi : i < t.machine.table.configured) (now : Int)
    (number : UInt16) :
    (t.TakesReply i now number ↔ number.toNat + 1 = (t.row i).sequenceId.toNat) ∧
      (t.IgnoresReply i now number ↔ ¬ number.toNat + 1 = (t.row i).sequenceId.toNat) := by
  obtain ⟨table, ht⟩ := ServerTable.receivePingPacket_isSome hw (t.row i).ip.uint now number
  have hrow := ServerTable.same_receivePingPacket hw hi ht
  have haccepts : t.machine.table.Accepts i (t.row i).ip.uint number ↔
      number.toNat + 1 = (t.row i).sequenceId.toNat := and_iff_right rfl
  have hdiffer : (t.row i).pingReceived ≠ (t.row i).pingReceived + 1 := by simp
  rw [← haccepts]
  by_cases ha : t.machine.table.Accepts i (t.row i).ip.uint number
  · rw [if_pos ha] at hrow
    obtain ⟨_, _, hrow⟩ := hrow
    have hreceived : (table.serverInfoes i).pingReceived = (t.row i).pingReceived + 1 := by
      rw [hrow, ServerInformation.pingReceivedAt_eq]
      rfl
    refine ⟨iff_of_true ⟨table, ht, hreceived⟩ ha, iff_of_false ?_ (not_not.mpr ha)⟩
    rintro ⟨table', ht', ⟨_, _, hsame⟩, _⟩
    obtain rfl := Option.some.inj (ht.symm.trans ht')
    rw [hsame] at hreceived
    exact hdiffer hreceived
  · rw [if_neg ha] at hrow
    have hunchanged (hown : ∀ j < t.machine.table.configured, (t.row j).ip.uint = (t.row i).ip.uint → j = i) :
        table = t.machine.table := by
      have hignored : t.machine.table.receivePingPacket (t.row i).ip.uint now number = some t.machine.table :=
        ServerTable.receivePingPacket_ignored fun j hj haj => ha (hown j hj haj.1 ▸ haj)
      exact Option.some.inj (ht.symm.trans hignored)
    refine ⟨iff_of_false ?_ ha, iff_of_true ⟨table, ht, hrow, hunchanged⟩ ha⟩
    rintro ⟨table', ht', hreceived⟩
    obtain rfl := Option.some.inj (ht.symm.trans ht')
    obtain ⟨_, _, hsame⟩ := hrow
    rw [hsame] at hreceived
    exact hdiffer hreceived

theorem request_output (h : t.step e = some (u, out)) (hq : requestsTo i ⟨t, e, out⟩ = true) :
    out = [t.machine.icmpPacket (t.row i)] := by
  cases step_cases h with
  | @request k now hc =>
    have hk : t.command = .ping i := of_decide_eq_true hq
    rw [hc, Command.ping.injEq] at hk
    rw [hk]
  | _ => cases hq

section Runs

variable {iface : Fin 2 → Interface} {info : Str} {m₀ : Machine}

theorem latestNumber_iff (hi : Machine.initializeMachine iface info = some m₀)
    (hr : Run step ⟨m₀, .idle⟩ h t) (hlt : i < m₀.table.configured) {number : UInt16} :
    LatestNumber i h number ↔ 0 < requests i h ∧ number = UInt16.ofNat (requests i h - 1) := by
  have hsent {a b : List Moment} {x : Moment} (hx : h = a ++ x :: b) (hq : requestsTo i x = true)
      (hb : ∀ z ∈ b, requestsTo i z = false) :
      requests i h = requests i a + 1 ∧ ∃ sent, x.output = [sent] ∧
        sequenceId sent.frame = UInt16.ofNat (requests i a) := by
    obtain ⟨v, hr₁, he, _⟩ := (hx ▸ hr).split_at
    have hzero : requests i b = 0 := List.countP_eq_zero.mpr fun z hz => by rw [hb z hz]; decide
    refine ⟨?_, _, request_output he hq, ?_⟩
    · rw [hx, List.append_cons, requests_append, requests_append, requests_singleton, if_pos hq, hzero]
    · rw [(sequenceId_icmpPacket _ _).1, run_sequenceId hi hr₁ hlt]
  constructor
  · rintro ⟨a, x, b, hx, hq, hb, sent, hs, hnumber⟩
    obtain ⟨hn, sent', ho, hsent⟩ := hsent hx hq hb
    rw [ho, List.mem_singleton] at hs
    rw [hn, ← hnumber, hs, hsent]
    exact ⟨Nat.succ_pos _, by rw [Nat.add_sub_cancel]⟩
  · rintro ⟨hpos, rfl⟩
    obtain ⟨a, x, b, hx, hq, hb⟩ := exists_last (List.countP_pos_iff.mp hpos)
    obtain ⟨hn, sent, ho, hsent⟩ := hsent hx hq hb
    refine ⟨a, x, b, hx, hq, hb, sent, by simp [ho], ?_⟩
    rw [hsent, hn, Nat.add_sub_cancel]

/-- After a number of requests that is a positive multiple of 65536 no reply is taken, and
at every other time exactly those with the number of the latest request. -/
theorem latest_reply_taken_iff (hi : Machine.initializeMachine iface info = some m₀)
    (hr : Run step ⟨m₀, .idle⟩ h t) (hlt : i < m₀.table.configured) :
    (∀ now number, (LatestNumber i h number → t.TakesReply i now number) ∧
      (¬ LatestNumber i h number → t.IgnoresReply i now number)) ↔
      ¬ (0 < requests i h ∧ requests i h % 65536 = 0) := by
  have hs := run_sound hi hr
  have hc : i < t.machine.table.configured := hs.extends_start.configured.symm ▸ hlt
  have hcounter : (t.row i).sequenceId.toNat = requests i h % 65536 := by
    rw [run_sequenceId hi hr hlt, UInt16.toNat_ofNat']
  constructor
  · rintro hall ⟨hpos, hzero⟩
    have hlatest : LatestNumber i h (UInt16.ofNat (requests i h - 1)) :=
      (latestNumber_iff hi hr hlt).mpr ⟨hpos, rfl⟩
    have htaken := (takesReply_iff hs.wellFormed hc 0 _).1.mp ((hall 0 _).1 hlatest)
    omega
  · intro hn now number
    have hnumber : LatestNumber i h number ↔ number.toNat + 1 = (t.row i).sequenceId.toNat := by
      rw [latestNumber_iff hi hr hlt, hcounter, ← UInt16.toNat_inj, UInt16.toNat_ofNat']
      omega
    obtain ⟨htakes, hignores⟩ := takesReply_iff hs.wellFormed hc now number
    rw [hnumber, htakes, hignores]
    exact ⟨id, id⟩

theorem latest_reply_taken_after_ping : ∃ m₀ h t, Machine.initializeMachine sampleIface sampleInfo = some m₀ ∧
    Run step ⟨m₀, .idle⟩ h t ∧ requests 0 h = 1 ∧
    ∀ now number, (LatestNumber 0 h number → t.TakesReply 0 now number) ∧
      (¬ LatestNumber 0 h number → t.IgnoresReply 0 now number) := by
  obtain ⟨m₀, h, t, hi, hr, _, hc, hn⟩ := reaches sampleIface sampleInfo [.check, .request 0]
    (fun t h => t.machine.table.configured = 1 ∧ requests 0 h = 1) (by decide +kernel)
  have hlt : 0 < m₀.table.configured := configured_pos hi hr hc
  exact ⟨m₀, h, t, hi, hr, hn, (latest_reply_taken_iff hi hr hlt).mpr (by omega)⟩

theorem exists_pings {m : Machine} (hc : m.table.configured = 1) (n : Nat) :
    ∃ h m', Run step ⟨m, .idle⟩ h ⟨m', .idle⟩ ∧ requests 0 h = n ∧ m'.table.configured = 1 := by
  induction n with
  | zero => exact ⟨[], m, .start, rfl, hc⟩
  | succ n ih =>
    obtain ⟨h, m', hr, hn, hc'⟩ := ih
    have hc₁ : ({ m' with table := m'.table.checkConnectionsIsAlive } : Machine).table.configured = 1 := hc'
    refine ⟨_, _, (hr.snoc (step_check_one hc')).snoc (step_request_one hc₁ 0), ?_, hc'⟩
    rw [requests_append, requests_append, hn, requests_singleton, requests_singleton]
    simp [requestsTo]

/-- The counter of the row is zero again after 65536 requests, and the reply to the last of
them is not taken. -/
theorem latest_reply_lost_at_wrap : ∃ m₀ h t, Machine.initializeMachine sampleIface sampleInfo = some m₀ ∧
    Run step ⟨m₀, .idle⟩ h t ∧ LatestNumber 0 h 65535 ∧ ∀ now, ¬ t.TakesReply 0 now 65535 := by
  obtain ⟨m₀, h₀, m, hi, hr₀, hl, hc⟩ := Machine.reaches sampleIface sampleInfo []
    (fun m h => h.length = 0 ∧ m.table.configured = 1) (by decide +kernel)
  obtain rfl := List.eq_nil_of_length_eq_zero hl
  obtain rfl := hr₀.of_nil
  obtain ⟨h, m', hr, hn, hc'⟩ := exists_pings hc 65536
  have hlt : 0 < m.table.configured := hc ▸ Nat.one_pos
  have hcounter := run_sequenceId hi hr hlt
  rw [hn] at hcounter
  refine ⟨m, h, ⟨m', .idle⟩, hi, hr, (latestNumber_iff hi hr hlt).mpr ?_, fun now htaken => ?_⟩
  · rw [hn]
    exact ⟨by decide, by decide⟩
  · have htaken := (takesReply_iff (run_sound hi hr).wellFormed (hc' ▸ Nat.one_pos) now 65535).1.mp htaken
    rw [hcounter] at htaken
    exact absurd htaken (by decide)

end Runs

end Threads

end Overlay
