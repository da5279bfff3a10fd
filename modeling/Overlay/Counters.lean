import Overlay.Checksums
import Overlay.Duplicates
import Overlay.Reports

/-! The two counters of a row and the lost rate that is their quotient. A ping is counted
as sent with its request while the row is up, and with its reply while it is down. -/

namespace Overlay

open ByteMemory Execution Binary64

namespace Threads

/-- The replies that arrive are to requests sent before, and no two to the same one. -/
structure AnsweredOnce (t₀ : ServerTable) (origin : Nat → Nat → Nat) (h : List Moment) : Prop where
  delivered : Delivered t₀ origin h
  once : ∀ i < t₀.configured, ∀ a x b y, ¬ Copies t₀ origin h i a x b y

/-- The step counts a ping of row `i` as sent. -/
def countsSent (i : Nat) (x : Moment) : Bool :=
  if (x.before.row i).rttTime = 65535 then acceptedBy i x else requestsTo i x

def counted (i : Nat) (h : List Moment) : Nat := h.countP (countsSent i)

def received (i : Nat) (h : List Moment) : Nat := h.countP (acceptedBy i)

/-- After the history `a` the row takes a reply `x`, and behind `b`, with no request in
between, another one `y`. -/
structure TakesTwo (t₀ : ServerTable) (h : List Moment) (i : Nat) (a : List Moment) (x : Moment)
    (b : List Moment) (y : Moment) : Prop where
  history : ∃ c, h = a ++ x :: (b ++ y :: c)
  first : answers (t₀.serverInfoes i).ip.uint i a x = true
  second : answers (t₀.serverInfoes i).ip.uint i (a ++ x :: b) y = true
  no_request : ∀ z ∈ b, requestsTo i z = false

/-- No more pings are counted than 16 bits hold, and when a row that is up takes a second
reply, one of the pings counted as sent has been lost. -/
structure CountsFit (t₀ : ServerTable) (h : List Moment) (i : Nat) : Prop where
  counted_le : counted i h ≤ 65535
  lost : ∀ a x b y, TakesTwo t₀ h i a x b y → (y.before.row i).rttTime ≠ 65535 →
    received i (a ++ x :: b) < counted i (a ++ x :: b)

/-- What the step divides by to get the lost rate of row `i`. -/
def divisor (i : Nat) (x : Moment) : Option UInt16 :=
  let row := x.before.row i
  if requestsTo i x then if row.rttTime = 65535 then none else some (row.pingSent + 1)
  else if acceptedBy i x then some (if row.rttTime = 65535 then row.pingSent + 1 else row.pingSent)
  else none

/-- The counters of the rows that are up, what a peer divides by that reads them from an
advertisement, and the lost rates of all rows. -/
structure CountersRight (t : Threads) : Prop where
  up : ∀ i < t.machine.table.known, (t.row i).rttTime ≠ 65535 →
    1 ≤ (t.row i).pingReceived.toNat ∧ (t.row i).pingReceived.toNat ≤ (t.row i).pingSent.toNat
  peer : ∀ data records, t.machine.table.advertiseData = some data → decodeRecords data = some records →
    ∀ record ∈ records, record.pingSent ≠ 0
  lostRate : ∀ i < t.machine.table.known, 0 ≤ (t.row i).pingLostRate ∧ (t.row i).pingLostRate ≤ 1

end Threads

theorem lostRateOf_mem {received sent : UInt16} (hs : 0 < sent.toNat) (hr : received.toNat ≤ sent.toNat) :
    0 ≤ lostRateOf received sent ∧ lostRateOf received sent ≤ 1 := by
  have hzero : (0 : Float) = UInt16.toFloat 0 := by decide
  have hone : (1 : Float) = UInt16.toFloat 1 := by decide
  rw [lostRateOf_eq, hzero, hone]
  exact complement_mem hs hr

theorem one_mem : (0 : Float) ≤ 1 ∧ (1 : Float) ≤ 1 := by decide

/-! Rows learned from peers are never measured. -/

namespace ServerTable

variable {t u : ServerTable} {c : Nat}

def Unmeasured (row : ServerInformation) : Prop := row.rttTime = 65535 ∧ row.pingLostRate = 1

theorem Unmeasured.same {row row' : ServerInformation} (h : Unmeasured row) (hs : row.SameButRoutes row') :
    Unmeasured row' := by
  obtain ⟨_, _, rfl⟩ := hs
  exact h

def LearnedFrom (t : ServerTable) (c : Nat) : Prop :=
  ∀ i, c ≤ i → i < t.known → Unmeasured (t.serverInfoes i)

theorem LearnedFrom.updateLearningTable {serverInfo : ServerInformation} {ip : IpInfo} (h : t.LearnedFrom c)
    (he : t.updateLearningTable serverInfo ip = some u) : u.LearnedFrom c := by
  intro i hc hi
  by_cases hk : i < t.known
  · exact (h i hc hk).same (same_updateLearningTable hk he)
  · rcases updateLearningTable_cases he with ⟨id, _, rfl⟩ | ⟨_, h₀, _, rfl⟩
    · exact absurd hi hk
    · have hknown : (t.inserted serverInfo).known = t.known + 1 := known_inserted h₀
      have hi : i < (t.inserted serverInfo).known := hi
      obtain rfl : i = t.known := by omega
      have hrow : Unmeasured ((t.inserted serverInfo).serverInfoes t.known) := by
        simp [inserted, Unmeasured]
      exact hrow.same same_learnAt

theorem LearnedFrom.setRow {i : Nat} {row : ServerInformation} (h : t.LearnedFrom c) (hi : i < c) :
    (t.setRow i row).LearnedFrom c := by
  intro j hc hj
  rw [setRow_serverInfoes, Function.update_of_ne (by omega)]
  exact h j hc hj

theorem LearnedFrom.step {te : TableEvent} (h : t.LearnedFrom t.configured) (he : t.step te = some u) :
    u.LearnedFrom t.configured := by
  cases te with
  | ping clock =>
    obtain rfl := Option.some.inj he
    intro i hc hi
    rw [ping_row_of_le hc]
    exact h i hc hi
  | advertise =>
    obtain ⟨_, _, rfl⟩ := Option.map_eq_some_iff.mp he
    exact fun i hc hi => (h i hc hi).same (same_advertise hi)
  | echo ip now number =>
    exact receivePingPacket_induction (P := (LearnedFrom · t.configured)) he h fun hi hv _ hw =>
      (hv.setRow hi).updateLearningTable hw
  | advertisement advertiseData ipSrc =>
    exact receiveAdvertiseData_induction (P := (LearnedFrom · t.configured)) he h fun _ _ hv hw =>
      hv.updateLearningTable hw

end ServerTable

namespace Threads

variable {t u : Threads} {i : Nat} {e : ThreadEvent} {out : List Sent} {h : List Moment} {x : Moment}

theorem step_learned {c : Nat} (hs : t.machine.table.LearnedFrom c) (hc : t.machine.table.configured = c)
    (hp : ∀ k, t.command = .ping k → k < c) (he : t.step e = some (u, out)) : u.machine.table.LearnedFrom c := by
  subst hc
  cases step_cases he with
  | check _ =>
    intro i hi hk
    have hrow : t.machine.table.checkConnectionsIsAlive.serverInfoes i = t.machine.table.serverInfoes i :=
      if_neg (by omega)
    show ServerTable.Unmeasured (t.machine.table.checkConnectionsIsAlive.serverInfoes i)
    rw [hrow]
    exact hs i hi hk
  | request hcommand => exact hs.setRow (hp _ hcommand)
  | advertise _ hm =>
    obtain ⟨_, hd, rfl, _⟩ := Machine.step_advertise hm
    have hstep : t.machine.table.step .advertise =
        some t.machine.table.fillForwardingTable.resetLearningTable := by simp [ServerTable.step, hd]
    exact hs.step hstep
  | unknown _ _ => exact hs
  | allocate _ _ _ => exact hs
  | record _ => exact hs
  | frame hf =>
    rcases frame_table hf with htable | ⟨te, hte⟩
    · exact htable ▸ hs
    · exact hs.step hte

theorem counted_snoc : counted i (h ++ [x]) = counted i h + if countsSent i x then 1 else 0 := by
  rw [counted, counted, List.countP_append, List.countP_singleton]

theorem received_snoc : received i (h ++ [x]) = received i h + if acceptedBy i x then 1 else 0 := by
  rw [received, received, List.countP_append, List.countP_singleton]

theorem RowStep.pingSent_eq (h : RowStep i t u out e) : (u.row i).pingSent =
    (t.row i).pingSent + if countsSent i ⟨t, e, out⟩ then 1 else 0 := by
  unfold countsSent
  rcases h.told with ⟨hq, ha, now, _, _, hrow⟩ | ⟨hq, ha, now, _, _, hrow⟩ |
    ⟨hq, ha, ⟨_, _, hrow⟩ | ⟨_, _, hrow⟩⟩
  · rw [hrow, hq, ha, ServerInformation.updateServerInformation_eq]
    by_cases hdown : (t.row i).rttTime = 65535 <;> simp [hdown]
  · rw [hrow, hq, ha, ServerInformation.pingReceivedAt_eq]
    by_cases hdown : (t.row i).rttTime = 65535 <;> simp [hdown]
  · rw [hrow, hq, ha, ServerInformation.checkAlive_eq]
    simp
  · rw [hrow, hq, ha]
    simp

/-- What the fields of a measured row are like while none of its counters has wrapped. -/
structure RowRight (i : Nat) (t : Threads) : Prop where
  received_le : (t.row i).pingReceived.toNat ≤ (t.row i).pingSent.toNat
  up : (t.row i).rttTime ≠ 65535 → 1 ≤ (t.row i).pingReceived.toNat
  waiting : (t.row i).rttTime ≠ 65535 → (t.row i).isReceivedLastPing = false →
    (t.row i).pingReceived.toNat + 1 ≤ (t.row i).pingSent.toNat
  lostRate : 0 ≤ (t.row i).pingLostRate ∧ (t.row i).pingLostRate ≤ 1

theorem toNat_succ {a : UInt16} (h : a.toNat < 65535) : (a + 1).toNat = a.toNat + 1 := by
  rw [UInt16.toNat_add]
  show (a.toNat + 1) % 65536 = _
  omega

theorem RowRight.same (hr : RowRight i t) (h : (t.row i).SameButRoutes (u.row i)) : RowRight i u := by
  obtain ⟨_, _, hrow⟩ := h
  refine ⟨?_, ?_, ?_, ?_⟩
  · rw [hrow]
    exact hr.received_le
  · rw [hrow]
    exact hr.up
  · rw [hrow]
    exact hr.waiting
  · rw [hrow]
    exact hr.lostRate

theorem RowRight.check (hr : RowRight i t) (h : (t.row i).checkAlive.SameButRoutes (u.row i)) :
    RowRight i u := by
  obtain ⟨_, _, hrow⟩ := h
  rw [ServerInformation.checkAlive_eq] at hrow
  by_cases hdown : (t.row i).isReceivedLastPing = false ∧ (t.row i).pingLostNumbers = 2
  · simp only [if_pos hdown] at hrow
    refine ⟨?_, fun hup => ?_, fun hup => ?_, ?_⟩
    · rw [hrow]
      exact hr.received_le
    · rw [hrow] at hup
      exact absurd rfl hup
    · rw [hrow] at hup
      exact absurd rfl hup
    · rw [hrow]
      exact one_mem
  · simp only [if_neg hdown] at hrow
    refine ⟨?_, ?_, ?_, ?_⟩
    · rw [hrow]
      exact hr.received_le
    · rw [hrow]
      exact hr.up
    · rw [hrow]
      exact hr.waiting
    · rw [hrow]
      exact hr.lostRate

theorem RowRight.request (hr : RowRight i t) {now : Int}
    (hsmall : (t.row i).rttTime ≠ 65535 → (t.row i).pingSent.toNat < 65535)
    (h : ((t.row i).updateServerInformation t.machine.table.ipGateway now).SameButRoutes (u.row i)) :
    RowRight i u := by
  obtain ⟨_, _, hrow⟩ := h
  rw [ServerInformation.updateServerInformation_eq, ServerInformation.nextLostRate] at hrow
  by_cases hdown : (t.row i).rttTime = 65535
  · simp only [if_pos hdown] at hrow
    refine ⟨?_, fun hup => ?_, fun hup => ?_, ?_⟩
    · rw [hrow]
      exact hr.received_le
    · rw [hrow] at hup
      exact absurd hdown hup
    · rw [hrow] at hup
      exact absurd hdown hup
    · rw [hrow]
      exact hr.lostRate
  · simp only [if_neg hdown] at hrow
    have hsent := toNat_succ (hsmall hdown)
    have hle := hr.received_le
    refine ⟨?_, fun _ => ?_, fun _ _ => ?_, ?_⟩
    · rw [hrow]
      show (t.row i).pingReceived.toNat ≤ ((t.row i).pingSent + 1).toNat
      omega
    · rw [hrow]
      exact hr.up hdown
    · rw [hrow]
      show (t.row i).pingReceived.toNat + 1 ≤ ((t.row i).pingSent + 1).toNat
      omega
    · rw [hrow]
      exact lostRateOf_mem (by omega) (by omega)

theorem RowRight.accept (hr : RowRight i t) {now : Int}
    (hsmall : (t.row i).rttTime = 65535 → (t.row i).pingSent.toNat < 65535)
    (hroom : (t.row i).rttTime ≠ 65535 → (t.row i).pingReceived.toNat + 1 ≤ (t.row i).pingSent.toNat)
    (h : ((t.row i).pingReceivedAt now).SameButRoutes (u.row i)) : RowRight i u := by
  obtain ⟨_, _, hrow⟩ := h
  rw [ServerInformation.pingReceivedAt_eq] at hrow
  have hlt := (t.row i).pingSent.toNat_lt
  have hle := hr.received_le
  have hsent : (t.row i).pingReceived.toNat + 1 ≤
      (if (t.row i).rttTime = 65535 then (t.row i).pingSent + 1 else (t.row i).pingSent).toNat := by
    by_cases hdown : (t.row i).rttTime = 65535
    · rw [if_pos hdown, toNat_succ (hsmall hdown)]
      omega
    · rw [if_neg hdown]
      exact hroom hdown
  have hbound := (if (t.row i).rttTime = 65535 then (t.row i).pingSent + 1 else (t.row i).pingSent).toNat_lt
  have hreceived : ((t.row i).pingReceived + 1).toNat = (t.row i).pingReceived.toNat + 1 :=
    toNat_succ (by omega)
  refine ⟨?_, fun _ => ?_, fun _ hf => ?_, ?_⟩
  · rw [hrow]
    show ((t.row i).pingReceived + 1).toNat ≤ _
    rw [hreceived]
    exact hsent
  · rw [hrow]
    show 1 ≤ ((t.row i).pingReceived + 1).toNat
    omega
  · rw [hrow] at hf
    cases hf
  · rw [hrow]
    exact lostRateOf_mem (by omega) (by omega)

theorem row_right (hrow : RowStep i t u out e) (hr : RowRight i t)
    (hsmall : countsSent i ⟨t, e, out⟩ = true → (t.row i).pingSent.toNat < 65535)
    (hroom : acceptedBy i ⟨t, e, out⟩ = true → (t.row i).rttTime ≠ 65535 →
      (t.row i).pingReceived.toNat + 1 ≤ (t.row i).pingSent.toNat) : RowRight i u := by
  unfold countsSent at hsmall
  rcases hrow.told with ⟨hq, ha, now, hsame⟩ | ⟨hq, ha, now, hsame⟩ | ⟨_, _, hsame | hsame⟩
  · refine hr.request (fun hup => hsmall ?_) hsame
    show (if (t.row i).rttTime = 65535 then _ else _) = true
    rw [if_neg hup, hq]
  · refine hr.accept (fun hdown => hsmall ?_) (hroom ha) hsame
    show (if (t.row i).rttTime = 65535 then _ else _) = true
    rw [if_pos hdown, ha]
  · exact hr.check hsame
  · exact hr.same hsame

theorem divisor_ne_zero
    (hsmall : countsSent i ⟨t, e, out⟩ = true → (t.row i).pingSent.toNat < 65535)
    (hroom : acceptedBy i ⟨t, e, out⟩ = true → (t.row i).rttTime ≠ 65535 →
      (t.row i).pingReceived.toNat + 1 ≤ (t.row i).pingSent.toNat) :
    divisor i ⟨t, e, out⟩ ≠ some 0 := by
  unfold divisor countsSent at *
  have hzero (hs : (t.row i).pingSent.toNat < 65535) : some ((t.row i).pingSent + 1) ≠ some 0 := by
    intro he
    have hn := toNat_succ hs
    rw [Option.some.inj he] at hn
    cases hn
  by_cases hdown : (t.row i).rttTime = 65535
  · simp only [hdown, if_true] at hsmall ⊢
    cases hq : requestsTo i ⟨t, e, out⟩ with
    | true => simp
    | false =>
      cases ha : acceptedBy i ⟨t, e, out⟩ with
      | true => simpa using hzero (hsmall ha)
      | false => simp
  · simp only [hdown, if_false] at hsmall ⊢
    cases hq : requestsTo i ⟨t, e, out⟩ with
    | true => simpa using hzero (hsmall hq)
    | false =>
      cases ha : acceptedBy i ⟨t, e, out⟩ with
      | true =>
        have hle := hroom ha hdown
        have hne : (t.row i).pingSent ≠ 0 := by
          intro he
          rw [he] at hle
          exact absurd hle (by simp)
        simpa using hne
      | false => simp

theorem divisor_of_countsSent (hrow : RowStep i t u out e) (hx : countsSent i ⟨t, e, out⟩ = true) :
    divisor i ⟨t, e, out⟩ = some ((t.row i).pingSent + 1) := by
  unfold countsSent at hx
  unfold divisor
  rcases hrow.told with ⟨hq, ha, _⟩ | ⟨hq, ha, _⟩ | ⟨hq, ha, _⟩
  · by_cases hdown : (t.row i).rttTime = 65535
    · simp [hdown, ha] at hx
    · simp [hdown, hq]
  · by_cases hdown : (t.row i).rttTime = 65535
    · simp [hdown, hq, ha]
    · simp [hdown, hq] at hx
  · simp [hq, ha] at hx

section Runs

variable {iface : Fin 2 → Interface} {info : Str} {m₀ : Machine}

theorem exists_reply_of_flag (hi : Machine.initializeMachine iface info = some m₀)
    (hr : Run step ⟨m₀, .idle⟩ h t) (hlt : i < m₀.table.configured)
    (hflag : (t.row i).isReceivedLastPing = true) : ∃ a x b, h = a ++ x :: b ∧ acceptedBy i x = true ∧
      ∀ z ∈ b, requestsTo i z = false := by
  induction hr with
  | start =>
    obtain ⟨serverId, hs⟩ := start_row hi hlt
    rw [hs] at hflag
    cases hflag
  | @snoc h v w e o hr he ih =>
    have hkeep (hv : (v.row i).isReceivedLastPing = true) (hq : requestsTo i ⟨v, e, o⟩ = false) :
        ∃ a x b, h ++ [⟨v, e, o⟩] = a ++ x :: b ∧ acceptedBy i x = true ∧ ∀ z ∈ b, requestsTo i z = false := by
      obtain ⟨a, x, b, rfl, hx, hb⟩ := ih hv
      refine ⟨a, x, b ++ [⟨v, e, o⟩], by simp, hx, fun z hz => ?_⟩
      rcases List.mem_append.mp hz with hz | hz
      · exact hb z hz
      · rw [List.mem_singleton.mp hz]
        exact hq
    rcases (run_row hi hr hlt he).told with ⟨_, _, now, _, _, hrow⟩ | ⟨_, ha, _⟩ |
      ⟨hq, _, ⟨_, _, hrow⟩ | ⟨_, _, hrow⟩⟩
    · rw [hrow, ServerInformation.updateServerInformation_eq] at hflag
      cases hflag
    · exact ⟨h, _, [], rfl, ha, fun _ hz => absurd hz (by simp)⟩
    · rw [hrow, ServerInformation.checkAlive_eq] at hflag
      exact hkeep hflag hq
    · rw [hrow] at hflag
      exact hkeep hflag hq

theorem run_pingSent (hi : Machine.initializeMachine iface info = some m₀)
    (hr : Run step ⟨m₀, .idle⟩ h t) (hlt : i < m₀.table.configured) :
    (t.row i).pingSent = UInt16.ofNat (counted i h) := by
  induction hr with
  | start =>
    obtain ⟨serverId, hs⟩ := start_row hi hlt
    rw [hs]
    rfl
  | snoc hr he ih =>
    rw [(run_row hi hr hlt he).pingSent_eq, ih, counted_snoc]
    split_ifs
    · simp
    · simp

theorem run_pingReceived (hi : Machine.initializeMachine iface info = some m₀)
    (hr : Run step ⟨m₀, .idle⟩ h t) (hlt : i < m₀.table.configured) :
    (t.row i).pingReceived = UInt16.ofNat (received i h) := by
  induction hr with
  | start =>
    obtain ⟨serverId, hs⟩ := start_row hi hlt
    rw [hs]
    rfl
  | snoc hr he ih =>
    rw [(run_row hi hr hlt he).pingReceived_eq, ih, received_snoc]
    split_ifs
    · simp
    · simp

theorem CountsFit.of_append {t₀ : ServerTable} {k : List Moment} (hf : CountsFit t₀ (h ++ k) i) :
    CountsFit t₀ h i := by
  refine ⟨?_, fun a x b y ht => hf.lost a x b y ?_⟩
  · have hle := hf.counted_le
    rw [counted, List.countP_append] at hle
    exact (Nat.le_add_right _ _).trans hle
  · obtain ⟨c, hc⟩ := ht.history
    exact ⟨⟨c ++ k, by simp [hc]⟩, ht.first, ht.second, ht.no_request⟩

theorem pingSent_lt (hi : Machine.initializeMachine iface info = some m₀)
    (hr : Run step ⟨m₀, .idle⟩ h x.before) (hlt : i < m₀.table.configured)
    (hsmall : counted i (h ++ [x]) ≤ 65535) (hx : countsSent i x = true) :
    (x.before.row i).pingSent.toNat < 65535 := by
  rw [counted_snoc, if_pos hx] at hsmall
  rw [run_pingSent hi hr hlt, UInt16.toNat_ofNat']
  omega

/-- The flag tells whether a reply is the first one since the last request. -/
theorem room_of_accepted (hi : Machine.initializeMachine iface info = some m₀) {c : List Moment}
    (hr : Run step ⟨m₀, .idle⟩ (h ++ x :: c) t) (hfit : CountsFit m₀.table (h ++ x :: c) i)
    (hlt : i < m₀.table.configured) (hright : RowRight i x.before) (ha : acceptedBy i x = true)
    (hup : (x.before.row i).rttTime ≠ 65535) :
    (x.before.row i).pingReceived.toNat + 1 ≤ (x.before.row i).pingSent.toNat := by
  obtain ⟨v, hr₁, he, _⟩ := hr.split_at
  cases hflag : (x.before.row i).isReceivedLastPing with
  | false => exact hright.waiting hup hflag
  | true =>
    have hle := hfit.of_append.counted_le
    rw [run_pingSent hi hr₁ hlt, run_pingReceived hi hr₁ hlt, UInt16.toNat_ofNat', UInt16.toNat_ofNat']
    obtain ⟨a, y, b, rfl, hy, hb⟩ := exists_reply_of_flag hi hr₁ hlt hflag
    obtain ⟨_, hr₂, _, _⟩ := hr₁.split_at
    rw [acceptedBy_eq_answers hi hr₂ hlt] at hy
    rw [acceptedBy_eq_answers hi hr₁ hlt] at ha
    have hlost := hfit.lost a y b x ⟨⟨c, by simp⟩, hy, ha, hb⟩ hup
    omega

theorem run_right (hi : Machine.initializeMachine iface info = some m₀) (hr : Run step ⟨m₀, .idle⟩ h t)
    (hfit : CountsFit m₀.table h i) (hlt : i < m₀.table.configured) : RowRight i t := by
  induction hr with
  | start =>
    obtain ⟨serverId, hrow⟩ := start_row hi hlt
    refine ⟨?_, fun hup => ?_, fun hup => ?_, ?_⟩
    · rw [hrow]
      exact Nat.le_refl 0
    · rw [hrow] at hup
      exact absurd rfl hup
    · rw [hrow] at hup
      exact absurd rfl hup
    · rw [hrow]
      exact one_mem
  | @snoc h v w e o hr he ih =>
    have hright := ih hfit.of_append
    exact row_right (run_row hi hr hlt he) hright (pingSent_lt (x := ⟨v, e, o⟩) hi hr hlt hfit.counted_le)
      (room_of_accepted (x := ⟨v, e, o⟩) (c := []) hi (hr.snoc he) hfit hlt hright)

theorem run_learned (hi : Machine.initializeMachine iface info = some m₀)
    (hr : Run step ⟨m₀, .idle⟩ h t) : t.machine.table.LearnedFrom m₀.table.configured := by
  induction hr with
  | start =>
    have hinitial := (Machine.run_table hi .start).1
    intro i hc hk
    have hknown : m₀.table.known = m₀.table.configured := congrArg Int.toNat hinitial.counts
    have hk : i < m₀.table.known := hk
    omega
  | snoc hr he ih =>
    have hs := run_sound hi hr
    have hc := hs.extends_start.configured
    exact step_learned ih hc (fun k hk => hc ▸ hs.ping_lt k hk) he

theorem countersRight_of_rows (hi : Machine.initializeMachine iface info = some m₀)
    (hr : Run step ⟨m₀, .idle⟩ h t) (hrows : ∀ i < m₀.table.configured, RowRight i t) : CountersRight t := by
  have hc := (run_sound hi hr).extends_start.configured
  have hl := run_learned hi hr
  have hup : ∀ i < m₀.table.configured, (t.row i).rttTime ≠ 65535 →
      1 ≤ (t.row i).pingReceived.toNat ∧ (t.row i).pingReceived.toNat ≤ (t.row i).pingSent.toNat :=
    fun i hlt hu => ⟨(hrows i hlt).up hu, (hrows i hlt).received_le⟩
  refine ⟨fun i hk hu => ?_, fun data records hd hrec record hm => ?_, fun i hk => ?_⟩
  · by_cases hlt : i < m₀.table.configured
    · exact hup i hlt hu
    · exact absurd (hl i (by omega) hk).1 hu
  · rw [ServerTable.decodeRecords_advertiseData hd, Option.some.injEq] at hrec
    rw [← hrec, List.mem_map] at hm
    obtain ⟨row, hrow, rfl⟩ := hm
    obtain ⟨hrange, hlive⟩ := List.mem_filter.mp hrow
    obtain ⟨i, hlt, rfl⟩ := List.mem_map.mp hrange
    rw [List.mem_range, hc] at hlt
    obtain ⟨h₁, h₂⟩ := hup i hlt (of_decide_eq_true hlive)
    intro hz
    have hz : (t.row i).pingSent = 0 := hz
    rw [hz] at h₂
    exact absurd (h₁.trans h₂) (by decide)
  · by_cases hlt : i < m₀.table.configured
    · exact (hrows i hlt).lostRate
    · have hrate : (t.row i).pingLostRate = 1 := (hl i (by omega) hk).2
      rw [hrate]
      exact one_mem

theorem exists_zero_divisor (hi : Machine.initializeMachine iface info = some m₀)
    (hr : Run step ⟨m₀, .idle⟩ h t) (hlt : i < m₀.table.configured) (hn : 65535 < counted i h) :
    ∃ x ∈ h, divisor i x = some 0 := by
  obtain ⟨a, x, b, rfl, hx, hcount⟩ := exists_at_count hn
  obtain ⟨_, hr₁, he, _⟩ := hr.split_at
  have hzero : (x.before.row i).pingSent + 1 = 0 := by
    rw [run_pingSent hi hr₁ hlt, counted, hcount]
    decide
  exact ⟨x, by simp, by rw [divisor_of_countsSent (run_row hi hr₁ hlt he) hx, hzero]⟩

/-- The average of two round trip times is no 65535, so the row stays up with the reply. -/
theorem RowStep.room (hrow : RowStep i t u out e) (ha : acceptedBy i ⟨t, e, out⟩ = true)
    (hup : (t.row i).rttTime ≠ 65535) (hright : (u.row i).rttTime ≠ 65535 →
      1 ≤ (u.row i).pingReceived.toNat ∧ (u.row i).pingReceived.toNat ≤ (u.row i).pingSent.toNat) :
    (t.row i).pingReceived.toNat + 1 ≤ (t.row i).pingSent.toNat := by
  rcases hrow.told with ⟨_, hn, _⟩ | ⟨_, _, now, _, _, hsame⟩ | ⟨_, hn, _⟩
  · rw [hn] at ha
    cases ha
  · rw [hsame, ServerInformation.pingReceivedAt_eq] at hright
    simp only [if_neg hup] at hright
    obtain ⟨hpos, hle⟩ := hright (average_ne hup _)
    have hlt := (t.row i).pingReceived.toNat_lt
    have hsum : ((t.row i).pingReceived + 1).toNat = ((t.row i).pingReceived.toNat + 1) % 65536 := UInt16.toNat_add ..
    omega
  · rw [hn] at ha
    cases ha

theorem countsFit_of_right (hi : Machine.initializeMachine iface info = some m₀)
    (hr : Run step ⟨m₀, .idle⟩ h t) (hlt : i < m₀.table.configured) (hv : Visits h t CountersRight)
    (hsmall : counted i h ≤ 65535) : CountsFit m₀.table h i ∧ received i h ≤ counted i h := by
  induction hr with
  | start => exact ⟨⟨hsmall, fun a x b y ht => absurd ht.history (by simp)⟩, Nat.le_refl _⟩
  | @snoc h v w e o hr he ih =>
    obtain ⟨hv, hw⟩ := Visits.snoc.mp hv
    have hle : counted i h ≤ counted i (h ++ [⟨v, e, o⟩]) := by
      rw [counted_snoc]
      exact Nat.le_add_right _ _
    obtain ⟨hfit, hreceived⟩ := ih hv (hle.trans hsmall)
    have hrow := run_row hi hr hlt he
    have hlost (ha : acceptedBy i ⟨v, e, o⟩ = true) (hup : (v.row i).rttTime ≠ 65535) :
        received i h < counted i h := by
      have hs := run_sound hi (hr.snoc he)
      have hroom := hrow.room ha hup fun hu =>
        hw.up i (hlt.trans_le (hs.extends_start.configured ▸ hs.wellFormed.configured_le_known)) hu
      rw [run_pingSent hi hr hlt, run_pingReceived hi hr hlt, UInt16.toNat_ofNat', UInt16.toNat_ofNat'] at hroom
      omega
    refine ⟨⟨hsmall, fun a x b y ht hup => ?_⟩, ?_⟩
    · obtain ⟨c, hc⟩ := ht.history
      have hc : h ++ [⟨v, e, o⟩] = (a ++ x :: b) ++ y :: c := by simp [hc]
      rcases snoc_eq_append_cons hc with ⟨rfl, rfl, -⟩ | ⟨d, -, hd⟩
      · exact hlost (by rw [acceptedBy_eq_answers hi hr hlt, ht.second]) hup
      · exact hfit.lost a x b y ⟨⟨d, by simp [hd]⟩, ht.first, ht.second, ht.no_request⟩ hup
    · cases ha : acceptedBy i ⟨v, e, o⟩ with
      | false =>
        rw [received_snoc, ha]
        exact hreceived.trans hle
      | true =>
        rw [received_snoc, counted_snoc, ha, if_pos rfl]
        by_cases hdown : (v.row i).rttTime = 65535
        · have hcounts : countsSent i ⟨v, e, o⟩ = true := (if_pos hdown).trans ha
          rw [if_pos hcounts]
          omega
        · have := hlost ha hdown
          omega

theorem requestsTo_of_reply {r : UInt32 × UInt16} (hx : echoReply x = some r) : requestsTo i x = false := by
  obtain ⟨t, e, out⟩ := x
  obtain ⟨data, now, rfl⟩ := echoReply_isFrame (by rw [hx]; rfl)
  rfl

/-- Two replies of one number that answer different requests: those are 65536 apart. -/
theorem AnsweredOnce.requests_lt {t₀ : ServerTable} {origin : Nat → Nat → Nat} (ha : AnsweredOnce t₀ origin h)
    (hlt : i < t₀.configured) {a b : List Moment} {y : Moment} (ht : TakesTwo t₀ h i a x b y) :
    65536 < requests i a := by
  obtain ⟨c, hc⟩ := ht.history
  have hc' : h = (a ++ x :: b) ++ y :: c := by simp [hc]
  obtain ⟨number, hx, hn⟩ := echoReply_of_answers ht.first
  obtain ⟨number', hy, hn'⟩ := echoReply_of_answers ht.second
  obtain ⟨hsent, hnumber⟩ := ha.delivered i hlt a x _ hc number hx
  obtain ⟨hsent', hnumber'⟩ := ha.delivered i hlt (a ++ x :: b) y c hc' number' hy
  have hne : origin i a.length ≠ origin i (a ++ x :: b).length := fun he => ha.once i hlt a x b y
    ⟨⟨c, hc⟩, fromServer_of_answers ht.first, fromServer_of_answers ht.second, he⟩
  have hsame : requests i (a ++ x :: b) = requests i a := by
    have hb : b.countP (requestsTo i) = 0 := List.countP_eq_zero.mpr fun z hz => by simp [ht.no_request z hz]
    rw [requests, List.countP_append, List.countP_cons, hb, requestsTo_of_reply hx]
    rfl
  rw [hsame] at hn' hsent'
  rw [hnumber, UInt16.toNat_ofNat'] at hn
  rw [hnumber', UInt16.toNat_ofNat'] at hn'
  omega

/-- The counters of a run are right as long as no row counts 65536 pings as sent, and
none that is up takes a second reply after a request with no ping lost. Where each request is
answered at most once, a second reply takes more than 65536 requests. -/
theorem counters_right_iff (hi : Machine.initializeMachine iface info = some m₀)
    (hr : Run step ⟨m₀, .idle⟩ h t) :
    ((Visits h t CountersRight ∧ ∀ x ∈ h, ∀ i < m₀.table.configured, divisor i x ≠ some 0) ↔
      ∀ i < m₀.table.configured, CountsFit m₀.table h i) ∧
    ∀ origin, AnsweredOnce m₀.table origin h → ∀ i < m₀.table.configured, ∀ a x b y,
      TakesTwo m₀.table h i a x b y → 65536 < requests i a := by
  refine ⟨⟨?_, fun hfit => ?_⟩, fun origin honce i hlt a x b y ht => honce.requests_lt hlt ht⟩
  · rintro ⟨hv, hdivisor⟩ i hlt
    refine (countsFit_of_right hi hr hlt hv ?_).1
    by_contra hn
    obtain ⟨x, hx, hzero⟩ := exists_zero_divisor hi hr hlt (Nat.lt_of_not_le hn)
    exact hdivisor x hx i hlt hzero
  · have hrows {a b : List Moment} {u : Threads} (hab : h = a ++ b) (hr₁ : Run step ⟨m₀, .idle⟩ a u) :
        ∀ i < m₀.table.configured, RowRight i u := fun i hlt =>
      run_right hi hr₁ (CountsFit.of_append (hab ▸ hfit i hlt)) hlt
    refine ⟨⟨fun x hx => ?_, ?_⟩, fun x hx i hlt => ?_⟩
    · obtain ⟨a, b, hab⟩ := List.append_of_mem hx
      obtain ⟨_, hr₁, _, _⟩ := (hab ▸ hr).split_at
      exact countersRight_of_rows hi hr₁ (hrows hab hr₁)
    · exact countersRight_of_rows hi hr (hrows (b := []) (by simp) hr)
    · obtain ⟨a, b, hab⟩ := List.append_of_mem hx
      obtain ⟨_, hr₁, _, _⟩ := (hab ▸ hr).split_at
      have hle : counted i (a ++ [x]) ≤ 65535 :=
        (CountsFit.of_append (k := b) (by simpa [hab] using hfit i hlt)).counted_le
      exact divisor_ne_zero (pingSent_lt hi hr₁ hlt hle)
        (room_of_accepted hi (hab ▸ hr) (hab ▸ hfit i hlt) hlt (hrows hab hr₁ i hlt))

theorem sampleEcho_valid (number : UInt16) : ValidIcmp (sampleEcho 0x08080808 number 0).data ∧
    ipSrc (sampleEcho 0x08080808 number 0).data = 0x08080808 ∧
    sequenceId (sampleEcho 0x08080808 number 0).data = number := by
  obtain ⟨hv, hs, hn⟩ := validIcmp_reply ((sampleEcho 0x08080808 0 0).data.take 34) number
    (by decide +kernel) (by decide +kernel) (by decide +kernel) (by decide +kernel) (by decide +kernel)
    (by decide +kernel) (by decide +kernel)
  exact ⟨hv, hs.trans (by decide +kernel), hn⟩

/-- One more ping of a node with one server, as far as its check and its request. -/
theorem exists_ping (hi : Machine.initializeMachine iface info = some m₀) (hc : m₀.table.configured = 1)
    {m : Machine} (hr : Run step ⟨m₀, .idle⟩ h ⟨m, .idle⟩) :
    ∃ c x m', Run step ⟨m₀, .idle⟩ (h ++ [c] ++ [x]) ⟨m', .idle⟩ ∧ echoReply c = none ∧ echoReply x = none ∧
      requests 0 (h ++ [c] ++ [x]) = requests 0 h + 1 ∧ received 0 (h ++ [c] ++ [x]) = received 0 h ∧
      counted 0 (h ++ [c] ++ [x]) =
        counted 0 h + (if (m'.table.serverInfoes 0).rttTime = 65535 then 0 else 1) ∧
      (m'.table.serverInfoes 0).pingSendTime = 0 ∧
      (m'.table.serverInfoes 0).rttTime = (m.table.serverInfoes 0).checkAlive.rttTime := by
  have hcm : m.table.configured = 1 := (configured_eq hi hr).symm.trans hc
  set m₁ : Machine := { m with table := m.table.checkConnectionsIsAlive } with hm₁
  have hcm₁ : m₁.table.configured = 1 := hcm
  have hr₁ := hr.snoc (step_check_one hcm)
  have hr₂ := hr₁.snoc (step_request_one hcm₁ 0)
  have hrow₁ : m₁.table.serverInfoes 0 = (m.table.serverInfoes 0).checkAlive := if_pos (hcm ▸ Nat.one_pos)
  have hrow₂ : (m₁.sendIcmpPacket 0 0).1.table.serverInfoes 0 =
      (m₁.table.serverInfoes 0).updateServerInformation m₁.table.ipGateway 0 := m₁.sendIcmpPacket_row 0 0
  have hrtt : ((m₁.sendIcmpPacket 0 0).1.table.serverInfoes 0).rttTime = (m₁.table.serverInfoes 0).rttTime := by
    rw [hrow₂, ServerInformation.updateServerInformation_eq]
  have hcheck : countsSent 0 ⟨⟨m, .idle⟩, .check, []⟩ = false := by
    unfold countsSent
    split_ifs <;> rfl
  refine ⟨_, _, _, hr₂, rfl, rfl, ?_, ?_, ?_, ?_, ?_⟩
  · rw [requests_append, requests_append, requests_singleton, requests_singleton]
    rfl
  · rw [received_snoc, received_snoc]
    rfl
  · rw [counted_snoc, counted_snoc, hcheck, hrtt]
    have hrequest : countsSent 0 ⟨⟨m₁, .ping 0⟩, .request 0, [m₁.icmpPacket (m₁.table.serverInfoes 0)]⟩ =
        if (m₁.table.serverInfoes 0).rttTime = 65535 then false else true := rfl
    rw [hrequest]
    by_cases hdown : (m₁.table.serverInfoes 0).rttTime = 65535
    · simp [hdown]
    · simp [hdown]
  · rw [hrow₂, ServerInformation.updateServerInformation_eq]
  · rw [hrtt, hrow₁]

theorem up_of_accepted {data : Bytes} (hrow : RowStep i t u out (.frame data 0))
    (ha : acceptedBy i ⟨t, .frame data 0, out⟩ = true) (htime : (t.row i).pingSendTime = 0) :
    (u.row i).pingSendTime = 0 ∧ (u.row i).isReceivedLastPing = true ∧ (u.row i).rttTime ≠ 65535 := by
  cases hrow with
  | other _ _ hnot => rw [ha] at hnot; cases hnot
  | accept _ _ hsame =>
    obtain ⟨_, _, hsame⟩ := hsame
    rw [hsame, ServerInformation.pingReceivedAt_eq]
    refine ⟨htime, rfl, ?_⟩
    show (if (t.row i).rttTime = 65535 then milliseconds (0 - (t.row i).pingSendTime) else _) ≠ 65535
    by_cases hdown : (t.row i).rttTime = 65535
    · rw [if_pos hdown, htime]
      decide
    · rw [if_neg hdown]
      exact average_ne hdown _

/-- A reply to the latest request. -/
theorem exists_reply (hi : Machine.initializeMachine iface info = some m₀)
    (hip : (m₀.table.serverInfoes 0).ip.uint = 0x08080808) (hlt : 0 < m₀.table.configured) {m : Machine}
    (hr : Run step ⟨m₀, .idle⟩ h ⟨m, .idle⟩) {number : UInt16}
    (hn : number.toNat + 1 = requests 0 h % 65536) (htime : (m.table.serverInfoes 0).pingSendTime = 0) :
    ∃ x m', Run step ⟨m₀, .idle⟩ (h ++ [x]) ⟨m', .idle⟩ ∧ echoReply x = some (0x08080808, number) ∧
      requests 0 (h ++ [x]) = requests 0 h ∧ received 0 (h ++ [x]) = received 0 h + 1 ∧
      counted 0 (h ++ [x]) = counted 0 h + (if (m.table.serverInfoes 0).rttTime = 65535 then 1 else 0) ∧
      (m'.table.serverInfoes 0).pingSendTime = 0 ∧ (m'.table.serverInfoes 0).isReceivedLastPing = true ∧
      (m'.table.serverInfoes 0).rttTime ≠ 65535 := by
  set data := (sampleEcho 0x08080808 number 0).data with hdata
  obtain ⟨hicmp, hsrc, hnumber⟩ := sampleEcho_valid number
  obtain ⟨table, ht⟩ := ServerTable.receivePingPacket_isSome (run_sound hi hr).wellFormed (ipSrc data) 0
    (sequenceId data)
  have he := step_echo (t := ⟨m, .idle⟩) hicmp ht
  have hreply : echoReply ⟨⟨m, .idle⟩, .frame data 0, []⟩ = some (0x08080808, number) := by
    rw [echoReply_of_validIcmp hicmp, hsrc, hnumber]
  have haccepted : acceptedBy 0 ⟨⟨m, .idle⟩, .frame data 0, []⟩ = true := by
    rw [acceptedBy_eq_answers hi hr hlt, answers, hreply, Option.any_some]
    exact decide_eq_true ⟨hip.symm, hn⟩
  have hcounts : countsSent 0 ⟨⟨m, .idle⟩, .frame data 0, []⟩ =
      if (m.table.serverInfoes 0).rttTime = 65535 then true else false := by
    unfold countsSent
    rw [haccepted]
    rfl
  refine ⟨_, _, hr.snoc he, hreply, ?_, ?_, ?_, up_of_accepted (run_row hi hr hlt he) haccepted htime⟩
  · rw [requests_append]
    rfl
  · rw [received_snoc, haccepted]
    rfl
  · rw [counted_snoc, hcounts]
    by_cases hdown : (m.table.serverInfoes 0).rttTime = 65535
    · simp [hdown]
    · simp [hdown]

/-- A ping takes three steps, the last of which is its reply. -/
def RepliesInTurn (h : List Moment) : Prop :=
  ∀ a x c, h = a ++ x :: c → ∀ address number, echoReply x = some (address, number) →
    a.length % 3 = 2 ∧ requests 0 a = a.length / 3 + 1 ∧ number = UInt16.ofNat (a.length / 3)

theorem RepliesInTurn.snoc (hh : RepliesInTurn h) (hx : ∀ address number, echoReply x = some (address, number) →
    h.length % 3 = 2 ∧ requests 0 h = h.length / 3 + 1 ∧ number = UInt16.ofNat (h.length / 3)) :
    RepliesInTurn (h ++ [x]) := by
  intro a y c hsplit address number hy
  rcases snoc_eq_append_cons hsplit with ⟨rfl, rfl, -⟩ | ⟨d, -, hd⟩
  · exact hx address number hy
  · exact hh a y d hd address number hy

theorem RepliesInTurn.answeredOnce {t₀ : ServerTable} (hh : RepliesInTurn h) (hc : t₀.configured = 1) :
    AnsweredOnce t₀ (fun _ place => place / 3) h := by
  refine ⟨fun i hlt a x c hsplit number hx => ?_, fun i hlt a x b y hcopies => ?_⟩
  · obtain rfl : i = 0 := by omega
    obtain ⟨_, hsent, hnumber⟩ := hh a x c hsplit _ number hx
    exact ⟨by show a.length / 3 < requests 0 a; omega, hnumber⟩
  · obtain ⟨c, hsplit⟩ := hcopies.history
    have hsplit' : h = (a ++ x :: b) ++ y :: c := by simp [hsplit]
    obtain ⟨⟨_, number⟩, hx, _⟩ := (Option.any_eq_true _ _).mp hcopies.first
    obtain ⟨⟨_, number'⟩, hy, _⟩ := (Option.any_eq_true _ _).mp hcopies.second
    have hplace := (hh a x _ hsplit _ _ hx).1
    have hplace' := (hh (a ++ x :: b) y c hsplit' _ _ hy).1
    have hsame : a.length / 3 = (a ++ x :: b).length / 3 := hcopies.origin_eq
    rw [List.length_append, List.length_cons] at hplace' hsame
    omega

theorem exists_answered_pings (hi : Machine.initializeMachine iface info = some m₀)
    (hc : m₀.table.configured = 1) (hip : (m₀.table.serverInfoes 0).ip.uint = 0x08080808) {n : Nat}
    (hn : n ≤ 65535) : ∃ h m, Run step ⟨m₀, .idle⟩ h ⟨m, .idle⟩ ∧ h.length = 3 * n ∧ requests 0 h = n ∧
      counted 0 h = n ∧ RepliesInTurn h ∧ (0 < n → (m.table.serverInfoes 0).isReceivedLastPing = true ∧
        (m.table.serverInfoes 0).rttTime ≠ 65535) := by
  have hlt : 0 < m₀.table.configured := hc ▸ Nat.one_pos
  induction n with
  | zero =>
    refine ⟨[], m₀, .start, rfl, rfl, rfl, fun a x c hx => ?_, fun h => absurd h (Nat.lt_irrefl 0)⟩
    simp at hx
  | succ n ih =>
    obtain ⟨h, m, hr, hlen, hq, hs, ha, _⟩ := ih (by omega)
    obtain ⟨c, x, m', hr', hnone, hnone', hq', -, hs', htime, _⟩ := exists_ping hi hc hr
    have hnext : (UInt16.ofNat n).toNat + 1 = requests 0 (h ++ [c] ++ [x]) % 65536 := by
      rw [UInt16.toNat_ofNat', hq', hq]
      omega
    obtain ⟨y, m'', hr'', hreply, hq'', -, hs'', -, hup⟩ := exists_reply hi hip hlt hr' hnext htime
    have hlen' : (h ++ [c] ++ [x]).length = 3 * n + 2 := by simp [hlen]
    refine ⟨_, _, hr'', by rw [List.length_append, hlen']; rfl, by rw [hq'', hq', hq], ?_, ?_, fun _ => hup⟩
    · rw [hs'', hs', hs]
      split_ifs <;> omega
    · refine ((ha.snoc fun address number hc => ?_).snoc fun address number hx => ?_).snoc fun address number hy => ?_
      · rw [hnone] at hc
        cases hc
      · rw [hnone'] at hx
        cases hx
      · obtain ⟨-, rfl⟩ := Prod.mk.inj (Option.some.inj (hreply.symm.trans hy))
        have hdiv : (3 * n + 2) / 3 = n := by omega
        rw [hlen', hq', hq, hdiv]
        exact ⟨by omega, rfl, rfl⟩

/-- Two pings answered and a third one lost. -/
theorem counters_right_at_first : ∃ m₀ h t, Machine.initializeMachine sampleIface sampleInfo = some m₀ ∧
    Run step ⟨m₀, .idle⟩ h t ∧ AnsweredOnce m₀.table (fun _ place => place / 3) h ∧ counted 0 h = 3 ∧
    received 0 h = 2 ∧ Visits h t CountersRight ∧ ∀ x ∈ h, ∀ i < m₀.table.configured, divisor i x ≠ some 0 := by
  obtain ⟨m₀, h, t, hi, hr, _, hc, hs, hreceived, hreply, hrequest⟩ := reaches sampleIface sampleInfo
    [.check, .request 0, .frame (sampleEcho 0x08080808 0 0).data 0, .check, .request 0,
      .frame (sampleEcho 0x08080808 1 0).data 0, .check, .request 0]
    (fun t h => t.machine.table.configured = 1 ∧ counted 0 h = 3 ∧ received 0 h = 2 ∧
      h.map echoReply = [none, none, some (0x08080808, 0), none, none, some (0x08080808, 1), none, none] ∧
      h.map (requestsTo 0) = [false, true, false, false, true, false, false, true]) (by decide +kernel)
  have hconfigured : m₀.table.configured = 1 := (configured_eq hi hr).trans hc
  have hturn : RepliesInTurn h := by
    intro a x c hx address number hecho
    obtain ⟨n, hn, hlen, hat, hcount⟩ := reply_place hreply hrequest hx hecho
    simp only [List.length_cons, List.length_nil] at hn
    interval_cases n <;> simp at hat hcount <;> simp [hlen, hcount, ← hat.2]
  have honce := hturn.answeredOnce hconfigured
  have hfit : ∀ i < m₀.table.configured, CountsFit m₀.table h i := by
    intro i hlt
    refine ⟨?_, fun a x b y ht => ?_⟩
    · obtain rfl : i = 0 := by omega
      omega
    · have hfew : requests i a ≤ h.length := by
        obtain ⟨c, hx⟩ := ht.history
        rw [hx, List.length_append]
        exact List.countP_le_length.trans (Nat.le_add_right _ _)
      have hlen := congrArg List.length hreply
      have hmany := honce.requests_lt hlt ht
      rw [List.length_map] at hlen
      simp only [List.length_cons, List.length_nil] at hlen
      omega
  obtain ⟨hv, hdivisor⟩ := (counters_right_iff hi hr).1.mpr hfit
  exact ⟨m₀, h, t, hi, hr, honce, hs, hreceived, hv, hdivisor⟩

theorem exists_sample_start : ∃ m₀, Machine.initializeMachine sampleIface sampleInfo = some m₀ ∧
    m₀.table.configured = 1 ∧ (m₀.table.serverInfoes 0).ip.uint = 0x08080808 ∧
    (m₀.table.serverInfoes 0).rttTime = 65535 := by
  obtain ⟨m₀, h, m, hi, hr, hl, hp⟩ := Machine.reaches sampleIface sampleInfo []
    (fun m h => h.length = 0 ∧ m.table.configured = 1 ∧ (m.table.serverInfoes 0).ip.uint = 0x08080808 ∧
      (m.table.serverInfoes 0).rttTime = 65535) (by decide +kernel)
  obtain rfl := List.eq_nil_of_length_eq_zero hl
  obtain rfl := hr.of_nil
  exact ⟨m, hi, hp⟩

/-- With every ping answered once, the 65536th is counted by its request, which divides by
a counter that is zero again. -/
theorem zero_divisor_after_65536 : ∃ m₀ h t, Machine.initializeMachine sampleIface sampleInfo = some m₀ ∧
    Run step ⟨m₀, .idle⟩ h t ∧ AnsweredOnce m₀.table (fun _ place => place / 3) h ∧ requests 0 h = 65536 ∧
    ∃ x ∈ h, divisor 0 x = some 0 := by
  obtain ⟨m₀, hi, hc, hip, _⟩ := exists_sample_start
  obtain ⟨h, m, hr, hlen, hq, hs, ha, hup⟩ := exists_answered_pings hi hc hip (Nat.le_refl 65535)
  obtain ⟨hflag, hlive⟩ := hup (by decide)
  obtain ⟨c, x, m', hr', hnone, hnone', hq', -, hs', -, hkeep⟩ := exists_ping hi hc hr
  rw [hkeep, ServerInformation.checkAlive_eq] at hs'
  simp only [hflag, Bool.true_eq_false, false_and, if_false, if_neg hlive, hs] at hs'
  have hturn : RepliesInTurn (h ++ [c] ++ [x]) := by
    refine (ha.snoc fun address number hc => ?_).snoc fun address number hx => ?_
    · rw [hnone] at hc
      cases hc
    · rw [hnone'] at hx
      cases hx
  exact ⟨m₀, h ++ [c] ++ [x], ⟨m', .idle⟩, hi, hr', hturn.answeredOnce hc, by rw [hq', hq],
    exists_zero_divisor hi hr' (hc ▸ Nat.one_pos) (by omega)⟩

theorem exists_lost_pings (hi : Machine.initializeMachine iface info = some m₀)
    (hc : m₀.table.configured = 1) (hdown : (m₀.table.serverInfoes 0).rttTime = 65535) (n : Nat) :
    ∃ h m, Run step ⟨m₀, .idle⟩ h ⟨m, .idle⟩ ∧ h.length = 2 * n ∧ requests 0 h = n ∧ received 0 h = 0 ∧
      counted 0 h = 0 ∧ (∀ z ∈ h, echoReply z = none) ∧ (m.table.serverInfoes 0).rttTime = 65535 ∧
      (0 < n → (m.table.serverInfoes 0).pingSendTime = 0) := by
  induction n with
  | zero => exact ⟨[], m₀, .start, rfl, rfl, rfl, rfl, by simp, hdown, fun h => absurd h (Nat.lt_irrefl 0)⟩
  | succ n ih =>
    obtain ⟨h, m, hr, hlen, hq, hreceived, hs, hnone, hdown, _⟩ := ih
    obtain ⟨c, x, m', hr', hc', hx', hq', hreceived', hs', htime, hkeep⟩ := exists_ping hi hc hr
    have hdown' : (m'.table.serverInfoes 0).rttTime = 65535 := by
      rw [hkeep, ServerInformation.checkAlive_eq]
      simp only [hdown, ite_self]
    refine ⟨_, m', hr', by simp [hlen]; omega, by rw [hq', hq], by rw [hreceived', hreceived], ?_, ?_, hdown',
      fun _ => htime⟩
    · rw [hs', hs, if_pos hdown']
    · intro z hz
      simp only [List.mem_append, List.mem_singleton] at hz
      rcases hz with (hz | rfl) | rfl
      · exact hnone z hz
      · exact hc'
      · exact hx'

theorem reply_of_last_two {y z : Moment} {a c : List Moment} {r : UInt32 × UInt16}
    (hnone : ∀ z ∈ h, echoReply z = none) (hsplit : h ++ [x] ++ [y] = a ++ z :: c) (hz : echoReply z = some r) :
    a = h ∧ z = x ∨ a = h ++ [x] ∧ z = y := by
  rcases snoc_eq_append_cons hsplit with ⟨ha, hy, -⟩ | ⟨d, -, hd⟩
  · exact Or.inr ⟨ha, hy⟩
  · rcases snoc_eq_append_cons hd with ⟨ha, hx, -⟩ | ⟨d, -, hd⟩
    · exact Or.inl ⟨ha, hx⟩
    · have hnot := hnone z (by simp [hd])
      rw [hz] at hnot
      cases hnot

/-- A row that is down gets no reply to 65537 requests, and then those to the first and the
last one. Both have the number 0 of the last. -/
theorem two_replies_of_one_number : ∃ m₀ h t origin, Machine.initializeMachine sampleIface sampleInfo = some m₀ ∧
    Run step ⟨m₀, .idle⟩ h t ∧ AnsweredOnce m₀.table origin h ∧ counted 0 h = 1 ∧ received 0 h = 2 ∧
    ¬ CountersRight t := by
  obtain ⟨m₀, hi, hc, hip, hdown⟩ := exists_sample_start
  have hlt : 0 < m₀.table.configured := hc ▸ Nat.one_pos
  obtain ⟨h, m, hr, hlen, hq, hreceived, hs, hnone, hdown, htime⟩ := exists_lost_pings hi hc hdown 65537
  obtain ⟨x, m₁, hr₁, hx, hq₁, hreceived₁, hs₁, htime₁, _, hup₁⟩ :=
    exists_reply hi hip hlt hr (show (0 : UInt16).toNat + 1 = _ by rw [hq]; rfl) (htime (by decide))
  obtain ⟨y, m₂, hr₂, hy, -, hreceived₂, hs₂, -, _, hup₂⟩ :=
    exists_reply hi hip hlt hr₁ (show (0 : UInt16).toNat + 1 = _ by rw [hq₁, hq]; rfl) htime₁
  rw [if_pos hdown, hs] at hs₁
  rw [if_neg hup₁, hs₁] at hs₂
  rw [hreceived₁, hreceived] at hreceived₂
  have hlast : (h ++ [x]).length = 131075 := by
    rw [List.length_append, hlen]
    rfl
  have hplace {a c : List Moment} {z : Moment} (hsplit : h ++ [x] ++ [y] = a ++ z :: c) {r : UInt32 × UInt16}
      (hz : echoReply z = some r) : (a = h ∨ a = h ++ [x]) ∧ r = (0x08080808, 0) := by
    rcases reply_of_last_two hnone hsplit hz with ⟨ha, rfl⟩ | ⟨ha, rfl⟩
    · exact ⟨Or.inl ha, Option.some.inj (hz.symm.trans hx)⟩
    · exact ⟨Or.inr ha, Option.some.inj (hz.symm.trans hy)⟩
  refine ⟨m₀, h ++ [x] ++ [y], ⟨m₂, .idle⟩, fun _ place => if place = 131074 then 0 else 65536, hi, hr₂,
    ⟨fun i hi a z c hsplit number hz => ?_, fun i _ a z b w hcopies => ?_⟩, hs₂, hreceived₂, fun hright => ?_⟩
  · obtain rfl : i = 0 := by omega
    obtain ⟨ha, hr⟩ := hplace hsplit hz
    rw [(Prod.mk.inj hr).2]
    rcases ha with rfl | rfl
    · rw [hlen, if_pos rfl, hq]
      exact ⟨by decide, rfl⟩
    · rw [hlast, if_neg (by decide), hq₁, hq]
      exact ⟨by decide, rfl⟩
  · obtain ⟨c, hsplit⟩ := hcopies.history
    have hsplit' : h ++ [x] ++ [y] = (a ++ z :: b) ++ w :: c := by simp [hsplit]
    obtain ⟨_, hz, _⟩ := (Option.any_eq_true _ _).mp hcopies.first
    obtain ⟨_, hw, _⟩ := (Option.any_eq_true _ _).mp hcopies.second
    have hfirst := (hplace hsplit hz).1
    have hsecond := (hplace hsplit' hw).1
    have hsame := hcopies.origin_eq
    have hlonger : (a ++ z :: b).length = a.length + (b.length + 1) := by simp
    rcases hfirst with ha | ha <;> rcases hsecond with he | he <;> rw [he, ha] at hlonger
    · omega
    · rw [he, ha, hlast, hlen, if_pos rfl, if_neg (by decide)] at hsame
      cases hsame
    · omega
    · omega
  · have hk : 0 < m₂.table.known := by
      have hsound := run_sound hi hr₂
      exact hlt.trans_le (hsound.extends_start.configured ▸ hsound.wellFormed.configured_le_known)
    have hle := (hright.up 0 hk hup₂).2
    rw [run_pingReceived hi hr₂ hlt, run_pingSent hi hr₂ hlt, hreceived₂, hs₂] at hle
    exact absurd hle (by decide)

end Runs

end Threads

end Overlay
