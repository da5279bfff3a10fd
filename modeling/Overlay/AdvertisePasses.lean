import Overlay.RoundTripTimes

/-! The command `advertise` pass by pass. Nothing keeps the main thread out of its loops: the
mutex that `update_learning_table` locks belongs to a copy of the row. -/

namespace Overlay

open ByteMemory Execution

/-- Where the command thread is in `advertise`, before the pass of a row. -/
inductive Stage
  | idle
  | encode (i : Nat) (buffer : Bytes × Nat)
  | fill (i : Nat)
  | reset (i : Nat)
  deriving DecidableEq

structure Passes where
  table : ServerTable
  stage : Stage

/-- The command thread starts the command and takes its passes; in between the main thread
takes a record of an advertisement, or has row `i` look at a reply. -/
inductive PassEvent
  | advertise
  | pass
  | record (serverInfo : ServerInformation) (ip : IpInfo)
  | reply (i : Nat) (ip : UInt32) (now : Int) (sequenceId : UInt16)

namespace ServerInformation

def fill (row : ServerInformation) : ServerInformation :=
  { row with forwardingTable := { row.forwardingTable with
      ipNextHopLost := row.learningTable.ipNextHopLost
      ipNextHopRtt := row.learningTable.ipNextHopRtt } }

def reset (row : ServerInformation) (ipGateway : IpInfo) : ServerInformation :=
  { row with learningTable := { row.learningTable with
      ipNextHopLost := ipGateway
      rttTime := row.rttTime
      ipNextHopRtt := ipGateway
      lostRate := row.pingLostRate } }

@[simp] theorem fill_ip (row : ServerInformation) : row.fill.ip = row.ip := rfl

@[simp] theorem fill_learningTable (row : ServerInformation) : row.fill.learningTable = row.learningTable := rfl

@[simp] theorem reset_ip (row : ServerInformation) (ipGateway : IpInfo) : (row.reset ipGateway).ip = row.ip := rfl

@[simp] theorem reset_forwardingTable (row : ServerInformation) (ipGateway : IpInfo) :
    (row.reset ipGateway).forwardingTable = row.forwardingTable := rfl

end ServerInformation

namespace Passes

abbrev Moment := Taken Passes PassEvent (Option Bytes)

/-- The bounds of the loops are read again for each pass. -/
def pass (p : Passes) : Option (Passes × Option Bytes) :=
  match p.stage with
  | .idle => none
  | .encode i buffer =>
    if i < p.table.configured then
      (p.table.advertiseRow buffer i).map fun buffer => ({ p with stage := .encode (i + 1) buffer }, none)
    else
      (store buffer.1 buffer.2 (bytes32 0)).map fun data =>
        ({ p with stage := .fill 0 }, some (data.take (buffer.2 + 4)))
  | .fill i =>
    if i < p.table.known then some (⟨p.table.setRow i (p.table.serverInfoes i).fill, .fill (i + 1)⟩, none)
    else some ({ p with stage := .reset 0 }, none)
  | .reset i =>
    if i < p.table.known then
      some (⟨p.table.setRow i ((p.table.serverInfoes i).reset p.table.ipGateway), .reset (i + 1)⟩, none)
    else some ({ p with stage := .idle }, none)

def step (p : Passes) : PassEvent → Option (Passes × Option Bytes)
  | .advertise =>
    match p.stage with
    | .idle =>
      if p.table.numberOfServers < 0 then none
      else
        let size := (12 * p.table.numberOfServers + 4).toNat
        some ({ p with stage := .encode 0 (List.replicate size 0, 0) }, none)
    | _ => none
  | .pass => p.pass
  | .record serverInfo ip => (p.table.updateLearningTable serverInfo ip).map fun table => ({ p with table }, none)
  | .reply i ip now sequenceId =>
    if i < p.table.configured then
      (ServerTable.receivePingRow ip now sequenceId p.table i).map fun table => ({ p with table }, none)
    else none

variable {p q : Passes} {e : PassEvent} {out : Option Bytes}

/-- Everything a step can do. -/
inductive Step (p : Passes) : PassEvent → Passes → Option Bytes → Prop
  | advertise : p.stage = .idle → 0 ≤ p.table.numberOfServers → Step p .advertise
      { p with stage := .encode 0 (List.replicate (12 * p.table.configured + 4) 0, 0) } none
  | encode {i : Nat} {buffer buffer' : Bytes × Nat} : p.stage = .encode i buffer → i < p.table.configured →
      p.table.advertiseRow buffer i = some buffer' → Step p .pass { p with stage := .encode (i + 1) buffer' } none
  | send {i : Nat} {buffer : Bytes × Nat} {data : Bytes} : p.stage = .encode i buffer → p.table.configured ≤ i →
      store buffer.1 buffer.2 (bytes32 0) = some data →
      Step p .pass { p with stage := .fill 0 } (some (data.take (buffer.2 + 4)))
  | fill {i : Nat} : p.stage = .fill i → i < p.table.known →
      Step p .pass ⟨p.table.setRow i (p.table.serverInfoes i).fill, .fill (i + 1)⟩ none
  | filled {i : Nat} : p.stage = .fill i → p.table.known ≤ i → Step p .pass { p with stage := .reset 0 } none
  | reset {i : Nat} : p.stage = .reset i → i < p.table.known →
      Step p .pass ⟨p.table.setRow i ((p.table.serverInfoes i).reset p.table.ipGateway), .reset (i + 1)⟩ none
  | done {i : Nat} : p.stage = .reset i → p.table.known ≤ i → Step p .pass { p with stage := .idle } none
  | record {serverInfo : ServerInformation} {ip : IpInfo} {table : ServerTable} :
      p.table.updateLearningTable serverInfo ip = some table → Step p (.record serverInfo ip) { p with table } none
  | reply {i : Nat} {ip : UInt32} {now : Int} {sequenceId : UInt16} {table : ServerTable} : i < p.table.configured →
      ServerTable.receivePingRow ip now sequenceId p.table i = some table →
      Step p (.reply i ip now sequenceId) { p with table } none

theorem step_cases (h : p.step e = some (q, out)) : Step p e q out := by
  cases e with
  | advertise =>
    simp only [step] at h
    split at h
    next hp =>
      by_cases hn : p.table.numberOfServers < 0
      · rw [if_pos hn] at h
        cases h
      · have hsize : (12 * p.table.numberOfServers + 4).toNat = 12 * p.table.configured + 4 := by
          rw [ServerTable.configured]
          omega
        rw [if_neg hn, hsize] at h
        obtain ⟨rfl, rfl⟩ := Prod.mk.inj (Option.some.inj h)
        exact .advertise hp (by omega)
    next => cases h
  | pass =>
    simp only [step, pass] at h
    split at h
    next => cases h
    next i buffer hp =>
      split_ifs at h with hi
      · obtain ⟨buffer', hb, he⟩ := Option.map_eq_some_iff.mp h
        obtain ⟨rfl, rfl⟩ := Prod.mk.inj he
        exact .encode hp hi hb
      · obtain ⟨data, hd, he⟩ := Option.map_eq_some_iff.mp h
        obtain ⟨rfl, rfl⟩ := Prod.mk.inj he
        exact .send hp (by omega) hd
    next i hp =>
      split_ifs at h with hi
      · obtain ⟨rfl, rfl⟩ := Prod.mk.inj (Option.some.inj h)
        exact .fill hp hi
      · obtain ⟨rfl, rfl⟩ := Prod.mk.inj (Option.some.inj h)
        exact .filled hp (by omega)
    next i hp =>
      split_ifs at h with hi
      · obtain ⟨rfl, rfl⟩ := Prod.mk.inj (Option.some.inj h)
        exact .reset hp hi
      · obtain ⟨rfl, rfl⟩ := Prod.mk.inj (Option.some.inj h)
        exact .done hp (by omega)
  | record serverInfo ip =>
    obtain ⟨table, ht, he⟩ := Option.map_eq_some_iff.mp h
    obtain ⟨rfl, rfl⟩ := Prod.mk.inj he
    exact .record ht
  | reply i ip now sequenceId =>
    obtain ⟨hi, h⟩ := Option.ite_none_right_eq_some.mp h
    obtain ⟨table, ht, he⟩ := Option.map_eq_some_iff.mp h
    obtain ⟨rfl, rfl⟩ := Prod.mk.inj he
    exact .reply hi ht

/-- The calls of `update_learning_table` that the main thread makes. -/
def calls (x : Moment) : List (ServerInformation × IpInfo) :=
  match x.event with
  | .advertise => []
  | .pass => []
  | .record serverInfo ip => [(serverInfo, ip)]
  | .reply i ip now sequenceId =>
    if x.before.table.Accepts i ip sequenceId then
      [((x.before.table.serverInfoes i).pingReceivedAt now, x.before.table.ipGateway)]
    else []

/-- What a row has learned after calls for its address. -/
def learnCalls (s : UInt32) (calls : List (ServerInformation × IpInfo)) (r : RoutingInfo) : RoutingInfo :=
  (calls.filter fun call => call.1.ip.uint = s).foldl (fun r call => r.learn call.1 call.2) r

theorem learnCalls_append (s : UInt32) (calls calls' : List (ServerInformation × IpInfo)) (r : RoutingInfo) :
    learnCalls s (calls ++ calls') r = learnCalls s calls' (learnCalls s calls r) := by
  rw [learnCalls, List.filter_append, List.foldl_append]
  rfl

def fillsRow (i : Nat) (x : Moment) : Prop := x.event = .pass ∧ x.before.stage = .fill i ∧ i < x.before.table.known

def resetsRow (i : Nat) (x : Moment) : Prop := x.event = .pass ∧ x.before.stage = .reset i ∧ i < x.before.table.known

end Passes

namespace ServerTable

variable {t u : ServerTable} {i j : Nat} {s : UInt32} {row : ServerInformation}

theorem getIndexByIp_setRow (hip : row.ip = (t.serverInfoes j).ip) (s : UInt32) :
    (t.setRow j row).getIndexByIp s = t.getIndexByIp s := by
  have hrow (i : Nat) : ((t.setRow j row).serverInfoes i).ip = (t.serverInfoes i).ip := by
    by_cases hi : i = j
    · subst hi
      rw [setRow_serverInfoes, Function.update_self, hip]
    · rw [setRow_serverInfoes, Function.update_of_ne hi]
  simp only [getIndexByIp, hrow, setRow_known]

theorem learnedOf_setRow (hip : row.ip = (t.serverInfoes j).ip) (s : UInt32) :
    (t.setRow j row).learnedOf s = if t.getIndexByIp s = some j then row.learningTable else t.learnedOf s := by
  cases hs : t.getIndexByIp s with
  | none => rw [learnedOf_of_none hs, learnedOf_of_none ((getIndexByIp_setRow hip s).trans hs), if_neg (by simp)]
  | some i =>
    rw [learnedOf_of_some hs, learnedOf_of_some ((getIndexByIp_setRow hip s).trans hs)]
    by_cases hi : i = j
    · subst hi
      rw [setRow_serverInfoes, Function.update_self, if_pos rfl]
    · rw [setRow_serverInfoes, Function.update_of_ne hi, if_neg fun he => hi (Option.some.inj he)]

theorem forwardingTable_setRow (hf : row.forwardingTable = (t.serverInfoes j).forwardingTable) (i : Nat) :
    ((t.setRow j row).serverInfoes i).forwardingTable = (t.serverInfoes i).forwardingTable := by
  by_cases hi : i = j
  · subst hi
    rw [setRow_serverInfoes, Function.update_self, hf]
  · rw [setRow_serverInfoes, Function.update_of_ne hi]

theorem mapRows_succ (t : ServerTable) (n : Nat) (f : Nat → ServerInformation → ServerInformation) :
    t.mapRows (n + 1) f = (t.mapRows n f).setRow n (f n (t.serverInfoes n)) := by
  simp only [mapRows, ServerTable.setRow, ServerTable.mk.injEq, true_and, and_true]
  funext i
  by_cases hi : i = n
  · subst hi
    simp
  · have hlt : i < n + 1 ↔ i < n := by omega
    simp [Function.update_of_ne hi, hlt]

/-- A pass that keeps what a row has learned. -/
theorem learnedOf_setRow_same (hip : row.ip = (t.serverInfoes j).ip)
    (hl : row.learningTable = (t.serverInfoes j).learningTable) (s : UInt32) :
    (t.setRow j row).learnedOf s = t.learnedOf s := by
  rw [learnedOf_setRow hip]
  split_ifs with hs
  · rw [hl, learnedOf_of_some hs]
  · rfl

theorem Indexed.setRow (h : t.Indexed) (hip : row.ip = (t.serverInfoes j).ip) : (t.setRow j row).Indexed :=
  h.of_known_eq (extends_setRow hip) rfl

/-- In a table that grows into `u`, an address is at its row or at none. -/
theorem Extends.getIndexByIp_eq (hx : t.Extends u) (hi : u.getIndexByIp s = some i) :
    t.getIndexByIp s = if i < t.known then some i else none := by
  by_cases hk : i < t.known
  · rw [if_pos hk, hx.getIndexByIp_of_lt hk hi]
  · rw [if_neg hk]
    cases hj : t.getIndexByIp s with
    | none => rfl
    | some j =>
      obtain rfl := Option.some.inj (hi.symm.trans (hx.getIndexByIp hj))
      exact absurd (getIndexByIp_eq_some.mp hj).1 hk

end ServerTable

namespace Passes

open ServerTable ServerInformation

variable {p q : Passes} {e : PassEvent} {out : Option Bytes} {i : Nat} {s : UInt32}

/-- The table through a step: only passes of the last two loops touch the forwarding entry of
a row or set its learned one back, and calls for its address add to the latter. -/
structure Kept (i : Nat) (s : UInt32) (x : Moment) (t u : ServerTable) : Prop where
  extends_table : t.Extends u
  wellFormed : u.WellFormed
  indexed : u.Indexed
  forwarding : ¬ fillsRow i x → (u.serverInfoes i).forwardingTable = (t.serverInfoes i).forwardingTable
  learned : (∀ j, t.getIndexByIp s = some j → ¬ resetsRow j x) → u.learnedOf s = learnCalls s (calls x) (t.learnedOf s)

theorem kept_updateLearningTable {x : Moment} {t u : ServerTable} (hw : t.WellFormed) (hx : t.Indexed)
    {serverInfo : ServerInformation} {ip : IpInfo} (hc : calls x = [(serverInfo, ip)])
    (h : t.updateLearningTable serverInfo ip = some u) : Kept i s x t u := by
  refine ⟨extends_updateLearningTable h, hw.updateLearningTable h, hx.updateLearningTable h,
    fun _ => (hopsFrom_updateLearningTable h).forwarding i, fun _ => ?_⟩
  rw [learnedOf_updateLearningTable hw h, hc, learnCalls]
  by_cases hs : serverInfo.ip.uint = s
  · rw [if_pos hs, List.filter_cons_of_pos (by simpa using hs)]
    rfl
  · rw [if_neg hs, List.filter_cons_of_neg (by simpa using hs)]
    rfl

theorem Step.kept (h : Step p e q out) (hw : p.table.WellFormed) (hx : p.table.Indexed) :
    Kept i s ⟨p, e, out⟩ p.table q.table := by
  cases h with
  | advertise _ _ => exact ⟨.refl _, hw, hx, fun _ => rfl, fun _ => rfl⟩
  | encode _ _ _ => exact ⟨.refl _, hw, hx, fun _ => rfl, fun _ => rfl⟩
  | send _ _ _ => exact ⟨.refl _, hw, hx, fun _ => rfl, fun _ => rfl⟩
  | @fill j hp hj =>
    refine ⟨extends_setRow rfl, hw.setRow hj _, hx.setRow rfl, fun hf => ?_, fun _ => ?_⟩
    · have hne : i ≠ j := fun he => hf (he ▸ ⟨rfl, hp, hj⟩)
      show ((p.table.setRow j _).serverInfoes i).forwardingTable = _
      rw [setRow_serverInfoes, Function.update_of_ne hne]
    · exact learnedOf_setRow_same (fill_ip _) (fill_learningTable _) s
  | filled _ _ => exact ⟨.refl _, hw, hx, fun _ => rfl, fun _ => rfl⟩
  | @reset j hp hj =>
    refine ⟨extends_setRow rfl, hw.setRow hj _, hx.setRow rfl, fun _ => ?_, fun hr => ?_⟩
    · exact forwardingTable_setRow (reset_forwardingTable _ _) i
    · show (p.table.setRow j _).learnedOf s = p.table.learnedOf s
      rw [learnedOf_setRow (reset_ip _ _), if_neg fun hs => hr j hs ⟨rfl, hp, hj⟩]
  | done _ _ => exact ⟨.refl _, hw, hx, fun _ => rfl, fun _ => rfl⟩
  | record ht => exact kept_updateLearningTable hw hx rfl ht
  | @reply j ip now sequenceId table hj ht =>
    unfold receivePingRow at ht
    by_cases ha : p.table.Accepts j ip sequenceId
    · rw [if_pos ha] at ht
      set row := (p.table.serverInfoes j).pingReceivedAt now with hrow
      have hip : row.ip = (p.table.serverInfoes j).ip := pingReceivedAt_ip _ now
      have hroutes : row.forwardingTable = (p.table.serverInfoes j).forwardingTable ∧
          row.learningTable = (p.table.serverInfoes j).learningTable := by
        rw [hrow, ServerInformation.pingReceivedAt_eq]
        exact ⟨rfl, rfl⟩
      have hcalls : calls ⟨p, .reply j ip now sequenceId, none⟩ = [(row, p.table.ipGateway)] := if_pos ha
      obtain ⟨hext, hwell, hindexed, hforwarding, hlearned⟩ := @kept_updateLearningTable i s
        ⟨p, .reply j ip now sequenceId, none⟩ _ _ (hw.setRow (hj.trans_le hw.configured_le_known) row) (hx.setRow hip)
        _ _ hcalls ht
      refine ⟨(extends_setRow hip).trans hext, hwell, hindexed, fun hf => ?_, fun _ => ?_⟩
      · exact (hforwarding hf).trans (forwardingTable_setRow hroutes.1 i)
      · have hn : ∀ k, (p.table.setRow j row).getIndexByIp s = some k →
            ¬ resetsRow k ⟨p, .reply j ip now sequenceId, none⟩ := fun _ _ hr => nomatch hr.1
        rw [hlearned hn, learnedOf_setRow_same hip hroutes.2]
    · rw [if_neg ha] at ht
      obtain rfl := Option.some.inj ht
      have hcalls : calls ⟨p, .reply j ip now sequenceId, none⟩ = [] := if_neg ha
      refine ⟨.refl _, hw, hx, fun _ => rfl, fun _ => ?_⟩
      rw [hcalls]
      rfl

/-! What becomes of row `i`, for the address `s`, in one run of the command over the table `t`. -/

/-- The next hops that packets go by are those learned from the calls before the row's pass;
or the row was not there in time, and has none. -/
def Forwards (t : ServerTable) (i : Nat) (s : UInt32) (h : List Moment) (forwarding : RoutingInfo) : Prop :=
  (∃ b x c, h = b ++ x :: c ∧ fillsRow i x ∧
    forwarding.ipNextHopRtt = (learnCalls s (b.flatMap calls) (t.learnedOf s)).ipNextHopRtt ∧
    forwarding.ipNextHopLost = (learnCalls s (b.flatMap calls) (t.learnedOf s)).ipNextHopLost) ∨
  t.known ≤ i ∧ (∀ x ∈ h, ¬ fillsRow i x) ∧ forwarding = .zero

/-- After its last pass a row learns from its own values on. -/
def LearnsAnew (t : ServerTable) (i : Nat) (s : UInt32) (h : List Moment) (u : ServerTable) : Prop :=
  ∃ b x d, h = b ++ x :: d ∧ resetsRow i x ∧ Forwards t i s b (u.serverInfoes i).forwardingTable ∧
    u.learnedOf s = learnCalls s (d.flatMap calls)
      ((x.before.table.serverInfoes i).reset x.before.table.ipGateway).learningTable

/-- Where row `i` is in the command: not yet at its pass of the first loop over the routes,
behind it and not yet at that of the second, or behind both. -/
inductive Phase
  | fresh
  | sent
  | anew
  | over

def phase (i : Nat) : Stage → Phase
  | .idle => .over
  | .encode _ _ => .fresh
  | .fill j => if j ≤ i then .fresh else .sent
  | .reset j => if j ≤ i then .sent else .anew

inductive Fate (t : ServerTable) (i : Nat) (s : UInt32) (h : List Moment) (p : Passes) : Prop
  | fresh : phase i p.stage = .fresh → (∀ x ∈ h, ¬ fillsRow i x) →
      (p.table.serverInfoes i).forwardingTable = (t.serverInfoes i).forwardingTable →
      p.table.learnedOf s = learnCalls s (h.flatMap calls) (t.learnedOf s) → Fate t i s h p
  | sent : phase i p.stage = .sent → Forwards t i s h (p.table.serverInfoes i).forwardingTable →
      p.table.learnedOf s = learnCalls s (h.flatMap calls) (t.learnedOf s) → Fate t i s h p
  | anew : phase i p.stage = .anew → LearnsAnew t i s h p.table → Fate t i s h p

variable {t u : ServerTable} {h : List Moment} {x : Moment}

theorem Forwards.snoc {forwarding forwarding' : RoutingInfo} (hf : Forwards t i s h forwarding) (hn : ¬ fillsRow i x)
    (he : forwarding' = forwarding) : Forwards t i s (h ++ [x]) forwarding' := by
  subst he
  rcases hf with ⟨b, y, c, rfl, hy, hhops⟩ | ⟨hk, hall, hzero⟩
  · exact Or.inl ⟨b, y, c ++ [x], by simp, hy, hhops⟩
  · refine Or.inr ⟨hk, fun y hy => ?_, hzero⟩
    rcases List.mem_append.mp hy with hy | hy
    · exact hall y hy
    · exact List.mem_singleton.mp hy ▸ hn

theorem LearnsAnew.snoc {v : ServerTable} (hl : LearnsAnew t i s h u) (hn : ¬ fillsRow i x) (hk : Kept i s x u v)
    (hr : ∀ j, u.getIndexByIp s = some j → ¬ resetsRow j x) : LearnsAnew t i s (h ++ [x]) v := by
  obtain ⟨b, y, d, rfl, hy, hf, hlearned⟩ := hl
  refine ⟨b, y, d ++ [x], by simp, hy, ?_, ?_⟩
  · rw [hk.forwarding hn]
    exact hf
  · rw [hk.learned hr, hlearned, List.flatMap_append, learnCalls_append, List.flatMap_singleton]

/-- A step that is no pass of the row through the loops over the routes. -/
theorem Fate.other {q : Passes} (hfate : Fate t i s h p) (hk : Kept i s x p.table q.table) (hn : ¬ fillsRow i x)
    (hr : ∀ j, p.table.getIndexByIp s = some j → ¬ resetsRow j x) (hphase : phase i q.stage = phase i p.stage) :
    Fate t i s (h ++ [x]) q := by
  have hlearned (hl : p.table.learnedOf s = learnCalls s (h.flatMap calls) (t.learnedOf s)) :
      q.table.learnedOf s = learnCalls s ((h ++ [x]).flatMap calls) (t.learnedOf s) := by
    rw [hk.learned hr, hl, List.flatMap_append, learnCalls_append, List.flatMap_singleton]
  cases hfate with
  | fresh hp hall hf hl =>
    refine .fresh (hphase.trans hp) (fun y hy => ?_) ((hk.forwarding hn).trans hf) (hlearned hl)
    rcases List.mem_append.mp hy with hy | hy
    · exact hall y hy
    · exact List.mem_singleton.mp hy ▸ hn
  | sent hp hf hl => exact .sent (hphase.trans hp) (hf.snoc hn (hk.forwarding hn)) (hlearned hl)
  | anew hp hl => exact .anew (hphase.trans hp) (hl.snoc hn hk hr)

theorem Fate.step {q : Passes} (hfate : Fate t i s h p) (hs : p.step e = some (q, out)) (hw : p.table.WellFormed)
    (hx : p.table.Indexed) (ht : t.WellFormed) (htp : t.Extends p.table) (hu : q.table.Extends u)
    (hi : u.getIndexByIp s = some i) (hq : q.stage ≠ .idle) : Fate t i s (h ++ [⟨p, e, out⟩]) q := by
  have hstep := step_cases hs
  have hk : Kept i s ⟨p, e, out⟩ p.table q.table := hstep.kept hw hx
  have hrow := (hk.extends_table.trans hu).getIndexByIp_eq hi
  have hreset (hr : ¬ resetsRow i ⟨p, e, out⟩) (j : Nat) (hj : p.table.getIndexByIp s = some j) :
      ¬ resetsRow j ⟨p, e, out⟩ := by
    rw [hrow] at hj
    obtain ⟨_, rfl⟩ := Option.ite_some_none_eq_some.mp hj
    exact hr
  cases hstep with
  | advertise hp _ =>
    cases hfate with
    | fresh hphase => simp [hp, phase] at hphase
    | sent hphase => simp [hp, phase] at hphase
    | anew hphase => simp [hp, phase] at hphase
  | encode hp _ _ =>
    refine hfate.other hk (fun hf => ?_) (hreset fun hr => ?_) (by simp [hp, phase])
    · cases hp.symm.trans hf.2.1
    · cases hp.symm.trans hr.2.1
  | send hp _ _ =>
    refine hfate.other hk (fun hf => ?_) (hreset fun hr => ?_) (by simp [hp, phase])
    · cases hp.symm.trans hf.2.1
    · cases hp.symm.trans hr.2.1
  | @fill j hp hj =>
    by_cases hij : j = i
    · subst hij
      have hget : p.table.getIndexByIp s = some j := by rw [hrow, if_pos hj]
      cases hfate with
      | fresh _ _ _ hl =>
        have hforwarding : ((p.table.setRow j (p.table.serverInfoes j).fill).serverInfoes j).forwardingTable =
            (p.table.serverInfoes j).fill.forwardingTable := by rw [setRow_serverInfoes, Function.update_self]
        rw [learnedOf_of_some hget] at hl
        refine .sent (by simp [phase]) (Or.inl ⟨h, _, [], rfl, ⟨rfl, hp, hj⟩, ?_⟩) ?_
        · rw [hforwarding, ← hl]
          exact ⟨rfl, rfl⟩
        · rw [hk.learned (hreset fun hr => by cases hp.symm.trans hr.2.1), learnedOf_of_some hget, hl, List.flatMap_append,
            learnCalls_append]
          rfl
      | sent hphase => simp [hp, phase] at hphase
      | anew hphase => simp [hp, phase] at hphase
    · refine hfate.other hk (fun hf => ?_) (hreset fun hr => ?_) ?_
      · exact hij (Stage.fill.inj (hp.symm.trans hf.2.1))
      · cases hp.symm.trans hr.2.1
      · have hle : j + 1 ≤ i ↔ j ≤ i := by omega
        simp [hp, phase, hle]
  | @filled j hp hj =>
    by_cases hij : j ≤ i
    · -- the row was not there when the loop ended
      have hlearned := hk.learned (hreset fun hr => by cases hp.symm.trans hr.2.1)
      cases hfate with
      | fresh _ hall hf hl =>
        have hknown : t.known ≤ i := htp.known.trans (hj.trans hij)
        refine .sent (by simp [phase]) (Or.inr ⟨hknown, fun y hy => ?_, ?_⟩) ?_
        · rcases List.mem_append.mp hy with hy | hy
          · exact hall y hy
          · rw [List.mem_singleton.mp hy]
            exact fun hfill => absurd hfill.2.2 (by show ¬ i < p.table.known; omega)
        · show (p.table.serverInfoes i).forwardingTable = .zero
          rw [hf, ht.unused_row i hknown]
          rfl
        · rw [hlearned, hl, List.flatMap_append, learnCalls_append]
          rfl
      | sent hphase => simp [hp, phase, hij] at hphase
      | anew hphase => simp [hp, phase, hij] at hphase
    · refine hfate.other hk (fun hf => ?_) (hreset fun hr => ?_) (by simp [hp, phase, hij])
      · exact hij (Stage.fill.inj (hp.symm.trans hf.2.1)).le
      · cases hp.symm.trans hr.2.1
  | @reset j hp hj =>
    by_cases hij : j = i
    · subst hij
      have hget : p.table.getIndexByIp s = some j := by rw [hrow, if_pos hj]
      cases hfate with
      | fresh hphase => simp [hp, phase] at hphase
      | sent _ hf _ =>
        refine .anew (by simp [phase]) ⟨h, _, [], rfl, ⟨rfl, hp, hj⟩, ?_, ?_⟩
        · rw [hk.forwarding fun hfill => by cases hp.symm.trans hfill.2.1]
          exact hf
        · show (p.table.setRow j _).learnedOf s = _
          rw [learnedOf_setRow (reset_ip _ _), if_pos hget]
          rfl
      | anew hphase => simp [hp, phase] at hphase
    · refine hfate.other hk (fun hf => ?_) (hreset fun hr => ?_) ?_
      · cases hp.symm.trans hf.2.1
      · exact hij (Stage.reset.inj (hp.symm.trans hr.2.1))
      · have hle : j + 1 ≤ i ↔ j ≤ i := by omega
        simp [hp, phase, hle]
  | done _ _ => exact absurd rfl hq
  | record _ => exact hfate.other hk (fun hf => nomatch hf.1) (hreset fun hr => nomatch hr.1) rfl
  | reply _ _ => exact hfate.other hk (fun hf => nomatch hf.1) (hreset fun hr => nomatch hr.1) rfl

theorem run_kept {q : Passes} (hr : Run step p h q) (hw : p.table.WellFormed) (hx : p.table.Indexed) :
    p.table.Extends q.table ∧ q.table.WellFormed ∧ q.table.Indexed := by
  induction hr with
  | start => exact ⟨.refl _, hw, hx⟩
  | snoc hr hs ih =>
    obtain ⟨hext, hw, hx⟩ := ih
    have hk : Kept 0 0 _ _ _ := (step_cases hs).kept hw hx
    exact ⟨hext.trans hk.extends_table, hk.wellFormed, hk.indexed⟩

theorem advertise_cases (hs : step ⟨t, .idle⟩ .advertise = some (p, out)) : p.table = t ∧ out = none ∧
    p.stage = .encode 0 (List.replicate (12 * t.configured + 4) 0, 0) := by
  cases step_cases hs with
  | advertise _ _ => exact ⟨rfl, rfl, rfl⟩

theorem sampleTable {m₀ : Machine} (hi : Machine.initializeMachine sampleIface sampleInfo = some m₀)
    (hd : m₀.table.Distinct) : m₀.table.WellFormed ∧ m₀.table.Indexed := by
  have hinitial := (Machine.run_table hi .start).1
  exact ⟨hinitial.wellFormed, hinitial.indexed hd⟩

/-- The passes of the loop of `advertise_data`, each with the row as it was then. -/
def encodePasses (h : List Moment) : List (Nat × ServerInformation) := h.filterMap fun x =>
  match x.event, x.before.stage with
  | .pass, .encode i _ => if i < x.before.table.configured then some (i, x.before.table.serverInfoes i) else none
  | _, _ => none

def live (passes : List (Nat × ServerInformation)) : List ServerInformation :=
  (passes.map Prod.snd).filter fun row => row.rttTime ≠ 65535

/-- The buffer before the pass of row `i`. -/
structure Encoded (n i : Nat) (buffer : Bytes × Nat) (passes : List (Nat × ServerInformation)) : Prop where
  le : i ≤ n
  rows : passes.map Prod.fst = List.range i
  size : buffer.1.length = 12 * n + 4
  offset : buffer.2 = 12 * (live passes).length
  content : buffer.1.take buffer.2 = (live passes).flatMap ServerInformation.encode

theorem Encoded.length_live {n i : Nat} {buffer : Bytes × Nat} {passes : List (Nat × ServerInformation)}
    (h : Encoded n i buffer passes) : (live passes).length ≤ i := by
  have hlen := congrArg List.length h.rows
  rw [List.length_map, List.length_range] at hlen
  have hle : (live passes).length ≤ (passes.map Prod.snd).length := List.length_filter_le ..
  rw [List.length_map] at hle
  omega

/-- A pass finds room, and adds the row if it is live now. -/
theorem Encoded.pass {n i : Nat} {buffer : Bytes × Nat} {passes : List (Nat × ServerInformation)}
    (h : Encoded n i buffer passes) (hi : i < n) (t : ServerTable) :
    ∃ buffer', t.advertiseRow buffer i = some buffer' ∧ Encoded n (i + 1) buffer' (passes ++ [(i, t.serverInfoes i)]) := by
  obtain ⟨data, offset⟩ := buffer
  have hle := h.length_live
  obtain ⟨-, hrows, hsize, hoffset, hcontent⟩ := h
  simp only at hsize hoffset hcontent
  have hrows' : (passes ++ [(i, t.serverInfoes i)]).map Prod.fst = List.range (i + 1) := by
    rw [List.map_append, hrows, List.range_succ]
    rfl
  have hlive : live (passes ++ [(i, t.serverInfoes i)]) =
      live passes ++ if (t.serverInfoes i).rttTime ≠ 65535 then [t.serverInfoes i] else [] := by
    by_cases hl : (t.serverInfoes i).rttTime = 65535 <;> simp [live, hl]
  by_cases hl : (t.serverInfoes i).rttTime = 65535
  · rw [if_neg (by simpa using hl), List.append_nil] at hlive
    exact ⟨_, advertiseRow_down hl, hi, hrows', hsize, hlive.symm ▸ hoffset, hlive.symm ▸ hcontent⟩
  · rw [if_pos hl] at hlive
    obtain ⟨data', hd, hsize', htake⟩ := advertiseRow_live (t := t) (by omega : offset + 12 ≤ data.length) hl
    refine ⟨_, hd, hi, hrows', hsize'.trans hsize, ?_, ?_⟩
    · show offset + 12 = _
      rw [hlive, hoffset, List.length_append, List.length_singleton]
      omega
    · show data'.take (offset + 12) = _
      rw [htake, hcontent, hlive, List.flatMap_append, List.flatMap_singleton]

theorem run_encoded {q : Passes} (hp : p.stage = .encode 0 (List.replicate (12 * p.table.configured + 4) 0, 0))
    (hr : Run step p h q) (hw : p.table.WellFormed) (hx : p.table.Indexed) (hbusy : ∀ x ∈ h, x.before.stage ≠ .idle)
    {buffer : Bytes × Nat} (hq : q.stage = .encode i buffer) : Encoded p.table.configured i buffer (encodePasses h) := by
  induction hr generalizing i buffer with
  | start =>
    obtain ⟨rfl, rfl⟩ := Stage.encode.inj (hp.symm.trans hq)
    exact ⟨Nat.zero_le _, rfl, List.length_replicate .., rfl, rfl⟩
  | @snoc h z q e out hr hs ih =>
    have hbefore : ∀ x ∈ h, x.before.stage ≠ .idle := fun x hx => hbusy x (List.mem_append_left _ hx)
    have hz : z.stage ≠ .idle := hbusy ⟨z, e, out⟩ (by simp)
    have hother (hn : encodePasses [⟨z, e, out⟩] = []) : encodePasses (h ++ [⟨z, e, out⟩]) = encodePasses h := by
      rw [encodePasses, List.filterMap_append, ← encodePasses, ← encodePasses, hn, List.append_nil]
    cases step_cases hs with
    | advertise hidle _ => exact absurd hidle hz
    | @encode j b b' hj hlt hrow =>
      obtain ⟨rfl, rfl⟩ := Stage.encode.inj hq
      have hconfigured := (run_kept hr hw hx).1.configured
      have hpasses : encodePasses (h ++ [⟨z, .pass, none⟩]) = encodePasses h ++ [(j, z.table.serverInfoes j)] := by
        rw [encodePasses, List.filterMap_append, ← encodePasses]
        simp [hj, hlt]
      obtain ⟨buffer', hb, hnext⟩ := (ih hbefore hj).pass (hconfigured ▸ hlt) z.table
      obtain rfl := Option.some.inj (hrow.symm.trans hb)
      rwa [hpasses]
    | send _ _ _ => cases hq
    | fill _ _ => cases hq
    | filled _ _ => cases hq
    | reset _ _ => cases hq
    | done _ _ => cases hq
    | record _ =>
      rw [hother rfl]
      exact ih hbefore hq
    | reply _ _ =>
      rw [hother rfl]
      exact ih hbefore hq

/-- However the command is interrupted, `advertise_data` writes inside its buffer, looks at each
configured row once, and a receiver reads the rows that were live at their own passes. -/
theorem advertisement_of_passes (hw : t.WellFormed) (hx : t.Indexed) (hs : step ⟨t, .idle⟩ .advertise = some (p, out))
    {q : Passes} (hr : Run step p h q) (hbusy : ∀ x ∈ h, x.before.stage ≠ .idle) {buffer : Bytes × Nat}
    (hq : q.stage = .encode i buffer) : (encodePasses h).map Prod.fst = List.range i ∧ (q.step .pass).isSome ∧
      ∀ r payload, q.step .pass = some (r, some payload) → i = t.configured ∧
        payload.length = 12 * (live (encodePasses h)).length + 4 ∧ payload.length ≤ 12 * t.configured + 4 ∧
        decodeRecords payload = some ((live (encodePasses h)).map ServerInformation.received) := by
  obtain ⟨rfl, -, hp⟩ := advertise_cases hs
  have henc := run_encoded hp hr hw hx hbusy hq
  have hle := henc.length_live
  have hconfigured : q.table.configured = p.table.configured := (run_kept hr hw hx).1.configured
  have hstore : buffer.2 + (bytes32 0).length ≤ buffer.1.length := by
    rw [length_bytes32, henc.size, henc.offset]
    have := henc.le
    omega
  refine ⟨henc.rows, ?_, fun r payload hpass => ?_⟩
  · by_cases hi : i < p.table.configured
    · obtain ⟨buffer', hb, -⟩ := henc.pass hi q.table
      simp [step, pass, hq, hconfigured, hi, hb]
    · simp [step, pass, hq, hconfigured, hi, store_eq hstore]
  · cases step_cases hpass with
    | @send j b data hj hdone hdata =>
      obtain ⟨rfl, rfl⟩ := Stage.encode.inj (hq.symm.trans hj)
      rw [store_eq hstore] at hdata
      obtain rfl := Option.some.inj hdata
      have hpayload : (patch buffer.1 buffer.2 (bytes32 0)).take (buffer.2 + 4) =
          (live (encodePasses h)).flatMap ServerInformation.encode ++ bytes32 0 := by
        have hend := take_patch_end hstore
        rw [length_bytes32] at hend
        rw [hend, henc.content]
      have hlength : ((patch buffer.1 buffer.2 (bytes32 0)).take (buffer.2 + 4)).length =
          12 * (live (encodePasses h)).length + 4 := by
        rw [hpayload, List.length_append, length_flatMap_encode, length_bytes32]
      refine ⟨Nat.le_antisymm henc.le (hconfigured ▸ hdone), hlength, ?_, ?_⟩
      · rw [hlength]
        have := henc.le
        omega
      · rw [hpayload, decodeRecords_flatMap _ (length_bytes32 0)]

/-- The reply to the row's ping comes before its pass. -/
theorem advertisement_of_passes_after_reply : ∃ (t : ServerTable) (p q r : Passes) (h : List Moment) (payload : Bytes),
    step ⟨t, .idle⟩ .advertise = some (p, none) ∧ Run step p h q ∧
    h.map (·.event) = [.reply 0 0x08080808 7000000 0, .pass] ∧ q.step .pass = some (r, some payload) ∧
    payload.length = 16 ∧ decodeRecords payload = some ((live (encodePasses h)).map ServerInformation.received) := by
  have hrun : ((Machine.initializeMachine sampleIface sampleInfo).bind fun m₀ =>
      (step ⟨m₀.table.ping fun _ => 0, .idle⟩ .advertise).bind fun s => (exec step s.1
        [.reply 0 0x08080808 7000000 0, .pass]).bind fun s' => (s'.1.step .pass).map fun s'' => decide
        (m₀.table.Distinct ∧ s.2 = none ∧ (∀ x ∈ s'.2, x.before.stage ≠ .idle) ∧
          s''.2.map List.length = some 16)) = some true := by
    decide +kernel
  obtain ⟨m₀, hi, hrun⟩ := Option.bind_eq_some_iff.mp hrun
  obtain ⟨⟨p, out⟩, hs, hrun⟩ := Option.bind_eq_some_iff.mp hrun
  obtain ⟨⟨q, h⟩, he, hrun⟩ := Option.bind_eq_some_iff.mp hrun
  obtain ⟨⟨r, sent⟩, hsend, hrun⟩ := Option.map_eq_some_iff.mp hrun
  obtain ⟨hd, hout, hbusy, hsent⟩ := of_decide_eq_true hrun
  obtain rfl : out = none := hout
  obtain ⟨payload, rfl, hlength⟩ := Option.map_eq_some_iff.mp hsent
  obtain ⟨hw, hx⟩ := sampleTable hi hd
  have hping : m₀.table.step (.ping fun _ => 0) = some (m₀.table.ping fun _ => 0) := rfl
  obtain ⟨i, buffer, hq⟩ : ∃ i buffer, q.stage = .encode i buffer := by
    cases step_cases hsend with
    | send hq _ _ => exact ⟨_, _, hq⟩
  obtain ⟨-, -, hpayload⟩ := advertisement_of_passes (hw.step hping) (hx.of_known_eq (extends_step hping) rfl) hs
    (run_of_exec he) hbusy hq
  exact ⟨_, p, q, r, h, payload, hs, run_of_exec he, exec_events he, hsend, hlength, (hpayload r payload hsend).2.2.2⟩

/-! The command that nothing interrupts, and what the main thread does with a frame. -/

/-- The payloads that were sent. -/
def payloads (h : List Moment) : List Bytes := h.filterMap (·.output)

theorem payloads_append (h h' : List Moment) : payloads (h ++ h') = payloads h ++ payloads h' := List.filterMap_append

def Alone (h : List Moment) : Prop := ∀ x ∈ h, x.event = .advertise ∨ x.event = .pass

theorem Alone.append {h h' : List Moment} (ha : Alone h) (ha' : Alone h') : Alone (h ++ h') :=
  List.forall_mem_append.mpr ⟨ha, ha'⟩

theorem alone_pass : Alone [⟨p, .pass, out⟩] := fun x hx => by
  obtain rfl := List.mem_singleton.mp hx
  exact Or.inr rfl

theorem run_encode {buffer buffer' : Bytes × Nat} {n : Nat} (hn : n ≤ t.configured)
    (hb : (List.range n).foldlM t.advertiseRow buffer = some buffer') :
    ∃ k, Run step ⟨t, .encode 0 buffer⟩ k ⟨t, .encode n buffer'⟩ ∧ payloads k = [] ∧ Alone k := by
  induction n generalizing buffer' with
  | zero =>
    obtain rfl : buffer = buffer' := by simpa using hb
    exact ⟨[], .start, rfl, fun x hx => absurd hx (by simp)⟩
  | succ n ih =>
    rw [List.range_succ, List.foldlM_append] at hb
    obtain ⟨b, hb, he⟩ := Option.bind_eq_some_iff.mp hb
    have he : t.advertiseRow b n = some buffer' := by simpa using he
    obtain ⟨k, hr, ho, ha⟩ := ih (by omega) hb
    have hstep : step ⟨t, .encode n b⟩ .pass = some (⟨t, .encode (n + 1) buffer'⟩, none) := by
      simp [step, pass, show n < t.configured by omega, he]
    refine ⟨_, hr.snoc hstep, ?_, ha.append alone_pass⟩
    rw [payloads_append, ho]
    rfl

/-- A loop that rewrites the rows one pass after the other. -/
theorem run_rows {stage : Nat → Stage} {f : ServerInformation → ServerInformation} {n : Nat} (hn : n ≤ t.known)
    (hf : ∀ i, i < n → step ⟨t.mapRows i fun _ => f, stage i⟩ .pass =
      some (⟨(t.mapRows i fun _ => f).setRow i (f (t.serverInfoes i)), stage (i + 1)⟩, none)) :
    ∃ k, Run step ⟨t, stage 0⟩ k ⟨t.mapRows n fun _ => f, stage n⟩ ∧ payloads k = [] ∧ Alone k := by
  induction n with
  | zero =>
    have hz : t.mapRows 0 (fun _ => f) = t := by simp [mapRows]
    rw [hz]
    exact ⟨[], .start, rfl, fun x hx => absurd hx (by simp)⟩
  | succ n ih =>
    obtain ⟨k, hr, ho, ha⟩ := ih (by omega) fun i hi => hf i (by omega)
    have hstep := hf n (Nat.lt_succ_self n)
    rw [← mapRows_succ t n fun _ => f] at hstep
    refine ⟨_, hr.snoc hstep, ?_, ha.append alone_pass⟩
    rw [payloads_append, ho]
    rfl

theorem run_fill (t : ServerTable) :
    ∃ k, Run step ⟨t, .fill 0⟩ k ⟨t.fillForwardingTable, .reset 0⟩ ∧ payloads k = [] ∧ Alone k := by
  have hpass (i : Nat) (hi : i < t.known) : step ⟨t.mapRows i fun _ => fill, .fill i⟩ .pass =
      some (⟨(t.mapRows i fun _ => fill).setRow i (t.serverInfoes i).fill, .fill (i + 1)⟩, none) := by
    have hrow : (t.mapRows i fun _ => fill).serverInfoes i = t.serverInfoes i := if_neg (Nat.lt_irrefl i)
    simp only [step, pass, hrow]
    exact if_pos hi
  obtain ⟨k, hr, ho, ha⟩ := run_rows (le_refl t.known) hpass
  have hstep : step ⟨t.fillForwardingTable, .fill t.known⟩ .pass = some (⟨t.fillForwardingTable, .reset 0⟩, none) :=
    if_neg (Nat.lt_irrefl t.known)
  refine ⟨_, hr.snoc hstep, ?_, ha.append alone_pass⟩
  rw [payloads_append, ho]
  rfl

theorem run_reset (t : ServerTable) :
    ∃ k, Run step ⟨t, .reset 0⟩ k ⟨t.resetLearningTable, .idle⟩ ∧ payloads k = [] ∧ Alone k := by
  have hpass (i : Nat) (hi : i < t.known) :
      step ⟨t.mapRows i fun _ row => row.reset t.ipGateway, .reset i⟩ .pass =
        some (⟨(t.mapRows i fun _ row => row.reset t.ipGateway).setRow i ((t.serverInfoes i).reset t.ipGateway),
          .reset (i + 1)⟩, none) := by
    have hrow : (t.mapRows i fun _ row => row.reset t.ipGateway).serverInfoes i = t.serverInfoes i :=
      if_neg (Nat.lt_irrefl i)
    simp only [step, pass, hrow]
    exact if_pos hi
  obtain ⟨k, hr, ho, ha⟩ := run_rows (le_refl t.known) hpass
  have hstep : step ⟨t.resetLearningTable, .reset t.known⟩ .pass = some (⟨t.resetLearningTable, .idle⟩, none) :=
    if_neg (Nat.lt_irrefl t.known)
  refine ⟨_, hr.snoc hstep, ?_, ha.append alone_pass⟩
  rw [payloads_append, ho]
  rfl

/-- A command that nothing interrupts does what the event `advertise` of the node does. -/
theorem run_advertise {data : Bytes} (h : t.advertiseData = some data) :
    ∃ k, Run step ⟨t, .idle⟩ k ⟨t.fillForwardingTable.resetLearningTable, .idle⟩ ∧ payloads k = [data] ∧ Alone k := by
  unfold advertiseData at h
  by_cases hn : t.numberOfServers < 0
  · rw [if_pos hn] at h
    cases h
  rw [if_neg hn] at h
  obtain ⟨buffer, hb, h⟩ := Option.bind_eq_some_iff.mp h
  obtain ⟨data', hd, he⟩ := Option.bind_eq_some_iff.mp h
  obtain rfl := Option.some.inj he
  have hstart : step ⟨t, .idle⟩ .advertise =
      some (⟨t, .encode 0 (List.replicate (12 * t.numberOfServers + 4).toNat 0, 0)⟩, none) := if_neg hn
  obtain ⟨k₁, hr₁, ho₁, ha₁⟩ := run_encode (le_refl t.configured) hb
  have hsend : step ⟨t, .encode t.configured buffer⟩ .pass = some (⟨t, .fill 0⟩, some (data'.take (buffer.2 + 4))) := by
    simp [step, pass, hd]
  obtain ⟨k₂, hr₂, ho₂, ha₂⟩ := run_fill t
  obtain ⟨k₃, hr₃, ho₃, ha₃⟩ := run_reset t.fillForwardingTable
  refine ⟨_, ((((Run.single hstart).trans hr₁).snoc hsend).trans hr₂).trans hr₃, ?_, ?_⟩
  · simp only [payloads_append, ho₁, ho₂, ho₃]
    rfl
  · refine (((Alone.append (fun x hx => ?_) ha₁).append alone_pass).append ha₂).append ha₃
    obtain rfl := List.mem_singleton.mp hx
    exact Or.inl rfl

/-- The loop of `receive_advertise_data`, wherever the command thread is. -/
theorem run_records {data : Bytes} {ipSrc : UInt32} (h : t.receiveAdvertiseData data ipSrc = some u) (stage : Stage) :
    ∃ k, Run step ⟨t, stage⟩ k ⟨u, stage⟩ := by
  rw [receiveAdvertiseData_eq] at h
  obtain ⟨records, -, h⟩ := Option.bind_eq_some_iff.mp h
  refine foldlM_induction (P := fun v => ∃ k, Run step ⟨t, stage⟩ k ⟨v, stage⟩) ⟨[], .start⟩ ?_ h
  rintro v serverInfo v' - ⟨k, hr⟩ he
  have hstep : step ⟨v, stage⟩ (.record serverInfo ⟨ipSrc, ipUintIntoStr ipSrc⟩) = some (⟨v', stage⟩, none) := by
    simp [step, he]
  exact ⟨_, hr.snoc hstep⟩

/-- The loop of `receive_ping_packet`, wherever the command thread is. -/
theorem run_replies {ip : UInt32} {now : Int} {sequenceId : UInt16}
    (h : t.receivePingPacket ip now sequenceId = some u) (stage : Stage) : ∃ k, Run step ⟨t, stage⟩ k ⟨u, stage⟩ := by
  refine (foldlM_range_induction (P := fun _ v => v.configured = t.configured ∧
    ∃ k, Run step ⟨t, stage⟩ k ⟨v, stage⟩) ⟨rfl, [], .start⟩ ?_ h).2
  rintro i v v' hi ⟨hc, k, hr⟩ he
  have hstep : step ⟨v, stage⟩ (.reply i ip now sequenceId) = some (⟨v', stage⟩, none) := by
    simp [step, hc, hi, he]
  exact ⟨(extends_receivePingRow he).configured.trans hc, _, hr.snoc hstep⟩

end Passes

end Overlay
