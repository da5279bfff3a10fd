import Overlay.Exchanges

/-! Copies of echo replies. The network may lose, delay, reorder and duplicate replies but
makes none up, so each that arrives is a copy of the reply to some request of the row. -/

namespace Overlay

open Execution

namespace Threads

/-- `origin i p` is the request of row `i` that the reply at place `p` of the history is a
reply to. -/
def Delivered (t₀ : ServerTable) (origin : Nat → Nat → Nat) (h : List Moment) : Prop :=
  ∀ i < t₀.configured, ∀ a x c, h = a ++ x :: c → ∀ number,
    echoReply x = some ((t₀.serverInfoes i).ip.uint, number) →
      origin i a.length < requests i a ∧ number = UInt16.ofNat (origin i a.length)

def fromServer (t₀ : ServerTable) (i : Nat) (x : Moment) : Bool :=
  (echoReply x).any fun r => r.1 = (t₀.serverInfoes i).ip.uint

/-- After the history `a` comes a reply `x`, and behind `b` another copy `y` of it. -/
structure Copies (t₀ : ServerTable) (origin : Nat → Nat → Nat) (h : List Moment) (i : Nat) (a : List Moment)
    (x : Moment) (b : List Moment) (y : Moment) : Prop where
  history : ∃ c, h = a ++ x :: (b ++ y :: c)
  first : fromServer t₀ i x = true
  second : fromServer t₀ i y = true
  origin_eq : origin i a.length = origin i (a ++ x :: b).length

/-- What counting should be like: once for a request, and not at all for a further copy. -/
structure CountsOnce (t₀ : ServerTable) (origin : Nat → Nat → Nat) (h : List Moment) : Prop where
  once : ∀ i < t₀.configured, ∀ a x b y c, h = a ++ x :: (b ++ y :: c) → counts i x = true →
    counts i y = true → origin i a.length ≠ origin i (a ++ x :: b).length
  counted_le : ∀ i < t₀.configured, ∀ a c, h = a ++ c → a.countP (counts i) ≤ requests i a
  row_kept : ∀ i < t₀.configured, ∀ a x b y u, Copies t₀ origin h i a x b y →
    y.before.step y.event = some (u, y.output) → (y.before.row i).SameButRoutes (u.row i)
  node_kept : ∀ a y c u, h = a ++ y :: c → (echoReply y).isSome = true →
    (∀ i < t₀.configured, fromServer t₀ i y = true → ∃ a₁ x b, a = a₁ ++ x :: b ∧
      Copies t₀ origin h i a₁ x b y) →
    y.before.step y.event = some (u, y.output) → u = y.before

variable {t u : Threads} {i : Nat} {e : ThreadEvent} {out : List Sent} {h : List Moment} {x y : Moment}

theorem echoReply_isFrame (hs : (echoReply ⟨t, e, out⟩).isSome = true) : ∃ data now, e = .frame data now := by
  cases e with
  | frame data now => exact ⟨data, now, rfl⟩
  | _ => cases hs

theorem fromServer_of_answers {t₀ : ServerTable} (ha : answers (t₀.serverInfoes i).ip.uint i h x = true) :
    fromServer t₀ i x = true := by
  obtain ⟨number, hx, _⟩ := echoReply_of_answers ha
  simp [fromServer, hx]

theorem answers_of_not_fromServer {t₀ : ServerTable} (hn : fromServer t₀ i x = false) :
    answers (t₀.serverInfoes i).ip.uint i h x = false := by
  by_contra ha
  rw [fromServer_of_answers (Bool.not_eq_false _ ▸ ha)] at hn
  cases hn

theorem row_of_ignored (hs : (echoReply ⟨t, e, out⟩).isSome = true) (hrow : RowStep i t u out e)
    (ha : acceptedBy i ⟨t, e, out⟩ = false) : (t.row i).SameButRoutes (u.row i) := by
  obtain ⟨data, now, rfl⟩ := echoReply_isFrame hs
  cases hrow with
  | accept ha' => rw [ha] at ha'; cases ha'
  | other _ _ _ _ hsame => exact hsame

theorem node_of_ignored (he : t.step e = some (u, out)) (hs : (echoReply ⟨t, e, out⟩).isSome = true)
    (ha : ∀ i < t.machine.table.configured, acceptedBy i ⟨t, e, out⟩ = false) : u = t := by
  obtain ⟨data, now, rfl⟩ := echoReply_isFrame hs
  have hicmp : ValidIcmp data := by
    by_contra hn
    rw [echoReply_eq_none hn] at hs
    cases hs
  have hignored : ∀ i < t.machine.table.configured,
      ¬ t.machine.table.Accepts i (ipSrc data) (sequenceId data) := by
    intro i hi haccepts
    have hfalse := ha i hi
    rw [acceptedBy, echoReply_of_validIcmp hicmp] at hfalse
    exact of_decide_eq_false hfalse haccepts
  have he' : t.step (.frame data now) = _ := step_echo hicmp (ServerTable.receivePingPacket_ignored hignored)
  exact (Prod.mk.inj (Option.some.inj (he.symm.trans he'))).1

section Runs

variable {iface : Fin 2 → Interface} {info : Str} {m₀ : Machine} {origin : Nat → Nat → Nat}

theorem counts_eq_answers (hi : Machine.initializeMachine iface info = some m₀) {c : List Moment}
    (hr : Run step ⟨m₀, .idle⟩ (h ++ x :: c) t) (hlt : i < m₀.table.configured) :
    counts i x = answers (m₀.table.serverInfoes i).ip.uint i h x ∧
      acceptedBy i x = answers (m₀.table.serverInfoes i).ip.uint i h x := by
  obtain ⟨v, hr₁, he, _⟩ := hr.split_at
  have ha := acceptedBy_eq_answers hi hr₁ hlt
  exact ⟨((run_row hi hr₁ hlt he).counts_eq he).trans ha, ha⟩

/-- The replies counted so far are to different requests, all of them sent. -/
theorem counted_le_requests (hi : Machine.initializeMachine iface info = some m₀)
    (hr : Run step ⟨m₀, .idle⟩ h t) (hlt : i < m₀.table.configured)
    (hd : Delivered m₀.table origin h)
    (honce : ∀ a x b y c, h = a ++ x :: (b ++ y :: c) → counts i x = true → counts i y = true →
      origin i a.length ≠ origin i (a ++ x :: b).length) {a c : List Moment} (hac : h = a ++ c) :
    a.countP (counts i) ≤ requests i a := by
  have hlist : ∃ l : List Nat, l.Nodup ∧ l.length = a.countP (counts i) ∧ ∀ k ∈ l, k < requests i a ∧
      ∃ a₁ x a₂, a = a₁ ++ x :: a₂ ∧ counts i x = true ∧ origin i a₁.length = k := by
    induction a using List.reverseRecOn generalizing c with
    | nil => exact ⟨[], by simp⟩
    | append_singleton a y ih =>
      obtain ⟨l, hnodup, hlen, hl⟩ := ih (c := y :: c) (by simp [hac])
      have hkeep : ∀ k ∈ l, k < requests i (a ++ [y]) ∧
          ∃ a₁ x a₂, a ++ [y] = a₁ ++ x :: a₂ ∧ counts i x = true ∧ origin i a₁.length = k := by
        intro k hk
        obtain ⟨hlt, a₁, x, a₂, rfl, hx, ho⟩ := hl k hk
        rw [requests_append]
        exact ⟨by omega, a₁, x, a₂ ++ [y], by simp, hx, ho⟩
      cases hy : counts i y with
      | false =>
        refine ⟨l, hnodup, ?_, hkeep⟩
        rw [hlen, List.countP_append, List.countP_singleton, hy]
        simp
      | true =>
        have hsplit : h = a ++ y :: c := by simp [hac]
        have ha := (counts_eq_answers hi (hsplit ▸ hr) hlt).1
        rw [hy] at ha
        obtain ⟨number, hreply, _⟩ := echoReply_of_answers ha.symm
        have hsent := (hd i hlt a y c hsplit number hreply).1
        refine ⟨origin i a.length :: l, List.nodup_cons.mpr ⟨fun hk => ?_, hnodup⟩, ?_, ?_⟩
        · obtain ⟨_, a₁, x, a₂, rfl, hx, ho⟩ := hl _ hk
          exact honce a₁ x a₂ y c (by simp [hac]) hx hy ho
        · rw [List.length_cons, hlen, List.countP_append, List.countP_singleton, hy]
          simp
        · intro k hk
          rcases List.mem_cons.mp hk with rfl | hk
          · rw [requests_append]
            exact ⟨by omega, a, y, [], rfl, hy, rfl⟩
          · exact hkeep k hk
  obtain ⟨l, hnodup, hlen, hl⟩ := hlist
  have hsub : l ⊆ List.range (requests i a) := fun k hk => List.mem_range.mpr (hl k hk).1
  have hle := (hnodup.subperm hsub).length_le
  rwa [List.length_range, hlen] at hle

/-- Counting is right as long as no copy of a reply comes while its number is that of the
latest request. -/
theorem counts_once_iff (hi : Machine.initializeMachine iface info = some m₀)
    (hr : Run step ⟨m₀, .idle⟩ h t) (hd : Delivered m₀.table origin h) :
    CountsOnce m₀.table origin h ↔ ∀ i < m₀.table.configured, ∀ a x b y,
      Copies m₀.table origin h i a x b y →
        answers (m₀.table.serverInfoes i).ip.uint i (a ++ x :: b) y = false := by
  constructor
  · intro hcounts i hlt a x b y hcopies
    obtain ⟨c, hc⟩ := hcopies.history
    have hsplit : h = (a ++ x :: b) ++ y :: c := by simp [hc]
    obtain ⟨u, hr₁, he, _⟩ := (hsplit ▸ hr).split_at
    obtain ⟨_, _, hrow⟩ := hcounts.row_kept i hlt a x b y u hcopies he
    rw [← (counts_eq_answers hi (hsplit ▸ hr) hlt).1]
    simp [counts, he, hrow]
  · intro hlate
    have honce : ∀ i < m₀.table.configured, ∀ a x b y c, h = a ++ x :: (b ++ y :: c) →
        counts i x = true → counts i y = true → origin i a.length ≠ origin i (a ++ x :: b).length := by
      intro i hlt a x b y c hc hx hy horigin
      have hsplit : h = (a ++ x :: b) ++ y :: c := by simp [hc]
      have hax := (counts_eq_answers hi (hc ▸ hr) hlt).1
      have hay := (counts_eq_answers hi (hsplit ▸ hr) hlt).1
      rw [hx] at hax
      rw [hy] at hay
      have hcopies : Copies m₀.table origin h i a x b y :=
        ⟨⟨c, hc⟩, fromServer_of_answers hax.symm, fromServer_of_answers hay.symm, horigin⟩
      rw [hlate i hlt a x b y hcopies] at hay
      cases hay
    refine ⟨honce, fun i hlt a c hac => counted_le_requests hi hr hlt hd (honce i hlt) hac, ?_, ?_⟩
    · intro i hlt a x b y u hcopies he
      obtain ⟨c, hc⟩ := hcopies.history
      have hsplit : h = (a ++ x :: b) ++ y :: c := by simp [hc]
      obtain ⟨_, hr₁, _, _⟩ := (hsplit ▸ hr).split_at
      have hreply : (echoReply y).isSome = true := by
        obtain ⟨r, hy, _⟩ := (Option.any_eq_true _ _).mp hcopies.second
        rw [hy]
        rfl
      refine row_of_ignored hreply (run_row hi hr₁ hlt he) ?_
      rw [(counts_eq_answers hi (hsplit ▸ hr) hlt).2]
      exact hlate i hlt a x b y hcopies
    · intro a y c u hc hreply hcopies he
      obtain ⟨_, hr₁, _, _⟩ := (hc ▸ hr).split_at
      have hconfigured := (run_sound hi hr₁).extends_start.configured
      refine node_of_ignored he hreply fun i hlt => ?_
      rw [hconfigured] at hlt
      rw [(counts_eq_answers hi (hc ▸ hr) hlt).2]
      cases hs : fromServer m₀.table i y with
      | false => exact answers_of_not_fromServer hs
      | true =>
        obtain ⟨a₁, x, b, rfl, hcopy⟩ := hcopies i hlt hs
        exact hlate i hlt a₁ x b y hcopy

theorem counts_once_late_copy : ∃ m₀ h t, Machine.initializeMachine sampleIface sampleInfo = some m₀ ∧
    Run step ⟨m₀, .idle⟩ h t ∧ Delivered m₀.table (fun _ _ => 0) h ∧
    (∃ a x b y, Copies m₀.table (fun _ _ => 0) h 0 a x b y) ∧ CountsOnce m₀.table (fun _ _ => 0) h := by
  obtain ⟨m₀, h, t, hi, hr, he, hc, hip, hreply, hrequest⟩ := reaches sampleIface sampleInfo
    [.check, .request 0, .frame (sampleEcho 0x08080808 0 0).data 0, .check, .request 0,
      .frame (sampleEcho 0x08080808 0 0).data 0]
    (fun t h => t.machine.table.configured = 1 ∧ (t.row 0).ip.uint = 0x08080808 ∧
      h.map echoReply = [none, none, some (0x08080808, 0), none, none, some (0x08080808, 0)] ∧
      h.map (requestsTo 0) = [false, true, false, false, true, false]) (by decide +kernel)
  have hlt : 0 < m₀.table.configured := configured_pos hi hr hc
  have hone : ∀ i < m₀.table.configured, i = 0 := by
    rw [configured_eq hi hr, hc]
    omega
  rw [run_address hi hr hlt] at hip
  have hplace {a c : List Moment} {x : Moment} (hx : h = a ++ x :: c) {r : UInt32 × UInt16}
      (hecho : echoReply x = some r) : (a.length = 2 ∧ requests 0 a = 1 ∨ a.length = 5 ∧ requests 0 a = 2) ∧
        r = (0x08080808, 0) := by
    obtain ⟨n, hn, hlen, hat, hcount⟩ := reply_place hreply hrequest hx hecho
    simp only [List.length_cons, List.length_nil] at hn
    interval_cases n <;> simp at hat hcount <;> simp [hlen, hat, hcount]
  have hd : Delivered m₀.table (fun _ _ => 0) h := by
    intro i hi' a x c hx number hecho
    obtain ⟨hat, hr⟩ := hplace hx hecho
    obtain rfl := hone i hi'
    refine ⟨?_, ?_⟩
    · show 0 < requests 0 a
      omega
    · rw [(Prod.mk.inj hr).2]
      rfl
  have hlate : ∀ i < m₀.table.configured, ∀ a x b y, Copies m₀.table (fun _ _ => 0) h i a x b y →
      answers (m₀.table.serverInfoes i).ip.uint i (a ++ x :: b) y = false := by
    intro i hi' a x b y hcopies
    obtain rfl := hone i hi'
    obtain ⟨c, hx⟩ := hcopies.history
    have hy : h = (a ++ x :: b) ++ y :: c := by simp [hx]
    obtain ⟨r, hechox, _⟩ := (Option.any_eq_true _ _).mp hcopies.first
    obtain ⟨r', hechoy, _⟩ := (Option.any_eq_true _ _).mp hcopies.second
    obtain ⟨hatx, _⟩ := hplace hx hechox
    obtain ⟨haty, hr'⟩ := hplace hy hechoy
    have hlen : (a ++ x :: b).length = a.length + (b.length + 1) := by simp
    have htwo : requests 0 (a ++ x :: b) = 2 := by omega
    simp [answers, hechoy, hr', htwo]
  refine ⟨m₀, h, t, hi, hr, hd, ?_, (counts_once_iff hi hr hd).mpr hlate⟩
  obtain ⟨x₁, h, rfl, _, hreply⟩ := List.map_eq_cons_iff.mp hreply
  obtain ⟨x₂, h, rfl, _, hreply⟩ := List.map_eq_cons_iff.mp hreply
  obtain ⟨x₃, h, rfl, h₃, hreply⟩ := List.map_eq_cons_iff.mp hreply
  obtain ⟨x₄, h, rfl, _, hreply⟩ := List.map_eq_cons_iff.mp hreply
  obtain ⟨x₅, h, rfl, _, hreply⟩ := List.map_eq_cons_iff.mp hreply
  obtain ⟨x₆, rfl, h₆⟩ := List.map_eq_singleton_iff.mp hreply
  refine ⟨[x₁, x₂], x₃, [x₄, x₅], x₆, ⟨[], rfl⟩, ?_, ?_, rfl⟩
  · simp [fromServer, h₃, hip]
  · simp [fromServer, h₆, hip]

/-- One request and two copies of its reply: both are counted. -/
theorem duplicate_counted : ∃ m₀ h t, Machine.initializeMachine sampleIface sampleInfo = some m₀ ∧
    Run step ⟨m₀, .idle⟩ h t ∧ Delivered m₀.table (fun _ _ => 0) h ∧ requests 0 h = 1 ∧
    h.countP (counts 0) = 2 ∧ ¬ CountsOnce m₀.table (fun _ _ => 0) h := by
  obtain ⟨m₀, h, t, hi, hr, _, hc, hreply, hrequest, hsent, hcounts⟩ := reaches sampleIface sampleInfo
    [.check, .request 0, .frame (sampleEcho 0x08080808 0 0).data 0, .frame (sampleEcho 0x08080808 0 0).data 0]
    (fun t h => t.machine.table.configured = 1 ∧
      h.map echoReply = [none, none, some (0x08080808, 0), some (0x08080808, 0)] ∧
      h.map (requestsTo 0) = [false, true, false, false] ∧ requests 0 h = 1 ∧ h.countP (counts 0) = 2)
    (by decide +kernel)
  have hconfigured := configured_eq hi hr
  rw [hc] at hconfigured
  refine ⟨m₀, h, t, hi, hr, ?_, hsent, hcounts, fun hall => ?_⟩
  · intro i hlt a x c hx number hecho
    obtain rfl : i = 0 := by omega
    obtain ⟨n, hn, _, hat, hcount⟩ := reply_place hreply hrequest hx hecho
    simp only [List.length_cons, List.length_nil] at hn
    interval_cases n <;> simp at hat hcount <;> simp [hat, hcount]
  · have hle := hall.counted_le 0 (by omega) h [] (by simp)
    omega

end Runs

end Threads

end Overlay
