import Overlay.Exchanges

/-! When a row counts as down. The check counts the pings without a reply in 16 bits and
takes the row down at the third; a reply starts the count anew. -/

namespace Overlay

open Execution

namespace Threads

/-- What `pingReceivedAt` measures for row `i`, if the step is a frame. -/
def measured (i : Nat) (x : Moment) : Option UInt16 :=
  match x.event with
  | .frame _ now => some (milliseconds (now - (x.before.row i).pingSendTime))
  | _ => none

/-- No reply was ever taken, or three requests were sent since the last one. -/
def ThreeLost (i : Nat) (h : List Moment) : Prop :=
  (∀ y ∈ h, acceptedBy i y = false) ∨ ∃ a y b, h = a ++ y :: b ∧ acceptedBy i y = true ∧
    (∀ z ∈ b, acceptedBy i z = false) ∧ 3 ≤ requests i b

/-- The requests since the last reply taken, if there was one. -/
def unanswered (i : Nat) (h : List Moment) : Option Nat :=
  h.foldl (fun n x => if acceptedBy i x then some 0 else if requestsTo i x then n.map (· + 1) else n) none

variable {t u : Threads} {i : Nat} {e : ThreadEvent} {out : List Sent} {h k : List Moment} {x : Moment}

theorem unanswered_snoc : unanswered i (h ++ [x]) = if acceptedBy i x then some 0
    else if requestsTo i x then (unanswered i h).map (· + 1) else unanswered i h := List.foldl_concat ..

theorem unanswered_eq_none : unanswered i h = none ↔ ∀ y ∈ h, acceptedBy i y = false := by
  induction h using List.reverseRecOn with
  | nil => simp [unanswered]
  | append_singleton h x ih =>
    rw [unanswered_snoc]
    cases ha : acceptedBy i x with
    | true => simp [ha]
    | false =>
      have hmem : (∀ y ∈ h ++ [x], acceptedBy i y = false) ↔ ∀ y ∈ h, acceptedBy i y = false := by
        simp [or_imp, forall_and, ha]
      rw [hmem, ← ih]
      cases requestsTo i x with
      | true => simp
      | false => simp

theorem unanswered_append {a b : List Moment} {y : Moment} (hy : acceptedBy i y = true)
    (hb : ∀ z ∈ b, acceptedBy i z = false) : unanswered i (a ++ y :: b) = some (requests i b) := by
  induction b using List.reverseRecOn with
  | nil =>
    rw [unanswered_snoc, if_pos hy]
    rfl
  | append_singleton b z ih =>
    have hz : ¬ acceptedBy i z = true := by simp [hb z (by simp)]
    have ih := ih fun w hw => hb w (by simp [hw])
    rw [← List.cons_append, ← List.append_assoc, unanswered_snoc, if_neg hz, ih, requests_append,
      requests_singleton]
    split_ifs
    · rfl
    · rfl

theorem threeLost_iff : ThreeLost i h ↔ ∀ n, unanswered i h = some n → 3 ≤ n := by
  constructor
  · rintro (hnone | ⟨a, y, b, rfl, hy, hb, hthree⟩) n hn
    · rw [unanswered_eq_none.mpr hnone] at hn
      cases hn
    · rw [unanswered_append hy hb, Option.some.injEq] at hn
      exact hn ▸ hthree
  · intro hall
    by_cases hnone : ∀ y ∈ h, acceptedBy i y = false
    · exact Or.inl hnone
    · have hsome : ∃ y ∈ h, acceptedBy i y = true := by
        push Not at hnone
        simpa only [ne_eq, Bool.not_eq_false] using hnone
      obtain ⟨a, y, b, rfl, hy, hb⟩ := exists_last hsome
      exact Or.inr ⟨a, y, b, rfl, hy, hb, hall _ (unanswered_append hy hb)⟩

/-- What the fields of a row say about the requests since the last reply taken. The check
of a ping comes before its request, so it runs ahead of the requests by one. -/
def Tracks (i : Nat) (t : Threads) : Option Nat → Prop
  | none => (t.row i).rttTime = 65535
  | some 0 => (t.row i).isReceivedLastPing = true ∧ (t.row i).pingLostNumbers = 0 ∧ (t.row i).rttTime ≠ 65535
  | some (r + 1) => (t.row i).isReceivedLastPing = false ∧
      ∃ n, (t.Checked i ∧ n = r + 1 ∨ ¬ t.Checked i ∧ n = r) ∧
        (t.row i).pingLostNumbers = UInt16.ofNat n ∧ ((t.row i).rttTime = 65535 ↔ 3 ≤ n)

theorem Tracks.same {r : Option Nat} (hr : Tracks i t r) (hc : u.Checked i ↔ t.Checked i)
    (h : (t.row i).SameButRoutes (u.row i)) : Tracks i u r := by
  obtain ⟨_, _, hrow⟩ := h
  cases r with
  | none => rwa [Tracks, hrow]
  | some r =>
    cases r with
    | zero => rwa [Tracks, hrow]
    | succ r => rwa [Tracks, hrow, hc]

theorem Tracks.check {r : Option Nat} (hr : Tracks i t r) (ht : ¬ t.Checked i) (hu : u.Checked i)
    (h : (t.row i).checkAlive.SameButRoutes (u.row i)) : Tracks i u r := by
  obtain ⟨_, _, hrow⟩ := h
  cases r with
  | none =>
    have hdown : (t.row i).rttTime = 65535 := hr
    rw [Tracks, hrow, ServerInformation.checkAlive_eq]
    simp [hdown]
  | some r =>
    cases r with
    | zero =>
      obtain ⟨hflag, hlost, hup⟩ := hr
      rw [Tracks, hrow, ServerInformation.checkAlive_eq]
      simp [hflag, hlost, hup]
    | succ r =>
      obtain ⟨hflag, n, hn, hlost, hdown⟩ := hr
      obtain rfl : n = r := by
        rcases hn with ⟨hc, _⟩ | ⟨_, hn⟩
        · exact absurd hc ht
        · exact hn
      rw [Tracks, hrow, ServerInformation.checkAlive_eq]
      refine ⟨hflag, n + 1, Or.inl ⟨hu, rfl⟩, ?_, ?_⟩
      · simp [hflag, hlost]
      · show (if (t.row i).isReceivedLastPing = false ∧ (t.row i).pingLostNumbers = 2 then 65535
          else (t.row i).rttTime) = 65535 ↔ 3 ≤ n + 1
        by_cases htwo : (t.row i).pingLostNumbers = 2
        · rw [if_pos ⟨hflag, htwo⟩]
          rw [hlost, ← UInt16.toNat_inj, UInt16.toNat_ofNat'] at htwo
          have hle : n % 65536 ≤ n := Nat.mod_le _ _
          have hn : n % 65536 = 2 := htwo
          exact iff_of_true rfl (by omega)
        · have hn : n ≠ 2 := by
            rintro rfl
            exact htwo hlost
          rw [if_neg fun hc => htwo hc.2, hdown]
          omega

theorem Tracks.request {r : Option Nat} (hr : Tracks i t r) (ht : t.Checked i) (hu : ¬ u.Checked i) {now : Int}
    (h : ((t.row i).updateServerInformation t.machine.table.ipGateway now).SameButRoutes (u.row i)) :
    Tracks i u (r.map (· + 1)) := by
  obtain ⟨_, _, hrow⟩ := h
  cases r with
  | none =>
    have hdown : (t.row i).rttTime = 65535 := hr
    rw [Option.map_none, Tracks, hrow, ServerInformation.updateServerInformation_eq]
    exact hdown
  | some r =>
    rw [Option.map_some, Tracks, hrow, ServerInformation.updateServerInformation_eq]
    cases r with
    | zero =>
      obtain ⟨hflag, hlost, hup⟩ := hr
      exact ⟨rfl, 0, Or.inr ⟨hu, rfl⟩, hlost, by simpa using hup⟩
    | succ r =>
      obtain ⟨hflag, n, hn, hlost, hdown⟩ := hr
      obtain rfl : n = r + 1 := by
        rcases hn with ⟨_, hn⟩ | ⟨hc, _⟩
        · exact hn
        · exact absurd ht hc
      exact ⟨rfl, r + 1, Or.inr ⟨hu, rfl⟩, hlost, hdown⟩

theorem Tracks.accept {now : Int} (hm : milliseconds (now - (t.row i).pingSendTime) ≠ 65535)
    (h : ((t.row i).pingReceivedAt now).SameButRoutes (u.row i)) : Tracks i u (some 0) := by
  obtain ⟨_, _, hrow⟩ := h
  rw [Tracks, hrow, ServerInformation.pingReceivedAt_eq]
  refine ⟨rfl, rfl, ?_⟩
  by_cases hdown : (t.row i).rttTime = 65535
  · simpa [hdown] using hm
  · simpa [hdown] using average_ne hdown _

theorem row_tracks (hrow : RowStep i t u out e) (hr : Tracks i t (unanswered i h))
    (hm : acceptedBy i ⟨t, e, out⟩ = true → measured i ⟨t, e, out⟩ ≠ some 65535) :
    Tracks i u (unanswered i (h ++ [⟨t, e, out⟩])) := by
  rw [unanswered_snoc]
  cases hrow with
  | check ht hu hsame => exact hr.check ht hu hsame
  | @request now hc hu _ hsame =>
    have hq : requestsTo i ⟨t, .request now, out⟩ = true := decide_eq_true hc
    have ha : acceptedBy i ⟨t, .request now, out⟩ = false := rfl
    rw [ha, if_neg (by decide), if_pos hq]
    exact hr.request ⟨i, Nat.le_refl i, hc⟩ hu hsame
  | accept ha _ hsame =>
    rw [if_pos ha]
    exact .accept (fun h => hm ha (congrArg some h)) hsame
  | other _ hq ha hc hsame =>
    rw [ha, hq, if_neg (by decide), if_neg (by decide)]
    exact hr.same hc hsame

section Runs

variable {iface : Fin 2 → Interface} {info : Str} {m₀ : Machine}

theorem run_tracks (hi : Machine.initializeMachine iface info = some m₀) (hr : Run step ⟨m₀, .idle⟩ h t)
    (hlt : i < m₀.table.configured)
    (hm : ∀ y ∈ h, acceptedBy i y = true → measured i y ≠ some 65535) : Tracks i t (unanswered i h) := by
  induction hr with
  | start =>
    obtain ⟨serverId, hs⟩ := start_row hi hlt
    exact congrArg ServerInformation.rttTime hs
  | snoc hr he ih =>
    have ht := ih fun y hy => hm y (by simp [hy])
    exact row_tracks (run_row hi hr hlt he) ht (hm _ (by simp))

theorem stays_down (hi : Machine.initializeMachine iface info = some m₀) (hr : Run step ⟨m₀, .idle⟩ h t)
    (hlt : i < m₀.table.configured) (hdown : (t.row i).rttTime = 65535) (hk : Run step t k u)
    (hn : ∀ y ∈ k, acceptedBy i y = false) : (u.row i).rttTime = 65535 := by
  induction hk with
  | start => exact hdown
  | @snoc k v w e o hk he ih =>
    have hv := ih fun y hy => hn y (by simp [hy])
    have ha : acceptedBy i ⟨v, e, o⟩ = false := hn _ (by simp)
    rcases (run_row hi (hr.trans hk) hlt he).told with
      ⟨_, _, now, _, _, hrow⟩ | ⟨_, ha', _⟩ | ⟨_, _, ⟨_, _, hrow⟩ | ⟨_, _, hrow⟩⟩
    · rw [hrow, ServerInformation.updateServerInformation_eq]
      exact hv
    · rw [ha] at ha'
      cases ha'
    · rw [hrow, ServerInformation.checkAlive_eq]
      simp [hv]
    · rw [hrow]
      exact hv

/-- The check takes a row down at the third loss in a row, and nothing but a reply brings
it up. -/
theorem down_after_check_iff (hi : Machine.initializeMachine iface info = some m₀)
    (hr : Run step ⟨m₀, .idle⟩ (h ++ [x]) t) (hx : x.event = .check) (hlt : i < m₀.table.configured)
    (hm : ∀ y ∈ h, acceptedBy i y = true → measured i y ≠ some 65535) :
    ((t.row i).rttTime = 65535 ↔ ThreeLost i h) ∧
      ((t.row i).rttTime = 65535 → ∀ k u, Run step t k u → (∀ y ∈ k, acceptedBy i y = false) →
        (u.row i).rttTime = 65535) := by
  refine ⟨?_, fun hdown k u hk hn => stays_down hi hr hlt hdown hk hn⟩
  obtain ⟨hr₁, he⟩ := hr.of_snoc
  have ht := run_tracks hi hr₁ hlt hm
  have hrow := run_row hi hr₁ hlt he
  rw [hx] at hrow
  rw [threeLost_iff]
  cases hrow with
  | other hne => exact absurd rfl hne
  | check hbefore hafter hsame =>
    have hu := ht.check hbefore hafter hsame
    cases hn : unanswered i h with
    | none =>
      rw [hn] at hu
      exact iff_of_true hu nofun
    | some r =>
      rw [hn] at hu
      cases r with
      | zero => exact iff_of_false hu.2.2 fun hall => absurd (hall 0 rfl) (by decide)
      | succ r =>
        obtain ⟨_, n, hcase, _, hdown⟩ := hu
        obtain rfl : n = r + 1 := by
          rcases hcase with ⟨_, hcase⟩ | ⟨hc, _⟩
          · exact hcase
          · exact absurd hafter hc
        rw [hdown]
        exact ⟨fun hle n hn => Option.some.inj hn ▸ hle, fun hall => hall _ rfl⟩

theorem down_after_three_losses : ∃ m₀ h x t, Machine.initializeMachine sampleIface sampleInfo = some m₀ ∧
    Run step ⟨m₀, .idle⟩ (h ++ [x]) t ∧ x.event = .check ∧ (∃ y ∈ h, acceptedBy 0 y = true) ∧ ThreeLost 0 h := by
  obtain ⟨m₀, l, t, hi, hr, he, hc, hdown, ha, hm⟩ := reaches sampleIface sampleInfo
    ([.check, .request 0, .frame (sampleEcho 0x08080808 0 0).data 5000000, .check, .request 0, .check, .request 0,
      .check, .request 0] ++ [.check])
    (fun t h => t.machine.table.configured = 1 ∧ (t.row 0).rttTime = 65535 ∧ (∃ y ∈ h, acceptedBy 0 y = true) ∧
      ∀ y ∈ h, acceptedBy 0 y = true → measured 0 y ≠ some 65535) (by decide +kernel)
  obtain ⟨h, l, rfl, _, hl⟩ := List.map_eq_append_iff.mp he
  obtain ⟨x, rfl, hx⟩ := List.map_eq_singleton_iff.mp hl
  have hlt : 0 < m₀.table.configured := configured_pos hi hr hc
  obtain ⟨y, hy, hay⟩ := ha
  have hyh : y ∈ h := by
    rcases List.mem_append.mp hy with hy | hy
    · exact hy
    · rw [List.mem_singleton.mp hy, acceptedBy, echoReply, hx] at hay
      cases hay
  exact ⟨m₀, h, x, t, hi, hr, hx, ⟨y, hyh, hay⟩,
    (down_after_check_iff hi hr hx hlt fun z hz => hm z (by simp [hz])).1.mp hdown⟩

end Runs

end Threads

end Overlay
