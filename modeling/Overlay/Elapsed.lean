import Overlay.Exchanges

/-! The round-trip time a node reports for a server against the times its replies took. The
time of a reply is kept in 16 bits, and the largest of these values stands for a server
that is down. -/

namespace Overlay

open ByteMemory Execution

/-- The round-trip time of a server whose replies took these times since it was last down. -/
structure RttWithin (times : List Int) (rtt : Int) : Prop where
  down : rtt = 65535 ↔ times = []
  least : times ≠ [] → ∃ a ∈ times, min a 65534 ≤ rtt
  most : times ≠ [] → ∃ b ∈ times, rtt ≤ min b 65534

namespace RttWithin

variable {times : List Int} {rtt time : Int}

theorem nil : RttWithin [] 65535 := ⟨by simp, by simp, by simp⟩

/-- The first reply after a time down. -/
theorem first_iff (ht : 0 ≤ time) :
    RttWithin [time] (time % 65536) ↔ time ≤ 65534 ∨ time % 65536 = 65534 := by
  constructor
  · rintro ⟨hdown, hleast, hmost⟩
    obtain ⟨a, ha, hle⟩ := hleast (by simp)
    obtain ⟨b, hb, hge⟩ := hmost (by simp)
    obtain rfl := List.mem_singleton.mp ha
    obtain rfl := List.mem_singleton.mp hb
    omega
  · intro h
    refine ⟨?_, fun _ => ⟨time, by simp, ?_⟩, fun _ => ⟨time, by simp, ?_⟩⟩
    · simp only [List.cons_ne_nil, iff_false]
      omega
    · omega
    · omega

/-- Averaging in one more time leaves the range only on the lower side. -/
theorem next_iff (h : RttWithin times rtt) (hn : times ≠ []) (hr : 0 ≤ rtt ∧ rtt ≤ 65535) (ht : 0 ≤ time) :
    RttWithin (times ++ [time]) ((rtt + time % 65536) / 2) ↔
      time ≤ 65535 ∨ ∃ a ∈ times, 2 * min a 65534 ≤ rtt + time % 65536 := by
  have hup : rtt ≠ 65535 := fun he => hn (h.down.mp he)
  obtain ⟨a, ha, hle⟩ := h.least hn
  obtain ⟨b, hb, hge⟩ := h.most hn
  constructor
  · rintro ⟨_, hleast, _⟩
    obtain ⟨c, hc, hlow⟩ := hleast (by simp)
    rcases List.mem_append.mp hc with hc | hc
    · exact Or.inr ⟨c, hc, by omega⟩
    · obtain rfl := List.mem_singleton.mp hc
      rcases Int.lt_or_le 65535 c with hlarge | hsmall
      · exact Or.inr ⟨a, ha, by omega⟩
      · exact Or.inl hsmall
  · intro hc
    refine ⟨?_, fun _ => ?_, fun _ => ?_⟩
    · have hne : times ++ [time] ≠ [] := by simp
      simp only [hne, iff_false]
      omega
    · rcases hc with hsmall | ⟨c, hc, hlow⟩
      · rcases Int.le_total rtt time with hle | hle
        · exact ⟨a, by simp [ha], by omega⟩
        · exact ⟨time, by simp, by omega⟩
      · exact ⟨c, by simp [hc], by omega⟩
    · rcases Int.le_total (time % 65536) rtt with hle | hle
      · exact ⟨b, by simp [hb], by omega⟩
      · exact ⟨time, by simp, by omega⟩

end RttWithin

theorem milliseconds_toNat (duration : Int) :
    ((milliseconds duration).toNat : Int) = duration.tdiv 1000000 % 65536 := by
  have hpos := Int.emod_nonneg (duration.tdiv 1000000) (show (65536 : Int) ≠ 0 by decide)
  have hlt := Int.emod_lt_of_pos (duration.tdiv 1000000) (show (0 : Int) < 65536 by decide)
  have hnat : (duration.tdiv 1000000 % 65536).toNat % 65536 = (duration.tdiv 1000000 % 65536).toNat :=
    Nat.mod_eq_of_lt (by omega)
  rw [milliseconds, UInt16.ofInt, UInt16.toNat_ofNat']
  show (((duration.tdiv 1000000 % 65536).toNat % 65536 : Nat) : Int) = _
  rw [hnat, Int.toNat_of_nonneg hpos]

theorem average_toNat (a b : UInt16) :
    ((UInt16.ofNat ((a.toNat + b.toNat) / 2)).toNat : Int) = ((a.toNat : Int) + b.toNat) / 2 := by
  have ha := a.toNat_lt
  have hb := b.toNat_lt
  rw [UInt16.toNat_ofNat', Nat.mod_eq_of_lt (by omega)]
  omega

namespace Threads

/-- The milliseconds from the last request of row `i` to the frame that arrives. -/
def elapsed (i : Nat) (x : Moment) : Int :=
  match x.event with
  | .frame _ now => (now - (x.before.row i).pingSendTime).tdiv 1000000
  | _ => 0

/-- The check of a ping finds the third loss of row `i`. -/
def takesDown (i : Nat) (x : Moment) : Bool :=
  match x.event with
  | .check => (x.before.row i).isReceivedLastPing = false ∧ (x.before.row i).pingLostNumbers = 2
  | _ => false

/-- The times of the replies row `i` took since it was last down. -/
def timesSinceDown (i : Nat) (h : List Moment) : List Int :=
  h.foldl (fun times x =>
    if acceptedBy i x then times ++ [elapsed i x] else if takesDown i x then [] else times) []

/-- Where 16 bits are enough for the reply. -/
def KeepsWithin (i : Nat) (h : List Moment) (x : Moment) : Prop :=
  acceptedBy i x = true →
    (timesSinceDown i h = [] → elapsed i x ≤ 65534 ∨ elapsed i x % 65536 = 65534) ∧
    (timesSinceDown i h ≠ [] → elapsed i x ≤ 65535 ∨ ∃ a ∈ timesSinceDown i h,
      2 * min a 65534 ≤ (x.before.row i).rttTime.toNat + elapsed i x % 65536)

variable {t u : Threads} {i : Nat} {e : ThreadEvent} {out : List Sent} {h : List Moment} {x : Moment}

theorem timesSinceDown_snoc : timesSinceDown i (h ++ [x]) = if acceptedBy i x then
    timesSinceDown i h ++ [elapsed i x] else if takesDown i x then [] else timesSinceDown i h :=
  List.foldl_concat ..

theorem takesDown_check : takesDown i ⟨t, .check, out⟩ = true ↔
    (t.row i).isReceivedLastPing = false ∧ (t.row i).pingLostNumbers = 2 := decide_eq_true_iff

theorem takesDown_eq_false (h : e ≠ .check) : takesDown i ⟨t, e, out⟩ = false := by
  cases e with
  | check => exact absurd rfl h
  | _ => rfl

theorem not_accepted (ha : acceptedBy i x = false) : KeepsWithin i h x := by
  intro h
  rw [ha] at h
  cases h

theorem accept_within {data : Bytes} {now : Int} (ha : acceptedBy i ⟨t, .frame data now, out⟩ = true)
    (hw : RttWithin (timesSinceDown i h) (t.row i).rttTime.toNat) (hn : 0 ≤ elapsed i ⟨t, .frame data now, out⟩) :
    KeepsWithin i h ⟨t, .frame data now, out⟩ ↔
      RttWithin (timesSinceDown i h ++ [elapsed i ⟨t, .frame data now, out⟩])
        ((t.row i).pingReceivedAt now).rttTime.toNat := by
  have hm : ((milliseconds (now - (t.row i).pingSendTime)).toNat : Int) =
      elapsed i ⟨t, .frame data now, out⟩ % 65536 := milliseconds_toNat _
  rw [ServerInformation.pingReceivedAt_eq]
  by_cases hdown : (t.row i).rttTime = 65535
  · have hnil : timesSinceDown i h = [] := by
      refine hw.down.mp ?_
      rw [hdown]
      rfl
    simp only [if_pos hdown, hm, hnil, List.nil_append, RttWithin.first_iff hn, KeepsWithin, ha,
      true_imp_iff, ne_eq, not_true_eq_false, false_imp_iff, and_true]
  · have hne : timesSinceDown i h ≠ [] := by
      intro hnil
      refine hdown (UInt16.toNat_inj.mp ?_)
      have hrtt := hw.down.mpr hnil
      exact Int.ofNat.inj hrtt
    have hlt := (t.row i).rttTime.toNat_lt
    simp only [if_neg hdown, average_toNat, hm, RttWithin.next_iff hw hne (by omega) hn, KeepsWithin, ha,
      true_imp_iff, ne_eq, hne, not_false_eq_true, false_imp_iff, true_and]

theorem row_within (hrow : RowStep i t u out e) (hw : RttWithin (timesSinceDown i h) (t.row i).rttTime.toNat)
    (hn : acceptedBy i ⟨t, e, out⟩ = true → 0 ≤ elapsed i ⟨t, e, out⟩) :
    KeepsWithin i h ⟨t, e, out⟩ ↔
      RttWithin (timesSinceDown i (h ++ [⟨t, e, out⟩])) (u.row i).rttTime.toNat := by
  rw [timesSinceDown_snoc]
  cases hrow with
  | check _ _ hsame =>
    obtain ⟨_, _, hrow⟩ := hsame
    have ha : acceptedBy i ⟨t, .check, out⟩ = false := rfl
    have hrtt : (u.row i).rttTime = if (t.row i).isReceivedLastPing = false ∧ (t.row i).pingLostNumbers = 2
        then 65535 else (t.row i).rttTime := by rw [hrow, ServerInformation.checkAlive_eq]
    refine iff_of_true (not_accepted ha) ?_
    rw [ha, if_neg (by decide), hrtt]
    by_cases hdown : (t.row i).isReceivedLastPing = false ∧ (t.row i).pingLostNumbers = 2
    · rw [if_pos (takesDown_check.mpr hdown), if_pos hdown]
      exact .nil
    · rw [if_neg fun h => hdown (takesDown_check.mp h), if_neg hdown]
      exact hw
  | @request now _ _ _ hsame =>
    obtain ⟨_, _, hrow⟩ := hsame
    have ha : acceptedBy i ⟨t, .request now, out⟩ = false := rfl
    have hd : takesDown i ⟨t, .request now, out⟩ = false := rfl
    have hrtt : (u.row i).rttTime = (t.row i).rttTime := by
      rw [hrow, ServerInformation.updateServerInformation_eq]
    rw [ha, hd, if_neg (by decide), if_neg (by decide), hrtt]
    exact iff_of_true (not_accepted ha) hw
  | @accept data now ha _ hsame =>
    obtain ⟨_, _, hrow⟩ := hsame
    have hrtt : (u.row i).rttTime = ((t.row i).pingReceivedAt now).rttTime := by rw [hrow]
    rw [if_pos ha, hrtt]
    exact accept_within ha hw (hn ha)
  | other hne _ ha _ hsame =>
    obtain ⟨_, _, hrow⟩ := hsame
    have hrtt : (u.row i).rttTime = (t.row i).rttTime := by rw [hrow]
    rw [ha, takesDown_eq_false hne, if_neg (by decide), if_neg (by decide), hrtt]
    exact iff_of_true (not_accepted ha) hw

section Runs

variable {iface : Fin 2 → Interface} {info : Str} {m₀ : Machine}

/-- The round-trip time of a server stays within the times of its replies just as long as
each of them is kept within 16 bits. -/
theorem rtt_within_iff (hi : Machine.initializeMachine iface info = some m₀) (hr : Run step ⟨m₀, .idle⟩ h t)
    (hlt : i < m₀.table.configured) (hn : ∀ y ∈ h, acceptedBy i y = true → 0 ≤ elapsed i y) :
    (∀ k x, k ++ [x] <+: h → KeepsWithin i k x) ↔ ∀ k u, k <+: h → Run step ⟨m₀, .idle⟩ k u →
      RttWithin (timesSinceDown i k) (u.row i).rttTime.toNat := by
  refine hr.holds_iff (Q := fun k u => RttWithin (timesSinceDown i k) (u.row i).rttTime.toNat) ?_
    fun hk hm hw he => row_within (run_row hi hk hlt he) hw (hn _ hm)
  obtain ⟨serverId, hs⟩ := start_row hi hlt
  rw [hs]
  exact .nil

/-- Two replies, three pings lost, and two more replies after a minute and half a minute:
the server has been down in between, so only these two count. -/
theorem rtt_within_after_down : ∃ m₀ h t, Machine.initializeMachine sampleIface sampleInfo = some m₀ ∧
    Run step ⟨m₀, .idle⟩ h t ∧ h.countP (acceptedBy 0) = 4 ∧ h.countP (takesDown 0) = 1 ∧
    timesSinceDown 0 h = [60000, 30001] ∧ (t.row 0).rttTime = 45000 ∧
    ∀ k u, k <+: h → Run step ⟨m₀, .idle⟩ k u → RttWithin (timesSinceDown 0 k) (u.row 0).rttTime.toNat := by
  obtain ⟨m₀, h, t, hi, hr, _, hc, haccepted, hdown, htimes, hrtt, hall⟩ := reaches sampleIface sampleInfo
    [.check, .request 0, .frame (sampleEcho 0x08080808 0 0).data 40000000,
      .check, .request 0, .frame (sampleEcho 0x08080808 1 0).data 20000000,
      .check, .request 0, .check, .request 0, .check, .request 0, .check, .request 0,
      .frame (sampleEcho 0x08080808 5 0).data 60000000000,
      .check, .request 0, .frame (sampleEcho 0x08080808 6 0).data 30001000000]
    (fun t h => t.machine.table.configured = 1 ∧ h.countP (acceptedBy 0) = 4 ∧ h.countP (takesDown 0) = 1 ∧
      timesSinceDown 0 h = [60000, 30001] ∧ (t.row 0).rttTime = 45000 ∧
      ∀ y ∈ h, 0 ≤ elapsed 0 y ∧ elapsed 0 y ≤ 65534) (by decide +kernel)
  have hlt : 0 < m₀.table.configured := configured_pos hi hr hc
  have hkeeps : ∀ k x, k ++ [x] <+: h → KeepsWithin 0 k x := by
    intro k x hk _
    have hx := (hall x (hk.subset (by simp))).2
    exact ⟨fun _ => Or.inl hx, fun _ => Or.inl (by omega)⟩
  exact ⟨m₀, h, t, hi, hr, haccepted, hdown, htimes, hrtt,
    (rtt_within_iff hi hr hlt fun y hy _ => (hall y hy).1).mp hkeeps⟩

/-- A reply after 65535 milliseconds leaves the server down. -/
theorem slow_reply_stays_down : ¬ ∀ iface info m₀ h t i, Machine.initializeMachine iface info = some m₀ →
    Run step ⟨m₀, .idle⟩ h t → i < m₀.table.configured →
    (∀ y ∈ h, acceptedBy i y = true → 0 ≤ elapsed i y) →
    RttWithin (timesSinceDown i h) (t.row i).rttTime.toNat := by
  intro hall
  obtain ⟨m₀, h, t, hi, hr, _, hc, htimes, hdown, hpos⟩ := reaches sampleIface sampleInfo
    [.check, .request 0, .frame (sampleEcho 0x08080808 0 0).data 65535000000]
    (fun t h => t.machine.table.configured = 1 ∧ timesSinceDown 0 h = [65535] ∧ (t.row 0).rttTime = 65535 ∧
      ∀ y ∈ h, acceptedBy 0 y = true → 0 ≤ elapsed 0 y) (by decide +kernel)
  have hlt : 0 < m₀.table.configured := configured_pos hi hr hc
  have hw := hall _ _ _ _ _ _ hi hr hlt hpos
  rw [htimes, hdown] at hw
  exact absurd (hw.down.mp rfl) (by simp)

end Runs

end Threads

end Overlay
