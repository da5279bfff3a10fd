import Overlay.Threads
import Overlay.Replies

/-! The times of own packets. The port of a packet is taken under the mutex, and its time
is entered later under the counter as it is then, so a request forwarded in between takes
the entry. -/

namespace Overlay

open ByteMemory Execution

/-- An accepted request of a peer, which the main thread forwards. -/
def ThreadEvent.forwards : ThreadEvent → Bool
  | .frame data _ =>
    decide (isValidPacket data = some true ∧ ipP data = 17 ∧ (portDst data = 1000 ∨ portDst data = 2000))
  | _ => false

namespace Threads

def sendsOwn (x : Moment) : Bool :=
  match x.event with
  | .allocate _ ipDst => x.before.machine.table.isServerValid ipDst
  | _ => false

def entersTime (x : Moment) : Bool :=
  match x.event with
  | .record _ => true
  | _ => false

def takesPort (x : Moment) : Bool := sendsOwn x || x.event.forwards

def portsTaken (h : List Moment) : Nat := h.countP takesPort

/-- The entry that `x` makes is that of the own packet `y`; `fs` lies in between. -/
structure Entry (h g : List Moment) (y : Moment) (fs : List Moment) (x : Moment) : Prop where
  history : ∃ k, h = g ++ y :: (fs ++ x :: k)
  own : sendsOwn y = true
  frames : ∀ z ∈ fs, z.event.isFrame = true
  enters : entersTime x = true

/-- What the entry of a packet should be: under the port the packet carries, and under
none that was given to a forwarded one. -/
structure EnteredRight (g : List Moment) (y : Moment) (fs : List Moment) (x : Moment) : Prop where
  key_eq : ∀ sent ∈ y.output, x.before.machine.timesKey = portSrc sent.frame
  not_forwarded : ∀ z ∈ g ++ fs, z.event.forwards = true →
    ∀ sent ∈ z.output, portSrc sent.frame ≠ x.before.machine.timesKey

variable {t u : Threads} {e : ThreadEvent} {out : List Sent}

theorem portSrc_ownPacket {m : Machine} {ipDst nextHop : UInt32} {isDsa : Bool} {sent : Sent}
    (h : m.ownPacket ipDst nextHop isDsa = some sent) : portSrc sent.frame = m.nextPort := by
  unfold Machine.ownPacket at h
  by_cases hg : nextHop = m.table.ipGateway.uint
  · rw [if_pos hg, Option.some.injEq] at h
    rw [← h]
    exact Machine.portSrc_udpPacket _ _ _ _ _
  · rw [if_neg hg] at h
    obtain ⟨mac, _, rfl⟩ := Option.map_eq_some_iff.mp h
    exact Machine.portSrc_udpPacket _ _ _ _ _

/-- What a step does to the counter, and the port that its packet carries. -/
structure CounterStep (t u : Threads) (e : ThreadEvent) (out : List Sent) : Prop where
  srcPort_eq : u.machine.srcPort = t.machine.srcPort + if takesPort ⟨t, e, out⟩ then 1 else 0
  carried : takesPort ⟨t, e, out⟩ = true → ∃ sent, out = [sent] ∧ portSrc sent.frame = t.machine.nextPort

theorem CounterStep.of_not_takes (ht : takesPort ⟨t, e, out⟩ = false)
    (hs : u.machine.srcPort = t.machine.srcPort) : CounterStep t u e out := by
  refine ⟨by rw [hs, ht]; rfl, fun h => ?_⟩
  rw [ht] at h
  cases h

theorem step_counter (h : t.step e = some (u, out)) : CounterStep t u e out := by
  cases step_cases h with
  | check _ => exact .of_not_takes rfl rfl
  | request _ => exact .of_not_takes rfl rfl
  | advertise _ hm =>
    obtain ⟨_, _, rfl, _⟩ := Machine.step_advertise hm
    exact .of_not_takes rfl rfl
  | unknown _ hv => exact .of_not_takes (by simp [takesPort, sendsOwn, hv, ThreadEvent.forwards]) rfl
  | @allocate isDsa ipDst sent _ hv hs =>
    have ht : takesPort ⟨t, .allocate isDsa ipDst, [sent]⟩ = true := by simp [takesPort, sendsOwn, hv]
    exact ⟨by rw [ht]; rfl, fun _ => ⟨sent, rfl, portSrc_ownPacket hs⟩⟩
  | record _ => exact .of_not_takes rfl rfl
  | @frame data now m out _ =>
    have hm : t.machine.step (.frame data now) = some (m, out) := by
      obtain ⟨r, hr, he⟩ := Option.map_eq_some_iff.mp h
      obtain ⟨hu, rfl⟩ := Prod.mk.inj he
      rw [← (Threads.mk.inj hu).1]
      exact hr
    have hp := Machine.step_ports hm
    have ht : takesPort ⟨t, .frame data now, out⟩ = t.machine.allocates (.frame data now) := Bool.false_or _
    refine ⟨by rw [ht]; exact hp.srcPort_eq, fun ha => ?_⟩
    rw [ht] at ha
    cases hp with
    | other hf => rw [ha] at hf; cases hf
    | own _ hne => exact absurd rfl (hne data now)
    | forward _ _ _ _ hsrc => exact ⟨_, rfl, hsrc⟩

/-- While a packet waits for its time, only the main thread and the entry go on. -/
inductive CommandStep (t u : Threads) (e : ThreadEvent) (out : List Sent) : Prop
  | takes : t.command = .idle → sendsOwn ⟨t, e, out⟩ = true → u.command = .packet → CommandStep t u e out
  | frame : e.isFrame = true → u.command = t.command → CommandStep t u e out
  | enters : t.command = .packet → entersTime ⟨t, e, out⟩ = true → u.command = .idle → CommandStep t u e out
  | other : t.command ≠ .packet → u.command ≠ .packet → entersTime ⟨t, e, out⟩ = false →
      sendsOwn ⟨t, e, out⟩ = false → CommandStep t u e out

theorem pinging_ne_packet (m : Machine) (i : Nat) : (pinging m i).command ≠ .packet := by
  unfold pinging
  split_ifs <;> nofun

theorem step_command (h : t.step e = some (u, out)) : CommandStep t u e out := by
  cases step_cases h with
  | check hc => exact .other (by rw [hc]; nofun) (pinging_ne_packet _ _) rfl rfl
  | request hc => exact .other (by rw [hc]; nofun) (pinging_ne_packet _ _) rfl rfl
  | advertise hc _ => exact .other (by rw [hc]; nofun) nofun rfl rfl
  | unknown hc hv => exact .other (by rw [hc]; nofun) (by rw [hc]; nofun) rfl hv
  | allocate hc hv _ => exact .takes hc hv rfl
  | record hc => exact .enters hc rfl rfl
  | frame _ => exact .frame rfl rfl

theorem command_of_entersTime (h : t.step e = some (u, out)) (hx : entersTime ⟨t, e, out⟩ = true) :
    t.command = .packet := by
  cases step_cases h with
  | record hc => exact hc
  | _ => cases hx

theorem command_of_sendsOwn (h : t.step e = some (u, out)) (hx : sendsOwn ⟨t, e, out⟩ = true) :
    u.command = .packet := by
  cases step_cases h with
  | allocate => rfl
  | unknown _ hv => exact absurd (hx.symm.trans hv) nofun
  | _ => cases hx

/-- Only the entry of a time writes `sent_times`, under the key of that moment. -/
theorem step_sentTimes (h : t.step e = some (u, out)) :
    u.machine.sentTimes = t.machine.sentTimes ∨ entersTime ⟨t, e, out⟩ = true ∧
      ∃ now, u.machine.sentTimes = Function.update t.machine.sentTimes t.machine.timesKey now := by
  cases step_cases h with
  | check _ => exact Or.inl rfl
  | request _ => exact Or.inl rfl
  | advertise _ hm =>
    obtain ⟨_, _, rfl, _⟩ := Machine.step_advertise hm
    exact Or.inl rfl
  | unknown _ _ => exact Or.inl rfl
  | allocate _ _ _ => exact Or.inl rfl
  | @record now _ => exact Or.inr ⟨rfl, now, rfl⟩
  | frame hf =>
    left
    cases hf with
    | forward _ _ hf =>
      obtain ⟨_, _, _, rfl⟩ := Machine.natForward_cases hf
      rfl
    | reply _ _ _ _ hr => rw [(Machine.natReply_cases hr).1]
    | _ => rfl

section Runs

variable {h h' : List Moment}

theorem portsTaken_append : portsTaken (h ++ h') = portsTaken h + portsTaken h' := List.countP_append

theorem run_counter (hr : Run step t h u) : u.machine.srcPort = t.machine.srcPort + portsTaken h := by
  induction hr with
  | start => rfl
  | @snoc h v w e o hr he ih =>
    rw [(step_counter he).srcPort_eq, ih, portsTaken_append, Nat.add_assoc]
    simp only [portsTaken, List.countP_singleton]

theorem exists_own_of_packet {m₀ : Machine} (hr : Run step ⟨m₀, .idle⟩ h t) (hc : t.command = .packet) :
    ∃ g y fs, h = g ++ y :: fs ∧ sendsOwn y = true ∧ ∀ z ∈ fs, z.event.isFrame = true := by
  induction hr with
  | start => cases hc
  | @snoc h v w e o hr he ih =>
    cases step_command he with
    | takes _ hs _ => exact ⟨h, _, [], rfl, hs, fun _ hz => absurd hz (by simp)⟩
    | frame hf hu =>
      obtain ⟨g, y, fs, rfl, hs, hfs⟩ := ih (hu ▸ hc)
      refine ⟨g, y, fs ++ [⟨v, e, o⟩], by simp, hs, fun z hz => ?_⟩
      rcases List.mem_append.mp hz with hz | hz
      · exact hfs z hz
      · rw [List.mem_singleton.mp hz]
        exact hf
    | enters _ _ hu => rw [hu] at hc; cases hc
    | other _ hu => exact absurd hc hu

theorem entered_or_waits (hr : Run step t h u) (hc : t.command = .packet) :
    (u.command = .packet ∧ ∀ z ∈ h, z.event.isFrame = true) ∨
      ∃ fs x k, h = fs ++ x :: k ∧ entersTime x = true ∧ ∀ z ∈ fs, z.event.isFrame = true := by
  induction hr with
  | start => exact Or.inl ⟨hc, fun _ hz => absurd hz (by simp)⟩
  | @snoc h v w e o hr he ih =>
    rcases ih with ⟨hv, hfs⟩ | ⟨fs, x, k, rfl, hx, hfs⟩
    · cases step_command he with
      | takes hidle _ _ => rw [hv] at hidle; cases hidle
      | frame hf hu =>
        refine Or.inl ⟨hu.trans hv, fun z hz => ?_⟩
        rcases List.mem_append.mp hz with hz | hz
        · exact hfs z hz
        · rw [List.mem_singleton.mp hz]
          exact hf
      | enters _ hx _ => exact Or.inr ⟨h, ⟨v, e, o⟩, [], rfl, hx, hfs⟩
      | other hn => exact absurd hv hn
    · exact Or.inr ⟨fs, x, k ++ [⟨v, e, o⟩], by simp, hx, hfs⟩

theorem portsTaken_frames {fs : List Moment} (hf : ∀ z ∈ fs, z.event.isFrame = true)
    (hn : ∀ z ∈ fs, z.event.forwards = false) : portsTaken fs = 0 := by
  refine List.countP_eq_zero.mpr fun z hz => ?_
  have hown : sendsOwn z = false := by
    have h := hf z hz
    unfold sendsOwn
    cases he : z.event with
    | allocate isDsa ipDst => rw [he] at h; cases h
    | _ => rfl
  simp [takesPort, hown, hn z hz]

variable {iface : Fin 2 → Interface} {info : Str} {m₀ : Machine} {g fs : List Moment} {x y : Moment}

/-- The port that a step of the run gives away, by its position in the run. -/
theorem carried_port (hi : Machine.initializeMachine iface info = some m₀)
    (hr : Run step ⟨m₀, .idle⟩ (h ++ x :: h') t) (hx : takesPort x = true) :
    ∃ sent, x.output = [sent] ∧ portSrc sent.frame = UInt16.ofNat (8000 + portsTaken h) := by
  obtain ⟨v, hr₁, he, _⟩ := hr.split_at
  obtain ⟨sent, ho, hp⟩ := (step_counter he).carried hx
  have hs : x.before.machine.srcPort = 8000 + portsTaken h := by
    rw [run_counter hr₁]
    show m₀.srcPort + _ = _
    rw [(srcPort_initial hi).1]
  exact ⟨sent, ho, by rw [hp, Machine.nextPort, hs]⟩

theorem Entry.timesKey_eq (hi : Machine.initializeMachine iface info = some m₀)
    (hr : Run step ⟨m₀, .idle⟩ h t) (hx : Entry h g y fs x) :
    x.before.machine.timesKey = UInt16.ofNat (8000 + portsTaken g + portsTaken fs) := by
  obtain ⟨k, rfl⟩ := hx.history
  have hsplit : g ++ y :: (fs ++ x :: k) = (g ++ y :: fs) ++ x :: k := by simp
  obtain ⟨v, hr₁, _, _⟩ := (hsplit ▸ hr).split_at
  have hy : portsTaken [y] = 1 := by simp [portsTaken, takesPort, hx.own]
  have hs : x.before.machine.srcPort = 8000 + (portsTaken g + (1 + portsTaken fs)) := by
    rw [run_counter hr₁, List.append_cons, portsTaken_append, portsTaken_append, hy, Nat.add_assoc]
    show m₀.srcPort + _ = _
    rw [(srcPort_initial hi).1]
  rw [Machine.timesKey, hs]
  congr 1
  omega

theorem ofNat_port_eq_iff {a b : Nat} : UInt16.ofNat a = UInt16.ofNat b ↔ a % 65536 = b % 65536 := by
  rw [← UInt16.toNat_inj, UInt16.toNat_ofNat', UInt16.toNat_ofNat']

theorem takesPort_of_forwards (hx : x.event.forwards = true) : takesPort x = true := by
  rw [takesPort, hx, Bool.or_true]

theorem entered_right_iff (hi : Machine.initializeMachine iface info = some m₀)
    (hr : Run step ⟨m₀, .idle⟩ h t) (hx : Entry h g y fs x) : EnteredRight g y fs x ↔
      (∀ z ∈ fs, z.event.forwards = false) ∧
      ∀ g₁ z g₂, g = g₁ ++ z :: g₂ → z.event.forwards = true → ¬ 65536 ∣ portsTaken (z :: g₂) := by
  have hkey := hx.timesKey_eq hi hr
  obtain ⟨k, hk⟩ := hx.history
  constructor
  · intro hright
    have hfs : ∀ z ∈ fs, z.event.forwards = false := by
      by_contra hn
      have hsome : ∃ z ∈ fs, z.event.forwards = true := by
        push Not at hn
        simpa only [ne_eq, Bool.not_eq_false] using hn
      obtain ⟨f, z, f', hfs, hz, hf'⟩ := exists_last hsome
      have hsplit : h = (g ++ y :: f) ++ z :: (f' ++ x :: k) := by simp [hk, hfs]
      obtain ⟨sent, ho, hp⟩ := carried_port hi (hsplit ▸ hr) (takesPort_of_forwards hz)
      have hf : portsTaken f' = 0 := portsTaken_frames (fun w hw => hx.frames w (by simp [hfs, hw])) hf'
      have hy : portsTaken [y] = 1 := by simp [portsTaken, takesPort, hx.own]
      have hone : portsTaken [z] = 1 := by simp [portsTaken, takesPort_of_forwards hz]
      have hsame : portSrc sent.frame = x.before.machine.timesKey := by
        rw [hp, hkey, hfs, List.append_cons g y f, portsTaken_append, portsTaken_append, hy,
          List.append_cons f z f', portsTaken_append, portsTaken_append, hone, hf]
        congr 1
        omega
      exact hright.not_forwarded z (by simp [hfs]) hz sent (by simp [ho]) hsame
    refine ⟨hfs, fun g₁ z g₂ hg hz hdvd => ?_⟩
    have hzero := portsTaken_frames hx.frames hfs
    have hsplit : h = g₁ ++ z :: (g₂ ++ y :: (fs ++ x :: k)) := by simp [hk, hg]
    obtain ⟨sent, ho, hp⟩ := carried_port hi (hsplit ▸ hr) (takesPort_of_forwards hz)
    have hsame : portSrc sent.frame = x.before.machine.timesKey := by
      rw [hp, hkey, hzero, hg, portsTaken_append, ofNat_port_eq_iff]
      omega
    exact hright.not_forwarded z (by simp [hg]) hz sent (by simp [ho]) hsame
  · rintro ⟨hfs, hg⟩
    rw [portsTaken_frames hx.frames hfs] at hkey
    refine ⟨fun sent hs => ?_, fun z hz hf sent hs hsame => ?_⟩
    · have hy : takesPort y = true := by rw [takesPort, hx.own, Bool.true_or]
      obtain ⟨sent', ho, hp⟩ := carried_port hi (hk ▸ hr) hy
      rw [ho, List.mem_singleton] at hs
      rw [hkey, hs, hp, Nat.add_zero]
    · rcases List.mem_append.mp hz with hz | hz
      · obtain ⟨g₁, g₂, rfl⟩ := List.append_of_mem hz
        have hsplit : h = g₁ ++ z :: (g₂ ++ y :: (fs ++ x :: k)) := by simp [hk]
        obtain ⟨sent', ho, hp⟩ := carried_port hi (hsplit ▸ hr) (takesPort_of_forwards hf)
        rw [ho, List.mem_singleton] at hs
        rw [hs, hp, hkey, portsTaken_append, ofNat_port_eq_iff] at hsame
        refine hg g₁ z g₂ rfl hf ?_
        omega
      · rw [hfs z hz] at hf
        cases hf

/-- The entries are right if no request is forwarded between a packet and its entry, and
the counter has not come round to the port of one forwarded before. -/
theorem send_times_iff (hi : Machine.initializeMachine iface info = some m₀)
    (hr : Run step ⟨m₀, .idle⟩ h t) :
    (∀ h₁ x k u, h = h₁ ++ x :: k → x.before.step x.event = some (u, x.output) →
      u.machine.sentTimes ≠ x.before.machine.sentTimes → ∃ g y fs, Entry h g y fs x ∧
        ∃ now, u.machine.sentTimes =
          Function.update x.before.machine.sentTimes x.before.machine.timesKey now) ∧
    (∀ g y k, h = g ++ y :: k → sendsOwn y = true →
      (t.command = .packet ∧ ∀ z ∈ k, z.event.isFrame = true) ∨ ∃ fs x, Entry h g y fs x) ∧
    ((∀ g y fs x, Entry h g y fs x → EnteredRight g y fs x) ↔
      ∀ g y fs x, Entry h g y fs x → (∀ z ∈ fs, z.event.forwards = false) ∧
        ∀ g₁ z g₂, g = g₁ ++ z :: g₂ → z.event.forwards = true → ¬ 65536 ∣ portsTaken (z :: g₂)) := by
  refine ⟨fun h₁ x k u hk he hne => ?_, fun g y k hk hy => ?_, ?_⟩
  · obtain ⟨_, hr₁, _, _⟩ := (hk ▸ hr).split_at
    rcases step_sentTimes he with hs | ⟨hx, now, hs⟩
    · exact absurd hs hne
    · obtain ⟨g, y, fs, rfl, hy, hfs⟩ := exists_own_of_packet hr₁ (command_of_entersTime he hx)
      exact ⟨g, y, fs, ⟨⟨k, by simp [hk]⟩, hy, hfs, hx⟩, now, hs⟩
  · obtain ⟨v, hr₁, he, hr₂⟩ := (hk ▸ hr).split_at
    rcases entered_or_waits hr₂ (command_of_sendsOwn he hy) with hw | ⟨fs, x, k, rfl, hx, hfs⟩
    · exact Or.inl hw
    · exact Or.inr ⟨fs, x, ⟨k, hk⟩, hy, hfs, hx⟩
  · constructor
    · exact fun hall g y fs x hx => (entered_right_iff hi hr hx).mp (hall g y fs x hx)
    · exact fun hall g y fs x hx => (entered_right_iff hi hr hx).mpr (hall g y fs x hx)

theorem send_times_after_forward : ∃ m₀ h t, Machine.initializeMachine sampleIface sampleInfo = some m₀ ∧
    Run step ⟨m₀, .idle⟩ h t ∧ (∃ g y fs x, Entry h g y fs x ∧ ∃ z ∈ g, z.event.forwards = true) ∧
    ∀ g y fs x, Entry h g y fs x → EnteredRight g y fs x := by
  obtain ⟨m₀, h, t, hi, hr, _, hz, hy, hx⟩ := reaches sampleIface sampleInfo
    [.frame (sampleUdp 0xC0A80002 0x08080808 9000 1000) 0, .allocate true (ascii "8.8.8.8"), .record 0]
    (fun _ h => h.map (·.event.forwards) = [true, false, false] ∧
      h.map sendsOwn = [false, true, false] ∧ h.map entersTime = [false, false, true]) (by decide +kernel)
  obtain ⟨z, h, rfl, hfz, hz⟩ := List.map_eq_cons_iff.mp hz
  obtain ⟨y, h, rfl, hfy, hz⟩ := List.map_eq_cons_iff.mp hz
  obtain ⟨x, rfl, hfx⟩ := List.map_eq_singleton_iff.mp hz
  simp only [List.map_cons, List.map_nil, List.cons.injEq, and_true] at hy hx
  have hentry : Entry [z, y, x] [z] y [] x := ⟨⟨[], rfl⟩, hy.2.1, by simp, hx.2.2⟩
  refine ⟨m₀, _, t, hi, hr, ⟨[z], y, [], x, hentry, z, by simp, hfz⟩, ?_⟩
  refine (send_times_iff hi hr).2.2.mpr fun g y' fs x' he => ?_
  obtain ⟨k, hk⟩ := he.history
  cases g with
  | nil =>
    obtain ⟨rfl, _⟩ := List.cons.inj hk
    exact absurd (he.own.symm.trans hy.1) nofun
  | cons z' g =>
    obtain ⟨rfl, hk⟩ := List.cons.inj hk
    have hlen := congrArg List.length hk
    simp only [List.length_append, List.length_cons, List.length_nil] at hlen
    obtain rfl := List.eq_nil_of_length_eq_zero (show g.length = 0 by omega)
    obtain rfl := List.eq_nil_of_length_eq_zero (show fs.length = 0 by omega)
    refine ⟨by simp, fun g₁ w g₂ hg hw => ?_⟩
    have hlen' := congrArg List.length hg
    simp only [List.length_append, List.length_cons, List.length_nil] at hlen'
    obtain rfl := List.eq_nil_of_length_eq_zero (show g₂.length = 0 by omega)
    have hone : portsTaken [w] = 1 := by simp [portsTaken, takesPort_of_forwards hw]
    omega

/-- A request forwarded between the port 8000 of an own packet and the entry of its time:
the time is entered under 8001, the port of the request. -/
theorem send_time_under_forwarded_port : ∃ m₀ h t g y fs x,
    Machine.initializeMachine sampleIface sampleInfo = some m₀ ∧ Run step ⟨m₀, .idle⟩ h t ∧
    Entry h g y fs x ∧ (∃ sent ∈ y.output, portSrc sent.frame = 8000) ∧
    (∃ z ∈ fs, z.event.forwards = true ∧ ∃ sent ∈ z.output, portSrc sent.frame = 8001) ∧
    x.before.machine.timesKey = 8001 ∧ ¬ EnteredRight g y fs x := by
  obtain ⟨m₀, h, t, hi, hr, _, hz, hy, hx, ho, hk⟩ := reaches sampleIface sampleInfo
    [.allocate true (ascii "8.8.8.8"), .frame (sampleUdp 0xC0A80002 0x08080808 9000 1000) 0, .record 0]
    (fun _ h => h.map (fun x => (x.event.forwards, x.event.isFrame)) =
      [(false, false), (true, true), (false, false)] ∧
      h.map sendsOwn = [true, false, false] ∧ h.map entersTime = [false, false, true] ∧
      h.map (fun x => x.output.map fun sent => portSrc sent.frame) = [[8000], [8001], []] ∧
      h.map (·.before.machine.timesKey) = [7999, 8000, 8001]) (by decide +kernel)
  obtain ⟨y, h, rfl, hfy, hz⟩ := List.map_eq_cons_iff.mp hz
  obtain ⟨z, h, rfl, hfz, hz⟩ := List.map_eq_cons_iff.mp hz
  obtain ⟨x, rfl, hfx⟩ := List.map_eq_singleton_iff.mp hz
  obtain ⟨hforward, hframe⟩ := Prod.mk.inj hfz
  simp only [List.map_cons, List.map_nil, List.cons.injEq, and_true] at hy hx ho hk
  obtain ⟨s, hs, hps⟩ := List.map_eq_singleton_iff.mp ho.1
  obtain ⟨s', hs', hps'⟩ := List.map_eq_singleton_iff.mp ho.2.1
  have hentry : Entry [y, z, x] [] y [z] x := by
    refine ⟨⟨[], rfl⟩, hy.1, fun w hw => ?_, hx.2.2⟩
    rw [List.mem_singleton.mp hw]
    exact hframe
  refine ⟨m₀, _, t, [], y, [z], x, hi, hr, hentry, ⟨s, by simp [hs], hps⟩,
    ⟨z, by simp, hforward, s', by simp [hs'], hps'⟩, hk.2.2, fun hright => ?_⟩
  have hkey := hright.key_eq s (by simp [hs])
  rw [hk.2.2, hps] at hkey
  exact absurd hkey (by decide)

end Runs

end Threads

end Overlay
