import Overlay.Commands
import Overlay.CriticalSections

/-! Everything that goes out to the server while the simulation runs. The threads of a node
send frames and notify changes of addresses, and the main thread connects again when the
event loop has failed; each does so under the one mutex. -/

namespace Overlay

open ByteMemory Dialogues CriticalSections Execution

/-- What is done under the mutex; a recovery starts with some contents of the buffer. -/
inductive Locked
  | command (c : SimulationCommand)
  | recover (memory : Memory)

/-- The stream to the server on the present connection; `sfd` need not be connected. -/
structure Wire where
  sent : Bytes
  connected : Bool
  sentBytes : UInt64

inductive Place
  | connecting (memory : Memory)
  | talking (d : Dialogue UInt8 Returned)

/-- What `connect` returns, or a call on the socket. -/
inductive Outside
  | connects (ok : Bool)
  | call (a : Answer UInt8)

/-- The negotiations of a recovery, which count nothing. -/
def resumeCalls (client : Client) (memory : Memory) : Dialogue UInt8 Returned :=
  (resumeSimulation client memory).bind fun r => .done ⟨r.1.isOk, 0⟩

def locked (client : Client) : Sections Locked Place Wire Outside Bool where
  enter
    | .command c => .talking c.calls
    | .recover memory => .connecting memory
  act
    | .connecting memory, wire, .connects true =>
      some (.talking (resumeCalls client memory), { wire with sent := [], connected := true })
    | .connecting _, wire, .connects false =>
      some (.talking (.done ⟨false, 0⟩), { wire with sent := [], connected := false })
    | .talking d, wire, .call a =>
      if wire.connected = true ∨ a.succeeds = false then
        (d.call a).map fun r => (.talking r.1, { wire with sent := wire.sent ++ r.2 })
      else none
    | _, _, _ => none
  leave
    | .talking (.done r), wire => some (r.res, { wire with sentBytes := wire.sentBytes + UInt64.ofNat r.counted })
    | _, _ => none

/-! The commands of a connection, as if each were one step. -/

/-- What a connection carries: a start, and whole commands behind it, unless a command or a
negotiation was given up in the middle. -/
structure Carrying where
  prologue : Bytes
  commands : List SimulationCommand
  whole : Bool

namespace Carrying

def next (client : Client) (carrying : Carrying) : Locked × Bool → Carrying
  | (.command c, true) => { carrying with commands := carrying.commands ++ [c] }
  | (.command c, false) => if c.Refused then carrying else { carrying with whole := false }
  | (.recover _, true) => { prologue := resumePrologue client, commands := [], whole := true }
  | (.recover _, false) => { carrying with whole := false }

def bytes (carrying : Carrying) : Bytes := carrying.prologue ++ carrying.commands.flatMap SimulationCommand.bytes

end Carrying

def carryingAfter {ι : Type} (client : Client) (prologue : Bytes) (jobs : List (ι × Locked × Bool)) : Carrying :=
  jobs.foldl (fun carrying job => carrying.next client job.2) { prologue := prologue, commands := [], whole := true }

/-- What a job adds to `sentBytes`. -/
def gained : Locked × Bool → Nat
  | (.command c, true) => c.counted
  | _ => 0

/-- The bytes of all frames that were sent. -/
def frameBytes {ι : Type} (jobs : List (ι × Locked × Bool)) : Nat := (jobs.map fun job => gained job.2).sum

section Sections

variable {client : Client} {s t : Wire} {place : Place} {before : Bytes}

/-- A dialogue on the way: the part of the message that is out, and what the rest can still do. -/
structure Midway (message : Bytes) (P : Returned → Prop) (before : Bytes) (s t : Wire) (d : Dialogue UInt8 Returned) :
    Prop where
  sentBytes_eq : t.sentBytes = s.sentBytes
  sent_eq : ∃ out rest, message = out ++ rest ∧ t.sent = before ++ out ∧ d.Says (fun r => r.res = true) rest
  ends : d.Ends P

theorem Midway.start {message : Bytes} {P : Returned → Prop} {d : Dialogue UInt8 Returned}
    (hs : d.Says (fun r => r.res = true) message) (he : d.Ends P) (ht : t.sentBytes = s.sentBytes)
    (hb : t.sent = before) : Midway message P before s t d :=
  ⟨ht, ⟨[], message, (List.nil_append _).symm, by rw [hb, List.append_nil], hs⟩, he⟩

theorem Midway.call {message out : Bytes} {P : Returned → Prop} {d d' : Dialogue UInt8 Returned} {a : Answer UInt8}
    (hm : Midway message P before s t d) (hc : d.call a = some (d', out)) :
    Midway message P before s { t with sent := t.sent ++ out } d' := by
  obtain ⟨sent, rest, rfl, hsent, hrest⟩ := hm.sent_eq
  obtain ⟨more, rfl, hmore⟩ := hrest.call hc
  refine ⟨hm.sentBytes_eq, ⟨sent ++ out, more, (List.append_assoc ..).symm, ?_, hmore⟩, hm.ends.call hc⟩
  rw [hsent, List.append_assoc]

/-- A success has sent the message. -/
theorem Midway.sent {message : Bytes} {P : Returned → Prop} {r : Returned} (hm : Midway message P before s t (.done r))
    (hr : r.res = true) : t.sent = before ++ message := by
  obtain ⟨out, rest, rfl, hsent, hrest⟩ := hm.sent_eq
  rw [hrest hr, List.append_nil, hsent]

theorem resumeCalls_speak (h : client.Fits) (memory : Memory) :
    (resumeCalls client memory).Says (fun r => r.res = true) (resumePrologue client) := by
  have hbind : (resumeCalls client memory).Says (fun r => r.res = true) (resumePrologue client ++ []) :=
    (resumeSimulation_speaks h memory).bind (fun _ _ _ => rfl) (fun _ hr => hr)
  rwa [List.append_nil] at hbind

theorem resumeCalls_end (client : Client) (memory : Memory) :
    (resumeCalls client memory).Ends fun r => r = ⟨true, 0⟩ ∨ r = ⟨false, 0⟩ := by
  apply Dialogue.Ends.bind
  rintro ⟨r, m⟩
  cases r with
  | ok a => exact Or.inl rfl
  | error stop => exact Or.inr rfl

/-- One call of a dialogue that holds the mutex. -/
theorem act_talking {d : Dialogue UInt8 Returned} {a : Outside} {place : Place} {t u : Wire}
    (h : (locked client).act (.talking d) t a = some (place, u)) : ∃ answer d' out, d.call answer = some (d', out) ∧
      place = .talking d' ∧ u = { t with sent := t.sent ++ out } := by
  cases a with
  | connects ok => cases h
  | call answer =>
    simp only [locked] at h
    split_ifs at h
    obtain ⟨⟨d', out⟩, hcall, h⟩ := Option.map_eq_some_iff.mp h
    obtain ⟨rfl, rfl⟩ := Prod.mk.inj h
    exact ⟨answer, d', out, hcall, rfl, rfl⟩

theorem inside_command {c : SimulationCommand} (hi : (locked client).Inside (.command c) s place t) :
    ∃ d, place = .talking d ∧ Midway c.bytes c.Result s.sent s t d := by
  induction hi with
  | entered =>
    exact ⟨c.calls, rfl, .start c.calls_speak c.calls_end rfl rfl⟩
  | acted _ hact ih =>
    obtain ⟨d, rfl, hm⟩ := ih
    obtain ⟨answer, d', out, hcall, rfl, rfl⟩ := act_talking hact
    exact ⟨d', rfl, hm.call hcall⟩

theorem inside_recover (h : client.Fits) {memory : Memory} (hi : (locked client).Inside (.recover memory) s place t) :
    place = .connecting memory ∧ t = s ∨
      ∃ d, place = .talking d ∧ Midway (resumePrologue client) (fun r => r = ⟨true, 0⟩ ∨ r = ⟨false, 0⟩) [] s t d := by
  induction hi with
  | entered => exact Or.inl ⟨rfl, rfl⟩
  | @acted _ _ _ _ a _ hact ih =>
    rcases ih with ⟨rfl, rfl⟩ | ⟨d, rfl, hm⟩
    · match a with
      | .connects true =>
        obtain ⟨rfl, rfl⟩ := Prod.mk.inj (Option.some.inj hact)
        exact Or.inr ⟨_, rfl, .start (resumeCalls_speak h memory) (resumeCalls_end client memory) rfl rfl⟩
      | .connects false =>
        obtain ⟨rfl, rfl⟩ := Prod.mk.inj (Option.some.inj hact)
        have hspeaks : (Dialogue.done ⟨false, 0⟩ : Dialogue UInt8 Returned).Says (fun r => r.res = true)
            (resumePrologue client) := fun hfalse => Bool.noConfusion hfalse
        exact Or.inr ⟨_, rfl, .start hspeaks (Or.inr rfl) rfl rfl⟩
      | .call _ => cases hact
    · obtain ⟨answer, d', out, hcall, rfl, rfl⟩ := act_talking hact
      exact Or.inr ⟨d', rfl, hm.call hcall⟩

theorem leave_cases {res : Bool} {u : Wire} (h : (locked client).leave place t = some (res, u)) :
    ∃ r, place = .talking (.done r) ∧ res = r.res ∧ u = { t with sentBytes := t.sentBytes + UInt64.ofNat r.counted } := by
  match place with
  | .talking (.done r) =>
    obtain ⟨rfl, rfl⟩ := Prod.mk.inj (Option.some.inj h)
    exact ⟨r, rfl, rfl, rfl⟩
  | .talking (.send _ _) => cases h
  | .talking (.receive _ _) => cases h
  | .connecting _ => cases h

end Sections

/-- The stream to the server at a moment when no one holds the mutex. -/
structure Carries (carrying : Carrying) (counted : Nat) (wire : Wire) : Prop where
  sent_eq : carrying.whole = true → wire.sent = carrying.bytes
  commands : ∀ c ∈ carrying.commands, ¬ c.Refused
  sentBytes_eq : wire.sentBytes = UInt64.ofNat counted

section Serial

variable {ι : Type} {client : Client} {first : Bytes} {jobs : List (ι × Locked × Bool)} {t : Wire}

theorem carryingAfter_snoc (i : ι) (job : Locked) (res : Bool) : carryingAfter client first (jobs ++ [(i, job, res)]) =
    (carryingAfter client first jobs).next client (job, res) := by
  rw [carryingAfter, List.foldl_append]
  rfl

theorem frameBytes_snoc (i : ι) (job : Locked) (res : Bool) :
    frameBytes (jobs ++ [(i, job, res)]) = frameBytes jobs + gained (job, res) := by
  simp [frameBytes]

theorem carries_command {carrying : Carrying} {counted : Nat} {c : SimulationCommand} {r : Returned} {u : Wire}
    (h : Carries carrying counted t) (hm : Midway c.bytes c.Result t.sent t u (.done r)) :
    Carries (carrying.next client (.command c, r.res)) (counted + gained (.command c, r.res))
      { u with sentBytes := u.sentBytes + UInt64.ofNat r.counted } := by
  rcases hm.ends with ⟨rfl, hc⟩ | rfl
  · refine ⟨fun hwhole => ?_, fun d hd => ?_, ?_⟩
    · have hsent := hm.sent rfl
      simp only [Carrying.next] at hwhole ⊢
      rw [hsent, h.sent_eq hwhole]
      simp [Carrying.bytes]
    · rcases List.mem_append.mp hd with hd | hd
      · exact h.commands d hd
      · rw [List.mem_singleton.mp hd]
        exact hc
    · show u.sentBytes + _ = _
      rw [hm.sentBytes_eq, h.sentBytes_eq, UInt64.ofNat_add]
      rfl
  · refine ⟨fun hwhole => ?_, fun d hd => ?_, ?_⟩
    · by_cases hc : c.Refused
      · obtain ⟨out, rest, hout, hsent, -⟩ := hm.sent_eq
        rw [bytes_of_refused hc] at hout
        simp only [Carrying.next, hc, if_true] at hwhole ⊢
        rw [hsent, (List.append_eq_nil_iff.mp hout.symm).1, List.append_nil]
        exact h.sent_eq hwhole
      · simp [Carrying.next, hc] at hwhole
    · apply h.commands d
      simp only [Carrying.next] at hd
      split_ifs at hd <;> exact hd
    · show u.sentBytes + _ = _
      rw [hm.sentBytes_eq, h.sentBytes_eq, UInt64.ofNat_add]
      rfl

theorem carries_recover {carrying : Carrying} {counted : Nat} {memory : Memory} {r : Returned} {u : Wire}
    (h : Carries carrying counted t)
    (hm : Midway (resumePrologue client) (fun r => r = ⟨true, 0⟩ ∨ r = ⟨false, 0⟩) [] t u (.done r)) :
    Carries (carrying.next client (.recover memory, r.res)) (counted + gained (.recover memory, r.res))
      { u with sentBytes := u.sentBytes + UInt64.ofNat r.counted } := by
  have hcounted (n : Nat) : u.sentBytes + UInt64.ofNat n = UInt64.ofNat (counted + n) := by
    rw [hm.sentBytes_eq, h.sentBytes_eq, UInt64.ofNat_add]
  rcases hm.ends with rfl | rfl
  · refine ⟨fun _ => ?_, fun d hd => (List.not_mem_nil hd).elim, hcounted 0⟩
    have hsent := hm.sent rfl
    rw [List.nil_append] at hsent
    simp only [Carrying.next, Carrying.bytes, List.flatMap_nil, List.append_nil]
    exact hsent
  · exact ⟨fun hwhole => Bool.noConfusion hwhole, h.commands, hcounted 0⟩

/-- Whole jobs leave whole commands. -/
theorem serial_carries (hc : client.Fits)
    (hs : (locked client).Serial { sent := first, connected := true, sentBytes := 0 } jobs t) :
    Carries (carryingAfter client first jobs) (frameBytes jobs) t := by
  induction hs with
  | start => exact ⟨fun _ => (List.append_nil first).symm, fun c hc => (List.not_mem_nil hc).elim, rfl⟩
  | @snoc jobs t u v place r i job _ hinside hleave ih =>
    obtain ⟨r, rfl, rfl, rfl⟩ := leave_cases hleave
    rw [carryingAfter_snoc, frameBytes_snoc]
    cases job with
    | command c =>
      obtain ⟨d, hd, hm⟩ := inside_command hinside
      obtain rfl := Place.talking.inj hd
      exact carries_command ih hm
    | recover memory =>
      rcases inside_recover hc hinside with ⟨hd, -⟩ | ⟨d, hd, hm⟩
      · cases hd
      · obtain rfl := Place.talking.inj hd
        exact carries_recover ih hm

end Serial

/-- The server has read these commands behind the start of the connection, and what is left. -/
def ServerReads (prologue : Bytes) (wire : Wire) (commands : List SimulationCommand) (rest : Bytes) : Prop :=
  ∃ stream, wire.sent = prologue ++ stream ∧ readCommands stream = (commands, rest)

theorem serverReads_of_part {carrying : Carrying} {wire : Wire} {part : Bytes} (h : ∀ c ∈ carrying.commands, ¬ c.Refused)
    (hw : wire.sent = carrying.bytes ++ part) (hp : readCommand part = none) :
    ServerReads carrying.prologue wire carrying.commands part := by
  refine ⟨carrying.commands.flatMap SimulationCommand.bytes ++ part, by rw [hw, Carrying.bytes, List.append_assoc], ?_⟩
  rw [readCommands_append h, readCommands_none hp, List.append_nil]

/-- Part of a command, or all of it, behind the commands so far. -/
theorem serverReads_midway {carrying : Carrying} {wire : Wire} {c : SimulationCommand} {part : Bytes}
    (h : ∀ c ∈ carrying.commands, ¬ c.Refused) (hw : wire.sent = carrying.bytes ++ part) (hp : part <+: c.bytes) :
    (ServerReads carrying.prologue wire carrying.commands part ∧ part <+: c.bytes) ∨
      ServerReads carrying.prologue wire (carrying.commands ++ [c]) [] := by
  by_cases hc : c.Refused
  · rw [bytes_of_refused hc, List.prefix_nil] at hp
    subst hp
    exact Or.inl ⟨serverReads_of_part h hw rfl, List.nil_prefix⟩
  · by_cases hall : part = c.bytes
    · right
      refine ⟨(carrying.commands ++ [c]).flatMap SimulationCommand.bytes ++ [], ?_, ?_⟩
      · rw [hw, hall, Carrying.bytes]
        simp
      · have hl : ∀ d ∈ carrying.commands ++ [c], ¬ d.Refused := by
          intro d hd
          rcases List.mem_append.mp hd with hd | hd
          · exact h d hd
          · rw [List.mem_singleton.mp hd]
            exact hc
        rw [readCommands_append hl, readCommands_none rfl, List.append_nil]
    · exact Or.inl ⟨serverReads_of_part h hw (readCommand_part hp hall), hp⟩

section Runs

variable {ι : Type} [DecidableEq ι] {client : Client} {first : Bytes}
  {h : List (Moment ι Locked Place Wire Outside Bool)} {w : World ι Locked Place Wire}

/-- A job counts when it is done. -/
theorem sentBytes_inside (hc : client.Fits) {job : Locked} {place : Place} {t u : Wire}
    (hi : (locked client).Inside job t place u) : u.sentBytes = t.sentBytes := by
  cases job with
  | command c =>
    obtain ⟨d, -, hm⟩ := inside_command hi
    exact hm.sentBytes_eq
  | recover memory =>
    rcases inside_recover hc hi with ⟨-, rfl⟩ | ⟨d, -, hm⟩
    · rfl
    · exact hm.sentBytes_eq

/-- In every interleaving of the threads, commands reach the server whole, each once and in the
order in which the mutex was left: what it has read of the present connection are the commands
that returned `true` since that connection was made, and at most a part of one more. -/
theorem commands_reach_server_whole (hc : client.Fits)
    (hr : Run (locked client).move (start { sent := first, connected := true, sentBytes := 0 }) h w) :
    (∀ i, calledBy i h = finishedBy i h ++ (w.phase i).pending) ∧
    w.shared.sentBytes = UInt64.ofNat (frameBytes (finished h)) ∧
    let carrying := carryingAfter client first (finished h)
    carrying.whole = true →
      (w.holder = none → ServerReads carrying.prologue w.shared carrying.commands []) ∧
      (∀ i c place, w.phase i = .inside (.command c) place →
        (∃ part, part <+: c.bytes ∧ ServerReads carrying.prologue w.shared carrying.commands part) ∨
          ServerReads carrying.prologue w.shared (carrying.commands ++ [c]) []) ∧
      ∀ i memory place, w.phase i = .inside (.recover memory) place →
        ServerReads carrying.prologue w.shared carrying.commands [] ∨ w.shared.sent <+: resumePrologue client := by
  obtain ⟨hheld, ⟨t, hserial, hfree, hinside⟩, horder⟩ := consistent hr
  obtain ⟨hsent, hvalid, hcounted⟩ := serial_carries hc hserial
  have hbytes : w.shared.sentBytes = t.sentBytes := by
    cases hholder : w.holder with
    | none => rw [hfree hholder]
    | some i =>
      obtain ⟨job, place, hi⟩ := (hheld i).mp hholder
      exact sentBytes_inside hc (hinside i job place hi)
  refine ⟨horder, hbytes.trans hcounted, fun hwhole => ⟨fun hholder => ?_, fun i c place hi => ?_,
    fun i memory place hi => ?_⟩⟩
  · apply serverReads_of_part hvalid _ rfl
    rw [hfree hholder, hsent hwhole, List.append_nil]
  · obtain ⟨d, -, hm⟩ := inside_command (hinside i _ place hi)
    obtain ⟨part, rest, hpart, hpresent, -⟩ := hm.sent_eq
    rw [hsent hwhole] at hpresent
    rcases serverReads_midway hvalid hpresent ⟨rest, hpart.symm⟩ with ⟨hreads, hprefix⟩ | hreads
    · exact Or.inl ⟨part, hprefix, hreads⟩
    · exact Or.inr hreads
  · rcases inside_recover hc (hinside i _ place hi) with ⟨-, hsame⟩ | ⟨d, -, hm⟩
    · left
      apply serverReads_of_part hvalid _ rfl
      rw [hsame, hsent hwhole, List.append_nil]
    · right
      obtain ⟨out, rest, hout, hpresent, -⟩ := hm.sent_eq
      rw [hpresent, List.nil_append, hout]
      exact List.prefix_append out rest

end Runs

/-- One thread sends a frame in pieces, another one waits to notify its address, and in between
the connection is made again. -/
def sampleMoves : List (Move Bool Locked Outside) :=
  [.call true (.command (.sendFrame (List.replicate 14 7) 0)), .lock true, .act true (.call (.took 10)),
    .call false (.recover fun _ => 0), .act true (.call (.took 6)), .act true (.call (.took 8)), .unlock true,
    .call true (.command (.changeIPAddress 1 0)), .lock false, .act false (.connects true)] ++
  [.took 10, .arrived (numbers [0, 1]), .took 14, .arrived (numbers [1, 2]), .took 4, .arrived (numbers [1, 4]),
    .took 4, .arrived (numbers [3])].map (fun a => .act false (.call a)) ++
  [.unlock false, .lock true, .act true (.call (.took 5))]

theorem commands_reach_server_whole_after_recovery : ∃ (h : List (Moment Bool Locked Place Wire Outside Bool))
    (w : World Bool Locked Place Wire),
    Run (locked sampleClient).move (start { sent := [], connected := true, sentBytes := 0 }) h w ∧
    w.shared.sentBytes = 14 ∧ (carryingAfter sampleClient [] (finished h)).whole = true := by
  obtain ⟨s₀, h, w, hs₀, hr, -, hbytes, hwhole⟩ := @exists_run _ _ _ (locked sampleClient).move Wire
    (some { sent := [], connected := true, sentBytes := 0 }) start sampleMoves
    (fun w h => frameBytes (finished h) = 14 ∧ (carryingAfter sampleClient [] (finished h)).whole = true)
    inferInstance (by decide +kernel)
  obtain rfl := Option.some.inj hs₀
  have hreach := commands_reach_server_whole sampleClient_fits hr
  rw [hbytes] at hreach
  exact ⟨h, w, hr, hreach.2.1, hwhole⟩

end Overlay
