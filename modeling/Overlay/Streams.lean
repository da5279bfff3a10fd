import Overlay.Commands
import Overlay.Notifications
import Overlay.Relays
import Overlay.Simulation

/-! The nodes and the server between them, byte by byte: commands and notifications are written
to streams that arrive in pieces and may break off, and the main thread of a node connects again.
What the nodes do over the streams is what they do over the link, on frames that fit the buffer. -/

namespace Overlay

open ByteMemory Execution Interleaving Simulation

/-- A node with its connection: `socket` holds the pieces that have arrived and the bytes that the
server has not read, `inbound` what is on the way from the server. -/
structure Endpoint where
  machine : Machine
  buffer : Nat → UInt8
  socket : Socket
  inbound : Bytes
  connected : Bool
  listening : Bool

/-- The frames for the link are those that the server has read, with their senders. -/
structure Streams (ι : Type*) where
  endpoint : ι → Endpoint
  served : List (ι × Bytes)

inductive StreamMove (ι : Type*)
  | own (i : ι) (e : Event)
  | serve (i : ι)
  | tell (i : ι) (notification : Notification)
  | arrive (i : ι) (count : Nat)
  | read (i : ι) (now : Int)
  | breakOff (i : ι) (count : Nat)
  | recover (i : ι) (buffer : Nat → UInt8)

/-- What a node does, what it does it about, and the frames that it sends. -/
abbrev Seen (ι : Type*) := ι × Event × List Sent

def frameCommand (sent : Sent) : SimulationCommand := .sendFrame sent.frame (UInt32.ofNat sent.iface)

namespace Endpoint

variable (p : Endpoint)

/-- The bytes of a command are lost on a broken connection. -/
def write (out : List Sent) : Endpoint :=
  if p.connected then
    { p with socket := { p.socket with
        outgoing := p.socket.outgoing ++ (out.map frameCommand).flatMap SimulationCommand.bytes } }
  else p

def take (e : Event) : Option (Endpoint × List Sent) :=
  (p.machine.step e).map fun r => ({ p with machine := r.1 }.write r.2, r.2)

/-- What has arrived can be read up to the break, and the server reads some of what was sent. -/
def breakOff (count : Nat) : Endpoint :=
  { p with
    socket := { p.socket with incoming := p.socket.incoming ++ [none], outgoing := p.socket.outgoing.take count }
    inbound := []
    connected := false }

/-- A new connection behind the negotiations, which leave something in the buffer. -/
def recover (buffer : Nat → UInt8) : Endpoint :=
  { p with
    buffer := buffer
    socket := { incoming := [], accepting := [], outgoing := [] }
    inbound := []
    connected := true
    listening := true }

end Endpoint

def linkFrame {ι : Type*} (i : ι) : SimulationCommand → List (ι × Bytes)
  | .sendFrame frame ifaceIndex => if ifaceIndex = 0 then [(i, frame)] else []
  | _ => []

def Event.isFrame : Event → Bool
  | .frame _ _ => true
  | _ => false

namespace Streams

variable {ι : Type*} [DecidableEq ι]

def set (u : Streams ι) (i : ι) (p : Endpoint) : Streams ι := { u with endpoint := Function.update u.endpoint i p }

omit [DecidableEq ι] in
/-- The server tells of frames that it has read for the link, and of those from the gateway. -/
def mayTell (u : Streams ι) : Notification → Bool
  | .rawFrame frame _ => u.served.any (fun message => message.2 = frame) || link.own (.frame frame 0)
  | .invalidInterfaceIndex _ => true

def took (u : Streams ι) (i : ι) (p : Endpoint) (e : Event) : Option (Streams ι × Option (Seen ι)) :=
  (p.take e).map fun r => (u.set i r.1, some (i, e, r.2))

/-- A pass of the event loop is one move, once all it reads has arrived. The server tells of
no warning longer than the buffer, so the loop is only left with an error code. -/
def pass (u : Streams ι) (i : ι) (now : Int) : SocketPass → Option (Streams ι × Option (Seen ι))
  | .waiting => none
  | .left _ => some (u.set i { u.endpoint i with listening := false }, none)
  | .next none buffer socket => some (u.set i { u.endpoint i with buffer, socket }, none)
  | .next (some (data, _)) buffer socket => u.took i { u.endpoint i with buffer, socket } (.frame data now)

def move (u : Streams ι) : StreamMove ι → Option (Streams ι × Option (Seen ι))
  | .own i e => if e.isFrame then none else u.took i (u.endpoint i) e
  | .serve i =>
    let p := u.endpoint i
    (readCommand p.socket.outgoing).map fun r =>
      ({ u.set i { p with socket := { p.socket with outgoing := r.2 } } with
          served := u.served ++ linkFrame i r.1 }, none)
  | .tell i notification =>
    let p := u.endpoint i
    if p.connected && notification.fits && u.mayTell notification then
      some (u.set i { p with inbound := p.inbound ++ notification.bytes }, none)
    else none
  | .arrive i count =>
    let p := u.endpoint i
    if p.connected then
      some (u.set i { p with
        socket := { p.socket with incoming := p.socket.incoming ++ [some (p.inbound.take count)] }
        inbound := p.inbound.drop count }, none)
    else none
  | .read i now =>
    let p := u.endpoint i
    if p.listening then u.pass i now (socketPass 2 p.buffer p.socket) else none
  | .breakOff i count => some (u.set i ((u.endpoint i).breakOff count), none)
  | .recover i buffer => if (u.endpoint i).listening then none else some (u.set i ((u.endpoint i).recover buffer), none)

/-- The simulation has just started. -/
def started (machines : ι → Machine) (buffers : ι → Nat → UInt8) : Streams ι where
  endpoint i :=
    { machine := machines i, buffer := buffers i, socket := { incoming := [], accepting := [], outgoing := [] },
      inbound := [], connected := true, listening := true }
  served := []

end Streams

/-- The view of the streams shows what the nodes do, as the view of the link. -/
def streamView {ι : Type*} (x : Taken (Streams ι) (StreamMove ι) (Option (Seen ι))) : Option (Seen ι) := x.output

def linkView {ι : Type*} [DecidableEq ι] (x : LinkMoment ι) : Option (Seen ι) :=
  (link.turn x.before x.event).map fun r => (r.1, r.2, x.output)

/-! From the streams to the link. -/

section Behind

variable {ι : Type*} {u u' : Streams ι} {w : World ι Machine Bytes} {i : ι} {p : Endpoint}
  {pool pool' : List (ι × Bytes)}

/-- The commands that the server has not read, the last of them perhaps cut off by a break. -/
def Sending (pool : List (ι × Bytes)) (i : ι) (p : Endpoint) : Prop :=
  ∃ (l : List SimulationCommand) (more : Bytes), (∀ c ∈ l, ¬ c.Refused ∧ linkFrame i c ⊆ pool) ∧
    p.socket.outgoing ++ more = l.flatMap SimulationCommand.bytes ∧ (p.connected = true → more = [])

def Told (pool : List (ι × Bytes)) : Notification → Prop
  | .rawFrame frame _ => (∃ j, (j, frame) ∈ pool) ∨ link.own (.frame frame 0) = true
  | .invalidInterfaceIndex _ => True

/-- The notifications that have arrived and are not read yet, the last of them perhaps in part. -/
def Receiving (pool : List (ι × Bytes)) (p : Endpoint) : Prop :=
  ∃ (l : List Notification) (pieces : List Bytes) (t : List (Option Bytes)) (more : Bytes),
    (∀ m ∈ l, m.fits = true ∧ Told pool m) ∧ p.socket.incoming = pieces.map some ++ t ∧
      (t = [] ∨ ∃ t', t = none :: t') ∧ pieces.flatten ++ more = l.flatMap Notification.bytes ∧
      (p.connected = true → t = [] ∧ more = p.inbound)

/-- The link behind the streams. -/
structure Behind (u : Streams ι) (w : World ι Machine Bytes) : Prop where
  party : ∀ i, (u.endpoint i).machine = w.party i
  served : u.served ⊆ w.pool
  sending : ∀ i, Sending w.pool i (u.endpoint i)
  receiving : ∀ i, Receiving w.pool (u.endpoint i)

theorem Sending.mono (h : Sending pool i p) (hp : pool ⊆ pool') : Sending pool' i p := by
  obtain ⟨l, more, hl, hout, hmore⟩ := h
  exact ⟨l, more, fun c hc => ⟨(hl c hc).1, List.Subset.trans (hl c hc).2 hp⟩, hout, hmore⟩

theorem Told.mono {m : Notification} (h : Told pool m) (hp : pool ⊆ pool') : Told pool' m := by
  cases m with
  | rawFrame frame interfaceIndex =>
    rcases h with ⟨j, hj⟩ | hown
    · exact Or.inl ⟨j, hp hj⟩
    · exact Or.inr hown
  | invalidInterfaceIndex description => trivial

theorem Receiving.mono (h : Receiving pool p) (hp : pool ⊆ pool') : Receiving pool' p := by
  obtain ⟨l, pieces, t, more, hl, hin, ht, hflat, hmore⟩ := h
  exact ⟨l, pieces, t, more, fun m hm => ⟨(hl m hm).1, (hl m hm).2.mono hp⟩, hin, ht, hflat, hmore⟩

theorem flatMap_accepted (l : List SimulationCommand) :
    (l.filter fun c => ¬ c.Refused).flatMap SimulationCommand.bytes = l.flatMap SimulationCommand.bytes := by
  induction l with
  | nil => rfl
  | cons c l ih =>
    by_cases hc : c.Refused
    · rw [List.filter_cons_of_neg (by simp [hc]), ih, List.flatMap_cons, bytes_of_refused hc, List.nil_append]
    · rw [List.filter_cons_of_pos (by simp [hc]), List.flatMap_cons, List.flatMap_cons, ih]

theorem linkFrame_sent (i : ι) {out : List Sent} {sent : Sent} (e : Event) (hs : sent ∈ out) :
    linkFrame i (frameCommand sent) ⊆ (link.sends e out).map fun frame => (i, frame) := by
  obtain ⟨iface, frame⟩ := sent
  have hiface : ∀ iface : Fin 2, UInt32.ofNat iface = 0 → iface = 0 := by decide
  simp only [frameCommand, linkFrame]
  split_ifs with h
  · obtain rfl := hiface iface h
    intro message hm
    rw [List.mem_singleton.mp hm]
    refine List.mem_map_of_mem (List.mem_map.mpr ⟨_, List.mem_filter.mpr ⟨hs, by simp⟩, rfl⟩)
  · exact List.nil_subset _

theorem Sending.write {e : Event} {out : List Sent} (h : Sending pool i p)
    (hp : pool ++ (link.sends e out).map (fun frame => (i, frame)) ⊆ pool') : Sending pool' i (p.write out) := by
  have hmono := h.mono (List.Subset.trans (List.subset_append_left _ _) hp)
  unfold Endpoint.write
  split_ifs with hc
  · obtain ⟨l, more, hl, hout, hmore⟩ := hmono
    obtain rfl := hmore hc
    refine ⟨l ++ (out.map frameCommand).filter fun c => ¬ c.Refused, [], fun c hm => ?_, ?_, fun _ => rfl⟩
    · rcases List.mem_append.mp hm with hm | hm
      · exact hl c hm
      · obtain ⟨hm, haccepted⟩ := List.mem_filter.mp hm
        obtain ⟨sent, hs, rfl⟩ := List.mem_map.mp hm
        refine ⟨of_decide_eq_true haccepted, ?_⟩
        exact List.Subset.trans (linkFrame_sent i e hs) (List.Subset.trans (List.subset_append_right _ _) hp)
    · rw [List.append_nil] at hout
      rw [List.append_nil, List.flatMap_append, flatMap_accepted, hout]
  · exact hmono

theorem Receiving.write (h : Receiving pool p) (out : List Sent) : Receiving pool (p.write out) := by
  unfold Endpoint.write
  split_ifs
  · exact h
  · exact h

variable [DecidableEq ι]

theorem link_move {mv : Move ι Event Int} {e : Event} {m : Machine} {out : List Sent}
    (ht : link.turn w mv = some (i, e)) (hs : (w.party i).step e = some (m, out)) : link.move w mv =
      some (⟨Function.update w.party i m, w.pool ++ (link.sends e out).map fun frame => (i, frame)⟩, out) := by
  have hs : link.step (w.party i) e = some (m, out) := hs
  simp [Parties.move, ht, hs]

theorem set_endpoint (u : Streams ι) (i : ι) (p : Endpoint) : (u.set i p).endpoint i = p := Function.update_self ..

theorem set_set (u : Streams ι) (i : ι) (p q : Endpoint) : (u.set i p).set i q = u.set i q := by
  simp [Streams.set]

/-- What holds of the changed endpoint and of the others before the change holds of all after it. -/
theorem set_forall {P : ι → Endpoint → Prop} (hi : P i p) (h : ∀ j, j ≠ i → P j (u.endpoint j)) (j : ι) :
    P j ((u.set i p).endpoint j) := by
  by_cases hj : j = i
  · rw [hj, set_endpoint]
    exact hi
  · have hother : (u.set i p).endpoint j = u.endpoint j := Function.update_of_ne hj ..
    rw [hother]
    exact h j hj

/-- An endpoint changes; the link does not. -/
theorem Behind.set (h : Behind u w) (hm : p.machine = (u.endpoint i).machine) (hs : Sending w.pool i p)
    (hr : Receiving w.pool p) : Behind (u.set i p) w where
  party := set_forall (P := fun j q => q.machine = w.party j) (hm.trans (h.party i)) fun j _ => h.party j
  served := h.served
  sending := set_forall (P := fun j q => Sending w.pool j q) hs fun j _ => h.sending j
  receiving := set_forall (P := fun _ q => Receiving w.pool q) hr fun j _ => h.receiving j

theorem write_machine (p : Endpoint) (out : List Sent) : (p.write out).machine = p.machine := by
  unfold Endpoint.write
  split_ifs <;> rfl

/-- A node does something, over the streams as on the link. -/
theorem Behind.took {mv : Move ι Event Int} {e : Event} {o : Option (Seen ι)} (h : Behind u w)
    (hm : p.machine = (u.endpoint i).machine) (hs : Sending w.pool i p) (hr : Receiving w.pool p)
    (ht : link.turn w mv = some (i, e)) (he : u.took i p e = some (u', o)) : ∃ k w', Run link.move w k w' ∧
      shown linkView k = o.toList ∧ Behind u' w' := by
  obtain ⟨⟨p', out⟩, htake, he⟩ := Option.map_eq_some_iff.mp he
  obtain ⟨rfl, rfl⟩ := Prod.mk.inj he
  obtain ⟨⟨m, out'⟩, hstep, hp'⟩ := Option.map_eq_some_iff.mp htake
  obtain ⟨rfl, rfl⟩ := Prod.mk.inj hp'
  rw [hm, h.party] at hstep
  refine ⟨_, _, .single (link_move ht hstep), ?_, ?_⟩
  · rw [shown_single, linkView, ht]
    rfl
  · have hsub : w.pool ⊆ w.pool ++ (link.sends e out').map fun frame => (i, frame) := List.subset_append_left _ _
    have hsending := @Sending.write _ _ { p with machine := m } _ _ e out' hs (List.Subset.refl _)
    have hreceiving := @Receiving.write _ { p with machine := m } _ (hr.mono hsub) out'
    refine ⟨set_forall (P := fun j q => q.machine = Function.update w.party i m j) ?_ fun j hj => ?_,
      List.Subset.trans h.served hsub, ?_, ?_⟩
    · rw [write_machine, Function.update_self]
    · rw [h.party, Function.update_of_ne hj]
    · exact set_forall (P := fun j q => Sending _ j q) hsending fun j _ => (h.sending j).mono hsub
    · exact set_forall (P := fun _ q => Receiving _ q) hreceiving fun j _ => (h.receiving j).mono hsub

omit [DecidableEq ι] in
theorem own_of_not_frame {e : Event} (h : e.isFrame = false) : link.own e = true := by
  cases e with
  | frame => cases h
  | _ => rfl

omit [DecidableEq ι] in
theorem Sending.served {c : SimulationCommand} {rest : Bytes} (h : Sending pool i p)
    (hc : readCommand p.socket.outgoing = some (c, rest)) : linkFrame i c ⊆ pool ∧
      Sending pool i { p with socket := { p.socket with outgoing := rest } } := by
  obtain ⟨l, more, hl, hout, hmore⟩ := h
  have hread := readCommand_more more hc
  rw [hout] at hread
  cases l with
  | nil =>
    rw [(List.append_eq_nil_iff.mp hout).1] at hc
    have hlt := readCommand_length hc
    cases hlt
  | cons d l =>
    obtain ⟨⟨haccepted, hframes⟩, hl⟩ := List.forall_mem_cons.mp hl
    rw [List.flatMap_cons, readCommand_more _ (readCommand_bytes haccepted), List.nil_append] at hread
    obtain ⟨rfl, hrest⟩ := Prod.mk.inj (Option.some.inj hread)
    exact ⟨hframes, l, more, hl, hrest.symm, hmore⟩

omit [DecidableEq ι] in
theorem told_of_mayTell {m : Notification} (hs : u.served ⊆ w.pool) (h : u.mayTell m = true) : Told w.pool m := by
  cases m with
  | rawFrame frame interfaceIndex =>
    rcases Bool.or_eq_true_iff.mp h with h | h
    · obtain ⟨⟨j, frame'⟩, hm, hframe⟩ := List.any_eq_true.mp h
      obtain rfl : frame' = frame := of_decide_eq_true hframe
      exact Or.inl ⟨j, hs hm⟩
    · exact Or.inr h
  | invalidInterfaceIndex description => trivial

omit [DecidableEq ι] in
theorem Receiving.told {m : Notification} (h : Receiving pool p) (hc : p.connected = true) (hf : m.fits = true)
    (hm : Told pool m) : Receiving pool { p with inbound := p.inbound ++ m.bytes } := by
  obtain ⟨l, pieces, t, more, hl, hin, ht, hflat, hmore⟩ := h
  obtain ⟨rfl, rfl⟩ := hmore hc
  refine ⟨l ++ [m], pieces, [], _, fun m' hm' => ?_, hin, Or.inl rfl, ?_, fun _ => ⟨rfl, rfl⟩⟩
  · rcases List.mem_append.mp hm' with hm' | hm'
    · exact hl m' hm'
    · rw [List.mem_singleton.mp hm']
      exact ⟨hf, hm⟩
  · rw [← List.append_assoc, hflat]
    simp

omit [DecidableEq ι] in
theorem Receiving.arrived (h : Receiving pool p) (hc : p.connected = true) (count : Nat) : Receiving pool { p with
    socket := { p.socket with incoming := p.socket.incoming ++ [some (p.inbound.take count)] }
    inbound := p.inbound.drop count } := by
  obtain ⟨l, pieces, t, more, hl, hin, ht, hflat, hmore⟩ := h
  obtain ⟨rfl, rfl⟩ := hmore hc
  refine ⟨l, pieces ++ [p.inbound.take count], [], _, hl, ?_, Or.inl rfl, ?_, fun _ => ⟨rfl, rfl⟩⟩
  · simp [hin]
  · rw [← hflat]
    simp

omit [DecidableEq ι] in
theorem Receiving.brokenOff (h : Receiving pool p) (count : Nat) : Receiving pool (p.breakOff count) := by
  obtain ⟨l, pieces, t, more, hl, hin, ht, hflat, -⟩ := h
  refine ⟨l, pieces, t ++ [none], more, hl, ?_, ?_, hflat, fun hfalse => Bool.noConfusion hfalse⟩
  · simp [Endpoint.breakOff, hin]
  · rcases ht with rfl | ⟨t', rfl⟩
    · exact Or.inr ⟨[], rfl⟩
    · exact Or.inr ⟨t' ++ [none], rfl⟩

omit [DecidableEq ι] in
theorem Sending.brokenOff (h : Sending pool i p) (count : Nat) : Sending pool i (p.breakOff count) := by
  obtain ⟨l, more, hl, hout, -⟩ := h
  refine ⟨l, p.socket.outgoing.drop count ++ more, hl, ?_, fun hfalse => Bool.noConfusion hfalse⟩
  rw [← List.append_assoc, ← hout]
  exact congrArg (· ++ more) (List.take_append_drop ..)

omit [DecidableEq ι] in
/-- A pass that goes on has read the next notification. -/
theorem Receiving.read {frame : Option (Bytes × Int)} {buffer : Nat → UInt8} {socket : Socket} (h : Receiving pool p)
    (hp : socketPass 2 p.buffer p.socket = .next frame buffer socket) : socket.outgoing = p.socket.outgoing ∧
      Receiving pool { p with buffer, socket } ∧
      ∀ data interfaceIndex, frame = some (data, interfaceIndex) → data.length ≤ 1520 ∧
        ((∃ j, (j, data) ∈ pool) ∨ link.own (.frame data 0) = true) := by
  obtain ⟨l, pieces, t, more, hl, hin, ht, hflat, hmore⟩ := h
  obtain ⟨left, rfl, hpass⟩ := socketPass_next hin ht hp
  obtain ⟨m, l', rfl, hframe, hrest⟩ := onward_of_messages (fun m hm => (hl m hm).1) hflat hpass
  obtain ⟨⟨-, htold⟩, hl'⟩ := List.forall_mem_cons.mp hl
  refine ⟨rfl, ⟨l', left, t, more, hl', rfl, ht, hrest, hmore⟩, ?_⟩
  rintro data interfaceIndex rfl
  refine ⟨socketPass_length hp, ?_⟩
  cases m with
  | rawFrame frame index =>
    obtain rfl : data = frame := Option.some.inj hframe
    exact htold
  | invalidInterfaceIndex description => cases hframe

omit [DecidableEq ι] in
theorem Receiving.left {errorCode : Option Nat} (h : Receiving pool p)
    (hp : socketPass 2 p.buffer p.socket = .left errorCode) : errorCode ≠ none := by
  obtain ⟨l, pieces, t, more, hl, hin, ht, hflat, _⟩ := h
  rintro rfl
  exact abort_of_messages (fun m hm => (hl m hm).1) hflat (socketPass_left hin ht hp)

theorem took_shows {e : Event} {v : Seen ι} {o : Option (Seen ι)} (he : u.took i p e = some (u', o))
    (hv : v ∈ o) : v.2.1 = e := by
  obtain ⟨r, -, he⟩ := Option.map_eq_some_iff.mp he
  obtain ⟨-, rfl⟩ := Prod.mk.inj he
  rw [← Option.some.inj hv]

/-- A frame from the stream went through the buffer. -/
theorem streams_show_short {mv : StreamMove ι} {o : Option (Seen ι)} (he : u.move mv = some (u', o)) :
    ∀ v ∈ streamView ⟨u, mv, o⟩, ∀ data now, v.2.1 = .frame data now → data.length ≤ 1520 := by
  intro v hv data now hdata
  cases mv with
  | own i e =>
    obtain ⟨hframe, he⟩ := Option.ite_none_left_eq_some.mp he
    rw [← took_shows he hv, hdata] at hframe
    exact absurd rfl hframe
  | read i now' =>
    obtain ⟨-, he⟩ := Option.ite_none_right_eq_some.mp he
    cases hp : socketPass 2 (u.endpoint i).buffer (u.endpoint i).socket with
    | waiting =>
      rw [hp] at he
      cases he
    | left errorCode =>
      rw [hp] at he
      obtain ⟨-, rfl⟩ := Prod.mk.inj (Option.some.inj he)
      cases hv
    | next frame buffer socket =>
      rw [hp] at he
      cases frame with
      | none =>
        obtain ⟨-, rfl⟩ := Prod.mk.inj (Option.some.inj he)
        cases hv
      | some frame =>
        obtain ⟨read, interfaceIndex⟩ := frame
        obtain ⟨rfl, -⟩ := Event.frame.inj ((took_shows he hv).symm.trans hdata)
        exact socketPass_length hp
  | serve i =>
    obtain ⟨_, -, he⟩ := Option.map_eq_some_iff.mp he
    obtain ⟨-, rfl⟩ := Prod.mk.inj he
    cases hv
  | tell i notification =>
    obtain ⟨-, he⟩ := Option.ite_none_right_eq_some.mp he
    obtain ⟨-, rfl⟩ := Prod.mk.inj (Option.some.inj he)
    cases hv
  | arrive i count =>
    obtain ⟨-, he⟩ := Option.ite_none_right_eq_some.mp he
    obtain ⟨-, rfl⟩ := Prod.mk.inj (Option.some.inj he)
    cases hv
  | breakOff i count =>
    obtain ⟨-, rfl⟩ := Prod.mk.inj (Option.some.inj he)
    cases hv
  | recover i buffer =>
    obtain ⟨-, he⟩ := Option.ite_none_left_eq_some.mp he
    obtain ⟨-, rfl⟩ := Prod.mk.inj (Option.some.inj he)
    cases hv

theorem streams_match_link : Matches Streams.move streamView link.move (linkView (ι := ι)) (fun _ => True) Behind := by
  intro u w mv u' o hb he _
  have silent {u' : Streams ι} (hb' : Behind u' w) : ∃ k w', Run link.move w k w' ∧
      shown linkView k = (none : Option (Seen ι)).toList ∧ Behind u' w' := ⟨[], w, .start, rfl, hb'⟩
  cases mv with
  | own i e =>
    obtain ⟨hframe, he⟩ := Option.ite_none_left_eq_some.mp he
    have hturn : link.turn w (.own i e) = some (i, e) := if_pos (own_of_not_frame (Bool.eq_false_iff.mpr hframe))
    exact hb.took rfl (hb.sending i) (hb.receiving i) hturn he
  | serve i =>
    obtain ⟨⟨c, rest⟩, hread, he⟩ := Option.map_eq_some_iff.mp he
    obtain ⟨rfl, rfl⟩ := Prod.mk.inj he
    obtain ⟨hframes, hsending⟩ := (hb.sending i).served hread
    have hset := hb.set (p := { u.endpoint i with socket := { (u.endpoint i).socket with outgoing := rest } }) rfl
      hsending (hb.receiving i)
    exact silent ⟨hset.party, List.append_subset.mpr ⟨hb.served, hframes⟩, hset.sending, hset.receiving⟩
  | tell i notification =>
    obtain ⟨hguard, he⟩ := Option.ite_none_right_eq_some.mp he
    obtain ⟨rfl, rfl⟩ := Prod.mk.inj (Option.some.inj he)
    simp only [Bool.and_eq_true] at hguard
    obtain ⟨⟨hc, hf⟩, hm⟩ := hguard
    exact silent (hb.set rfl (hb.sending i) ((hb.receiving i).told hc hf (told_of_mayTell hb.served hm)))
  | arrive i count =>
    obtain ⟨hc, he⟩ := Option.ite_none_right_eq_some.mp he
    obtain ⟨rfl, rfl⟩ := Prod.mk.inj (Option.some.inj he)
    exact silent (hb.set rfl (hb.sending i) ((hb.receiving i).arrived hc count))
  | read i now =>
    obtain ⟨-, he⟩ := Option.ite_none_right_eq_some.mp he
    cases hp : socketPass 2 (u.endpoint i).buffer (u.endpoint i).socket with
    | waiting =>
      rw [hp] at he
      cases he
    | left errorCode =>
      rw [hp] at he
      obtain ⟨rfl, rfl⟩ := Prod.mk.inj (Option.some.inj he)
      exact silent (hb.set rfl (hb.sending i) (hb.receiving i))
    | next frame buffer socket =>
      obtain ⟨hout, hreceiving, hframe⟩ := (hb.receiving i).read hp
      have hsending : Sending w.pool i { u.endpoint i with buffer, socket } := by
        obtain ⟨l, more, hl, hbytes, hmore⟩ := hb.sending i
        exact ⟨l, more, hl, hout ▸ hbytes, hmore⟩
      rw [hp] at he
      cases frame with
      | none =>
        obtain ⟨rfl, rfl⟩ := Prod.mk.inj (Option.some.inj he)
        exact silent (hb.set rfl hsending hreceiving)
      | some frame =>
        obtain ⟨data, interfaceIndex⟩ := frame
        rcases (hframe data interfaceIndex rfl).2 with ⟨j, hj⟩ | hown
        · obtain ⟨k, hk⟩ := List.mem_iff_getElem?.mp hj
          have hturn : link.turn w (.deliver i k now) = some (i, .frame data now) := by
            simp [Parties.turn, hk, link]
          exact hb.took (p := { u.endpoint i with buffer, socket }) rfl hsending hreceiving hturn he
        · have hturn : link.turn w (.own i (.frame data now)) = some (i, .frame data now) := if_pos hown
          exact hb.took (p := { u.endpoint i with buffer, socket }) rfl hsending hreceiving hturn he
  | breakOff i count =>
    obtain ⟨rfl, rfl⟩ := Prod.mk.inj (Option.some.inj he)
    exact silent (hb.set rfl ((hb.sending i).brokenOff count) ((hb.receiving i).brokenOff count))
  | recover i buffer =>
    obtain ⟨-, he⟩ := Option.ite_none_left_eq_some.mp he
    obtain ⟨rfl, rfl⟩ := Prod.mk.inj (Option.some.inj he)
    refine silent (hb.set rfl ⟨[], [], by simp, rfl, fun _ => rfl⟩ ?_)
    exact ⟨[], [], [], [], by simp, rfl, Or.inl rfl, rfl, fun _ => ⟨rfl, rfl⟩⟩

end Behind

/-! From the link to the streams. -/

section Ahead

variable {ι : Type*} {u u' : Streams ι} {w w' : World ι Machine Bytes} {i : ι} {p : Endpoint}

/-- Nothing is on the way. -/
structure AtRest (p : Endpoint) : Prop where
  connected : p.connected = true
  listening : p.listening = true
  outgoing : p.socket.outgoing = []
  inbound : p.inbound = []
  incoming : ∃ pieces : List Bytes, p.socket.incoming = pieces.map some ∧ pieces.flatten = []

/-- The server knows all frames of the link that fit the buffer of a node. -/
structure Ahead (w : World ι Machine Bytes) (u : Streams ι) : Prop where
  party : ∀ i, (u.endpoint i).machine = w.party i
  atRest : ∀ i, AtRest (u.endpoint i)
  served : ∀ message ∈ w.pool, message.2.length ≤ 1520 → message ∈ u.served

theorem length_of_link {m m' : Machine} {e : Event} {out : List Sent} (h : m.step e = some (m', out)) {sent : Sent}
    (hs : sent ∈ out) (h₀ : sent.iface = 0) : 14 ≤ sent.frame.length := by
  cases linkSend_of_step h hs h₀ with
  | advertise ipDst advertiseData _ hdata =>
    rw [hdata]
    simp only [Machine.advertisePacket, List.length_append, Eth.length_bytes]
    omega
  | own ipDst now nextHop isDsa mac _ _ _ _ hdata =>
    rw [hdata]
    simp only [Machine.udpPacket, List.length_append, Eth.length_bytes]
    omega
  | reply reply now address mac _ hu _ _ _ hw =>
    have hlen := hw.length_eq
    have hle := hu.length_le
    omega

variable [DecidableEq ι]

omit [DecidableEq ι] in
/-- The frames for the link that fit are among those that the server reads. -/
theorem linkFrame_read (i : ι) {m m' : Machine} {e : Event} {out : List Sent} (hs : m.step e = some (m', out))
    {frame : Bytes} (hframe : frame ∈ link.sends e out) (hle : frame.length ≤ 1520) :
    (i, frame) ∈ ((out.map frameCommand).filter fun c => ¬ c.Refused).flatMap (linkFrame i) := by
  obtain ⟨sent, hsent, rfl⟩ := List.mem_map.mp hframe
  obtain ⟨hsent, h₀⟩ := List.mem_filter.mp hsent
  have h₀ : sent.iface = 0 := of_decide_eq_true h₀
  have hlong := length_of_link hs hsent h₀
  have haccepted : ¬ (frameCommand sent).Refused := by
    show ¬ (sent.frame.length < 14 ∨ 65536 - 4 ≤ sent.frame.length)
    omega
  refine List.mem_flatMap.mpr ⟨frameCommand sent, ?_, ?_⟩
  · exact List.mem_filter.mpr ⟨List.mem_map_of_mem hsent, decide_eq_true haccepted⟩
  · simp [linkFrame, frameCommand, h₀]

/-- The server reads all that a node has sent. -/
theorem serve_all {l : List SimulationCommand} (hl : ∀ c ∈ l, ¬ c.Refused)
    (hout : (u.endpoint i).socket.outgoing = l.flatMap SimulationCommand.bytes) : ∃ k u', Run Streams.move u k u' ∧
      shown streamView k = [] ∧ u'.served = u.served ++ l.flatMap (linkFrame i) ∧
      u'.endpoint = (u.set i
        { u.endpoint i with socket := { (u.endpoint i).socket with outgoing := [] } }).endpoint := by
  induction l generalizing u with
  | nil =>
    have hout : (u.endpoint i).socket.outgoing = [] := hout
    refine ⟨[], u, .start, rfl, (List.append_nil _).symm, ?_⟩
    rw [← hout]
    exact (Function.update_eq_self i u.endpoint).symm
  | cons c l ih =>
    obtain ⟨hc, hl⟩ := List.forall_mem_cons.mp hl
    have hread : readCommand (u.endpoint i).socket.outgoing = some (c, l.flatMap SimulationCommand.bytes) := by
      rw [hout, List.flatMap_cons, readCommand_more _ (readCommand_bytes hc), List.nil_append]
    let p : Endpoint := { u.endpoint i with
      socket := { (u.endpoint i).socket with outgoing := l.flatMap SimulationCommand.bytes } }
    let v : Streams ι := { u.set i p with served := u.served ++ linkFrame i c }
    have hmove : u.move (.serve i) = some (v, none) := by
      simp only [Streams.move, hread, Option.map_some]
      rfl
    have hp : v.endpoint i = p := set_endpoint u i p
    obtain ⟨k, u', hrun, hshown, hserved, hendpoint⟩ := @ih v hl (by rw [hp])
    refine ⟨_, u', (Run.single hmove).trans hrun, ?_, ?_, ?_⟩
    · rw [shown_append, hshown]
      rfl
    · rw [hserved, List.flatMap_cons, ← List.append_assoc]
    · rw [hendpoint, hp]
      exact Function.update_idem ..

/-- A node at rest does something, and the server reads what it sends. -/
theorem Ahead.took {e : Event} {m : Machine} {out : List Sent} (h : Ahead w u) (hp : AtRest p)
    (hm : p.machine = w.party i) (hs : (w.party i).step e = some (m, out)) : ∃ u₁ k u', u.took i p e =
      some (u₁, some (i, e, out)) ∧ Run Streams.move u₁ k u' ∧ shown streamView k = [] ∧
      Ahead ⟨Function.update w.party i m, w.pool ++ (link.sends e out).map fun frame => (i, frame)⟩ u' := by
  have htook : u.took i p e = some (u.set i ({ p with machine := m }.write out), some (i, e, out)) := by
    simp [Streams.took, Endpoint.take, hm, hs]
  let l := (out.map frameCommand).filter fun c => ¬ c.Refused
  have hwrite : { p with machine := m }.write out = { p with
      machine := m, socket := { p.socket with outgoing := l.flatMap SimulationCommand.bytes } } := by
    unfold Endpoint.write
    rw [if_pos hp.connected, flatMap_accepted]
    simp [hp.outgoing]
  set q := { p with machine := m }.write out with hq
  obtain ⟨k, u', hrun, hshown, hserved, hendpoint⟩ := @serve_all _ (u.set i q) i _ l (by simp [l])
    (by rw [set_endpoint, hwrite])
  rw [set_endpoint, set_set] at hendpoint
  refine ⟨_, k, u', htook, hrun, hshown, ?_, ?_, fun message hmessage hle => ?_⟩
  · rw [hendpoint]
    refine set_forall (P := fun j q => q.machine = Function.update w.party i m j) ?_ fun j hj => ?_
    · show q.machine = Function.update w.party i m i
      rw [Function.update_self, hq, write_machine]
    · rw [h.party, Function.update_of_ne hj]
  · rw [hendpoint]
    refine set_forall (P := fun _ q => AtRest q) ?_ fun j _ => h.atRest j
    rw [hwrite]
    exact ⟨hp.connected, hp.listening, rfl, hp.inbound, hp.incoming⟩
  · rw [hserved]
    rcases List.mem_append.mp hmessage with hold | hnew
    · exact List.mem_append_left _ (h.served message hold hle)
    · obtain ⟨frame, hframe, rfl⟩ := List.mem_map.mp hnew
      exact List.mem_append_right _ (linkFrame_read i hs hframe hle)

/-- A node that is told of a frame of the link can read it. -/
theorem Ahead.read {data : Bytes} {now : Int} (h : Ahead w u) (hle : data.length ≤ 1520)
    (htell : u.mayTell (.rawFrame data 0) = true) : ∃ k v p, Run Streams.move u k v ∧ shown streamView k = [] ∧
      AtRest p ∧ p.machine = w.party i ∧ v.move (.read i now) = u.took i p (.frame data now) := by
  have hrest := h.atRest i
  obtain ⟨pieces, hincoming, hflat⟩ := hrest.incoming
  let m : Notification := .rawFrame data 0
  have hfits : m.fits = true := decide_eq_true (by omega)
  let p₁ : Endpoint := { u.endpoint i with inbound := (u.endpoint i).inbound ++ m.bytes }
  let p₂ : Endpoint := { p₁ with
    socket := { p₁.socket with incoming := p₁.socket.incoming ++ [some (p₁.inbound.take m.bytes.length)] }
    inbound := p₁.inbound.drop m.bytes.length }
  have htold : u.move (.tell i m) = some (u.set i p₁, none) := by
    have hguard : ((u.endpoint i).connected && m.fits && u.mayTell m) = true := by
      rw [hrest.connected, hfits]
      exact htell
    exact if_pos hguard
  have harrive : (u.set i p₁).move (.arrive i m.bytes.length) = some (u.set i p₂, none) := by
    simp only [Streams.move, set_endpoint, set_set]
    exact if_pos hrest.connected
  have hinbound : p₁.inbound = m.bytes := by
    show (u.endpoint i).inbound ++ m.bytes = m.bytes
    rw [hrest.inbound, List.nil_append]
  have harrived : p₂.socket = { p₂.socket with incoming := (pieces ++ [m.bytes]).map some } := by
    simp [p₂, p₁, hincoming, hrest.inbound]
  have hpieces : (pieces ++ [m.bytes]).flatten = m.bytes := by simp [hflat]
  obtain ⟨buffer, left, hleft, hpass⟩ := socketPass_rawFrame hle p₂.buffer p₂.socket hpieces
  rw [← harrived] at hpass
  let p₃ : Endpoint := { p₂ with buffer, socket := { p₂.socket with incoming := left.map some } }
  refine ⟨_, u.set i p₂, p₃, (Run.single htold).trans (.single harrive), rfl, ?_, h.party i, ?_⟩
  · refine ⟨hrest.connected, hrest.listening, hrest.outgoing, ?_, left, rfl, hleft⟩
    show p₁.inbound.drop m.bytes.length = []
    rw [hinbound, List.drop_length]
  · have hlistening : p₂.listening = true := hrest.listening
    have hmove : (u.set i p₂).move (.read i now) = (u.set i p₂).pass i now (socketPass 2 p₂.buffer p₂.socket) := by
      simp only [Streams.move, set_endpoint]
      exact if_pos hlistening
    rw [hmove, hpass]
    simp only [Streams.pass, Streams.took, set_endpoint, set_set]
    rfl

theorem link_matches_streams : Matches link.move linkView Streams.move (streamView (ι := ι))
    (fun seen => ∀ data now, seen.2.1 = .frame data now → data.length ≤ 1520) Ahead := by
  intro w u mv w' out ha he hc
  obtain ⟨i, e, m, hturn, hstep, rfl⟩ := Parties.move_cases he
  have hstep : (w.party i).step e = some (m, out) := hstep
  have hview : linkView ⟨w, mv, out⟩ = some (i, e, out) := by
    rw [linkView, hturn]
    rfl
  rw [hview] at hc ⊢
  have hc := hc _ rfl
  cases hframe : e.isFrame with
  | false =>
    obtain ⟨u₁, k, u', htook, hrun, hshown, hahead⟩ := ha.took (ha.atRest i) (ha.party i) hstep
    have hmove : u.move (.own i e) = some (u₁, some (i, e, out)) := by
      rw [Streams.move, hframe]
      exact htook
    refine ⟨_, u', (Run.single hmove).trans hrun, ?_, hahead⟩
    rw [shown_append, hshown]
    rfl
  | true =>
    cases e with
    | frame data now =>
      have hle : data.length ≤ 1520 := hc data now rfl
      have htell : u.mayTell (.rawFrame data 0) = true := by
        rcases Parties.turn_cases hturn with ⟨-, hown⟩ | ⟨k, now', j, frame, -, hk, hdata⟩
        · exact Bool.or_eq_true_iff.mpr (Or.inr hown)
        · obtain ⟨rfl, -⟩ := Event.frame.inj hdata
          have hserved := ha.served (j, data) (List.mem_of_getElem? hk) hle
          exact Bool.or_eq_true_iff.mpr (Or.inl (List.any_eq_true.mpr ⟨_, hserved, decide_eq_true rfl⟩))
      obtain ⟨k₁, v, p, hread, hsilent, hrest, hmachine, hmove⟩ := @Ahead.read _ _ _ i _ data now ha hle htell
      obtain ⟨u₁, k, u', htook, hrun, hshown, hahead⟩ := ha.took hrest hmachine hstep
      refine ⟨_, u', (hread.snoc (hmove.trans htook)).trans hrun, ?_, hahead⟩
      rw [shown_append, shown_append, hsilent, hshown]
      rfl
    | _ => cases hframe

end Ahead

section Started

variable {ι : Type*} [DecidableEq ι] (machines : ι → Machine) (buffers : ι → Nat → UInt8)

omit [DecidableEq ι] in
theorem behind_started : Behind (Streams.started machines buffers) ⟨machines, []⟩ :=
  ⟨fun _ => rfl, List.Subset.refl _, fun _ => ⟨[], [], by simp, rfl, fun _ => rfl⟩,
    fun _ => ⟨[], [], [], [], by simp, rfl, Or.inl rfl, rfl, fun _ => ⟨rfl, rfl⟩⟩⟩

/-- No pass over the streams is undefined: a node that leaves its event loop has an error code. -/
theorem streams_left_with_code {g : List (Taken (Streams ι) (StreamMove ι) (Option (Seen ι)))} {u : Streams ι}
    (hg : Run Streams.move (Streams.started machines buffers) g u) (i : ι) {errorCode : Option Nat}
    (hp : socketPass 2 (u.endpoint i).buffer (u.endpoint i).socket = .left errorCode) : errorCode.isSome := by
  obtain ⟨_, _, _, _, hb⟩ := streams_match_link.run hg (behind_started machines buffers) fun _ _ => trivial
  exact Option.isSome_iff_ne_none.mpr ((hb.receiving i).left hp)

/-- What the nodes can do over the streams, however these are cut into pieces, delayed and broken
off, is what they can do over the link with frames of at most 1520 bytes. -/
theorem streams_show_iff_link (seen : List (Seen ι)) (after : ι → Machine) :
    (∃ g u, Run Streams.move (Streams.started machines buffers) g u ∧ shown streamView g = seen ∧
      (fun i => (u.endpoint i).machine) = after) ↔
    (∃ h w, Run link.move ⟨machines, []⟩ h w ∧ shown linkView h = seen ∧ w.party = after) ∧
      ∀ i data now out, (i, Event.frame data now, out) ∈ seen → data.length ≤ 1520 := by
  constructor
  · rintro ⟨g, u, hg, rfl, rfl⟩
    have hstart := behind_started machines buffers
    obtain ⟨h, w, hh, hshown, hb⟩ := streams_match_link.run hg hstart fun _ _ => trivial
    refine ⟨⟨h, w, hh, hshown, funext fun i => (hb.party i).symm⟩, fun i data now out hm => ?_⟩
    exact shown_all hg (C := fun seen => ∀ data now, seen.2.1 = .frame data now → data.length ≤ 1520)
      streams_show_short _ hm data now rfl
  · rintro ⟨⟨h, w, hh, rfl, rfl⟩, hshort⟩
    have hstart : Ahead ⟨machines, []⟩ (Streams.started machines buffers) :=
      ⟨fun _ => rfl, fun _ => ⟨rfl, rfl, rfl, rfl, [], rfl, rfl⟩, fun _ hm => absurd hm List.not_mem_nil⟩
    obtain ⟨g, u, hg, hshown, ha⟩ := link_matches_streams.run hh hstart fun seen hm data now he => by
      obtain ⟨i, e, out⟩ := seen
      obtain rfl : e = .frame data now := he
      exact hshort i data now out hm
    exact ⟨g, u, hg, hshown, funext ha.party⟩

end Started

end Overlay
