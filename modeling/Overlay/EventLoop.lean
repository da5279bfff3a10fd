import Overlay.Framing
import Overlay.SendOrReceive

/-! The event loop over a socket that hands the stream over in pieces. Each pass reads a
header and a body into the buffer, which starts at address 0. -/

namespace Overlay

open ByteMemory Windows

inductive SocketPass
  | waiting
  | left (errorCode : Option Nat)
  | next (frame : Option (Bytes × Int)) (memory : Nat → UInt8) (socket : Socket)

/-- Error 27 or 29 for a body that fails. -/
def SocketPass.ofBody (errorCode : Nat) (body : Transfer) (pass : SocketPass) : SocketPass :=
  match body.returned with
  | none => .waiting
  | some false => .left (some errorCode)
  | some true => pass

/-- The pass behind the header, by the type and size that the header gave. An overlong warning
is left undefined at its announcement, and not only when its bytes exceed the buffer: the call
that reads it, even if it fails, is given a size that the buffer does not have. -/
def bodyPass (countOfInterfaces : Int) (c : UInt32) (size : Nat) (memory : Nat → UInt8) (socket : Socket) :
    SocketPass :=
  if c = invalidInterfaceIndexType then
    if size < 1 then .left (some 27)
    else if frameBufferSize < size then .left none
    else
      let desc := sendOrReceive false (-1) size 0 memory socket
      .ofBody 27 desc (.next none desc.memory desc.socket)
  else if c ≠ rawFrameReceivedNotificationType ∨ size < 4 ∨ frameBufferSize < size then .left (some 28)
  else
    let body := sendOrReceive false (-1) size 0 memory socket
    .ofBody 29 body <|
      let interfaceIndex := (swap32 (word32 (window body.memory 0 4) 0)).toInt32.toInt
      if interfaceIndex < 0 ∨ countOfInterfaces ≤ interfaceIndex then .left (some 30)
      else .next (some (window body.memory 4 (size - 4), interfaceIndex)) body.memory body.socket

def socketPass (countOfInterfaces : Int) (memory : Nat → UInt8) (socket : Socket) : SocketPass :=
  let header := sendOrReceive false (-1) 6 0 memory socket
  .ofBody 26 header <| bodyPass countOfInterfaces (swap32 (word32 (window header.memory 0 6) 0))
    (swap16 (word16 (window header.memory 0 6) 4)).toNat header.memory header.socket

def Socket.available (socket : Socket) : Nat := (socket.incoming.filterMap id).flatten.length

theorem available_lt {errorCode : Int} {size buf : Nat} {memory : Nat → UInt8} {socket : Socket} (hs : 0 < size)
    (h : (sendOrReceive false errorCode size buf memory socket).returned = some true) :
    (sendOrReceive false errorCode size buf memory socket).socket.available < socket.available := by
  obtain ⟨l, t, ht, htail⟩ : ∃ (l : List Bytes) (t : List (Option Bytes)), socket.incoming = l.map some ++ t ∧
      (t = [] ∨ ∃ rest, t = none :: rest) := by
    rcases failure_or_pieces socket.incoming with ⟨l, hl⟩ | ⟨l, rest, hl⟩
    · exact ⟨l, [], by rw [hl, List.append_nil], Or.inl rfl⟩
    · exact ⟨l, none :: rest, hl, Or.inr ⟨rest, rfl⟩⟩
  have hsocket : socket = { socket with incoming := l.map some ++ t } := by rw [← ht]
  rw [hsocket] at h ⊢
  unfold sendOrReceive at h ⊢
  by_cases hshort : l.flatten.length < size
  · rw [receive_parts hshort] at h
    rcases htail with rfl | ⟨rest, rfl⟩
    · rw [receive_blocked] at h
      cases h
    · rw [receive_failed] at h
      cases h
  · have hne : l ≠ [] := by
      rintro rfl
      simp at hshort
      omega
    obtain ⟨left, hleft, hwhole⟩ := @receive_whole errorCode size buf memory socket l hne (by omega)
    rw [hwhole]
    have hlen := congrArg List.length hleft
    rw [List.length_drop] at hlen
    simp only [Socket.available, List.filterMap_append, List.flatten_append, List.length_append, List.filterMap_map,
      Function.comp_def, id, List.filterMap_some]
    omega

theorem SocketPass.ofBody_eq_next {errorCode : Nat} {body : Transfer} {pass : SocketPass} {frame : Option (Bytes × Int)}
    {memory : Nat → UInt8} {socket : Socket} (h : pass.ofBody errorCode body = .next frame memory socket) :
    body.returned = some true ∧ pass = .next frame memory socket := by
  unfold SocketPass.ofBody at h
  split at h
  · cases h
  · cases h
  · exact ⟨‹_›, h⟩

theorem socketPass_available {countOfInterfaces : Int} {memory memory' : Nat → UInt8} {socket socket' : Socket}
    {frame : Option (Bytes × Int)} (h : socketPass countOfInterfaces memory socket = .next frame memory' socket') :
    socket'.available < socket.available := by
  obtain ⟨hheader, h⟩ := SocketPass.ofBody_eq_next h
  have hless := available_lt (by decide) hheader
  unfold bodyPass at h
  split_ifs at h with hc hsmall hbig hother
  · obtain ⟨hdesc, h⟩ := SocketPass.ofBody_eq_next h
    have hmore := available_lt (by omega) hdesc
    cases h
    exact hmore.trans hless
  · obtain ⟨hbody, h⟩ := SocketPass.ofBody_eq_next h
    have hsize : 4 ≤ (swap16 (word16 (window (sendOrReceive false (-1) 6 0 memory socket).memory 0 6) 4)).toNat :=
      Nat.not_lt.mp fun hlt => hother (Or.inr (Or.inl hlt))
    have hmore := available_lt (by omega) hbody
    simp only at h
    split_ifs at h
    cases h
    exact hmore.trans hless

/-- The frames that are processed, and the error code with which the loop was left, if it was. -/
def socketLoop (countOfInterfaces : Int) (memory : Nat → UInt8) (socket : Socket) :
    List (Bytes × Int) × Option (Option Nat) :=
  match _ : socketPass countOfInterfaces memory socket with
  | .waiting => ([], none)
  | .left errorCode => ([], some errorCode)
  | .next frame memory socket =>
    let r := socketLoop countOfInterfaces memory socket
    (frame.toList ++ r.1, r.2)
termination_by socket.available
decreasing_by exact socketPass_available ‹_›

/-! On the pieces of a stream. -/

section Pieces

variable {countOfInterfaces : Int} {memory : Nat → UInt8} {socket : Socket} {stream : Bytes}

def EventPass.onward (frame : Option (Bytes × Int)) (rest : Bytes) : EventPass :=
  match frame with
  | some (data, interfaceIndex) => .frame data interfaceIndex rest
  | none => .warning rest

/-- What a pass over the socket makes of a stream, in whatever pieces it arrives, next to the
pass over the stream itself. Only a stream that ends inside the message leaves it to what
comes behind it. -/
inductive Follows (pass : EventPass) (cut : Prop) (stream : Bytes) (socket : Socket) (run : Socket → SocketPass) : Prop
  | onward (frame : Option (Bytes × Int)) (memory : Nat → UInt8) (rest : Bytes) (hcut : ¬ cut)
      (hpass : pass = .onward frame rest)
      (hrun : ∀ (l : List Bytes) (t : List (Option Bytes)), l.flatten = stream → ∃ left : List Bytes,
        left.flatten = rest ∧ run { socket with incoming := l.map some ++ t } =
          .next frame memory { socket with incoming := left.map some ++ t })
  | left (errorCode : Option Nat) (hcut : ¬ cut) (hpass : pass = .abort errorCode)
      (hrun : ∀ (l : List Bytes) (t : List (Option Bytes)), l.flatten = stream →
        run { socket with incoming := l.map some ++ t } = .left errorCode)
  | breaksOff (errorCode : Option Nat) (hcut : cut) (hpass : pass = .abort errorCode)
      (hwaits : ∀ l : List Bytes, l.flatten = stream → run { socket with incoming := l.map some ++ [] } = .waiting)
      (hfails : ∀ (l : List Bytes) (t : List (Option Bytes)), l.flatten = stream →
        run { socket with incoming := l.map some ++ none :: t } = .left errorCode)

theorem follows_body {size errorCode : Nat} {pass : EventPass} {cut : Prop} (inside : Transfer → SocketPass)
    (hs : 0 < size) (hshort : stream.length < size → pass = .abort (some errorCode) ∧ cut)
    (hlong : size ≤ stream.length → Follows pass cut (stream.drop size) socket fun s =>
      inside { returned := some true, printed := none, memory := overwrite memory 0 (stream.take size), socket := s }) :
    Follows pass cut stream socket fun s =>
      let body := sendOrReceive false (-1) size 0 memory s
      .ofBody errorCode body (inside body) := by
  by_cases hlt : stream.length < size
  · obtain ⟨hpass, hcut⟩ := hshort hlt
    apply Follows.breaksOff (some errorCode) hcut hpass
    · rintro l rfl
      simp only [sendOrReceive, receive_parts hlt, receive_blocked, SocketPass.ofBody]
    · rintro l t rfl
      simp only [sendOrReceive, receive_parts hlt, receive_failed, SocketPass.ofBody]
  · have hwhole (l : List Bytes) (t : List (Option Bytes)) (hl : l.flatten = stream) : ∃ left : List Bytes,
        left.flatten = stream.drop size ∧
        sendOrReceive false (-1) size 0 memory { socket with incoming := l.map some ++ t } =
          { returned := some true, printed := none, memory := overwrite memory 0 (stream.take size),
            socket := { socket with incoming := left.map some ++ t } } := by
      subst hl
      have hne : l ≠ [] := by
        rintro rfl
        simp at hlt
        omega
      obtain ⟨left, hleft, hall⟩ := @receive_whole (-1) size 0 memory socket l hne (by omega)
      exact ⟨left, hleft, hall t⟩
    cases hlong (by omega) with
    | onward frame memory' rest hcut hpass hrun =>
      apply Follows.onward frame memory' rest hcut hpass
      intro l t hl
      obtain ⟨left, hleft, htransfer⟩ := hwhole l t hl
      obtain ⟨left', hleft', hnext⟩ := hrun left t hleft
      refine ⟨left', hleft', ?_⟩
      simp only [htransfer, SocketPass.ofBody]
      exact hnext
    | left code hcut hpass hrun =>
      apply Follows.left code hcut hpass
      intro l t hl
      obtain ⟨left, hleft, htransfer⟩ := hwhole l t hl
      simp only [htransfer, SocketPass.ofBody]
      exact hrun left t hleft
    | breaksOff code hcut hpass hwaits hfails =>
      apply Follows.breaksOff code hcut hpass
      · intro l hl
        obtain ⟨left, hleft, htransfer⟩ := hwhole l [] hl
        simp only [htransfer, SocketPass.ofBody]
        exact hwaits left hleft
      · intro l t hl
        obtain ⟨left, hleft, htransfer⟩ := hwhole l (none :: t) hl
        simp only [htransfer, SocketPass.ofBody]
        exact hfails left t hleft

theorem follows_next {cut : Prop} (hcut : ¬ cut) (frame : Option (Bytes × Int)) (rest : Bytes) :
    Follows (.onward frame rest) cut rest socket fun s => .next frame memory s :=
  .onward frame memory rest hcut rfl fun l _ hl => ⟨l, hl, rfl⟩

theorem follows_left {cut : Prop} (hcut : ¬ cut) (errorCode : Option Nat) :
    Follows (.abort errorCode) cut stream socket fun _ => .left errorCode :=
  .left errorCode hcut rfl fun _ _ _ => rfl

/-- The stream ends inside a body that the header announced as acceptable. -/
structure BodyBreaksOff (c : UInt32) (size : Nat) (stream : Bytes) : Prop where
  length_lt : stream.length < size
  size_le : size ≤ frameBufferSize
  acceptable : c = invalidInterfaceIndexType ∧ 1 ≤ size ∨ c = rawFrameReceivedNotificationType ∧ 4 ≤ size

def BreaksOff (stream : Bytes) : Prop := stream.length < 6 ∨
  BodyBreaksOff (swap32 (word32 stream 0)) (swap16 (word16 stream 4)).toNat (stream.drop 6)

/-- Whole messages of frames and warnings, then one that breaks off. -/
inductive Unfinished (countOfInterfaces : Int) : Bytes → Prop
  | breaksOff {stream : Bytes} (h : BreaksOff stream) : Unfinished countOfInterfaces stream
  | onward {stream rest : Bytes} {frame : Option (Bytes × Int)}
      (h : simulationEventPass countOfInterfaces stream = .onward frame rest)
      (hr : Unfinished countOfInterfaces rest) : Unfinished countOfInterfaces stream

/-- Whole messages of frames and warnings, then a warning announced as longer than the buffer. -/
inductive Overlong (countOfInterfaces : Int) : Bytes → Prop
  | announced {stream : Bytes} (hl : 6 ≤ stream.length)
      (hc : swap32 (word32 stream 0) = invalidInterfaceIndexType)
      (hs : frameBufferSize < (swap16 (word16 stream 4)).toNat) : Overlong countOfInterfaces stream
  | onward {stream rest : Bytes} {frame : Option (Bytes × Int)}
      (h : simulationEventPass countOfInterfaces stream = .onward frame rest)
      (hr : Overlong countOfInterfaces rest) : Overlong countOfInterfaces stream

theorem follows_warning (size : Nat) : Follows
    (if size < 1 then .abort (some 27) else if frameBufferSize < size then .abort none
      else if stream.length < size then .abort (some 27) else .warning (stream.drop size))
    (BodyBreaksOff invalidInterfaceIndexType size stream) stream socket
    (bodyPass countOfInterfaces invalidInterfaceIndexType size memory) := by
  unfold bodyPass
  by_cases hsmall : size < 1
  · simp only [hsmall, if_true]
    exact follows_left (fun h => absurd h.length_lt (by omega)) _
  · by_cases hbig : frameBufferSize < size
    · simp only [hsmall, if_false, hbig, if_true]
      exact follows_left (fun h => absurd h.size_le (by omega)) _
    · simp only [hsmall, if_false, hbig, if_true]
      apply follows_body (fun desc => .next none desc.memory desc.socket) (by omega)
      · intro hshort
        simp only [hshort, if_true, true_and]
        exact ⟨hshort, by omega, Or.inl ⟨rfl, by omega⟩⟩
      · intro hbody
        simp only [Nat.not_lt.mpr hbody, if_false]
        exact follows_next (fun h => absurd h.length_lt (by omega)) none _

theorem follows_frame {c : UInt32} (hc : c ≠ invalidInterfaceIndexType) (size : Nat) : Follows
    (if c ≠ rawFrameReceivedNotificationType ∨ size < 4 ∨ frameBufferSize < size then .abort (some 28)
      else if stream.length < size then .abort (some 29)
      else
        if (swap32 (word32 stream 0)).toInt32.toInt < 0 ∨
            countOfInterfaces ≤ (swap32 (word32 stream 0)).toInt32.toInt then .abort (some 30)
        else .frame ((stream.take size).drop 4) (swap32 (word32 stream 0)).toInt32.toInt (stream.drop size))
    (BodyBreaksOff c size stream) stream socket (bodyPass countOfInterfaces c size memory) := by
  unfold bodyPass
  by_cases hother : c ≠ rawFrameReceivedNotificationType ∨ size < 4 ∨ frameBufferSize < size
  · simp only [hc, if_false, hother, if_true]
    refine follows_left ?_ _
    rintro ⟨-, hbig, ⟨hw, -⟩ | ⟨hf, hsmall⟩⟩
    · exact hc hw
    · rcases hother with h | h | h
      · exact h hf
      · omega
      · omega
  · simp only [hc, if_false, hother]
    simp only [not_or, not_not, Nat.not_lt] at hother
    obtain ⟨hframe, hsize, hbig⟩ := hother
    apply follows_body (fun body =>
      let interfaceIndex := (swap32 (word32 (window body.memory 0 4) 0)).toInt32.toInt
      if interfaceIndex < 0 ∨ countOfInterfaces ≤ interfaceIndex then .left (some 30)
      else .next (some (window body.memory 4 (size - 4), interfaceIndex)) body.memory body.socket) (by omega)
    · intro hshort
      simp only [hshort, if_true, true_and]
      exact ⟨hshort, hbig, Or.inr ⟨hframe, hsize⟩⟩
    · intro hbody
      have hcut : ¬ BodyBreaksOff c size stream := fun h => absurd h.length_lt (by omega)
      have hindex : word32 (window (overwrite memory 0 (stream.take size)) 0 4) 0 = word32 stream 0 := by
        rw [window_overwrite_take hbody (by omega), word32_take (by decide), List.drop_zero, word32_take (by omega)]
      have hdata : window (overwrite memory 0 (stream.take size)) 4 (size - 4) = (stream.take size).drop 4 := by
        rw [window_overwrite_take hbody (by omega)]
        apply List.take_of_length_le
        simp only [List.length_drop, List.length_take]
        omega
      simp only [Nat.not_lt.mpr hbody, if_false, hindex, hdata]
      by_cases hrange : (swap32 (word32 stream 0)).toInt32.toInt < 0 ∨
          countOfInterfaces ≤ (swap32 (word32 stream 0)).toInt32.toInt
      · simp only [hrange, if_true]
        exact follows_left hcut _
      · simp only [hrange, if_false]
        exact follows_next hcut (some ((stream.take size).drop 4, _)) _

theorem follows_socketPass : Follows (simulationEventPass countOfInterfaces stream) (BreaksOff stream) stream socket
    (socketPass countOfInterfaces memory) := by
  apply follows_body (fun header => bodyPass countOfInterfaces (swap32 (word32 (window header.memory 0 6) 0))
    (swap16 (word16 (window header.memory 0 6) 4)).toNat header.memory header.socket) (by decide)
  · intro hshort
    simp only [simulationEventPass, hshort, if_true, BreaksOff, true_or, and_self]
  · intro hheader
    have hlong : ¬ stream.length < 6 := by omega
    have hfields : window (overwrite memory 0 (stream.take 6)) 0 6 = stream.take 6 := by
      rw [window_overwrite_take hheader (by decide), List.drop_zero, List.take_take]
      rfl
    simp only [hfields, word32_take (show 0 + 4 ≤ 6 by decide), word16_take (show 4 + 2 ≤ 6 by decide),
      simulationEventPass, hlong, if_false, BreaksOff, false_or]
    by_cases hc : swap32 (word32 stream 0) = invalidInterfaceIndexType
    · simp only [hc, if_true]
      exact follows_warning _
    · simp only [hc, if_false]
      exact follows_frame hc _

theorem simulationEventLoop_onward {frame : Option (Bytes × Int)} {rest : Bytes}
    (h : simulationEventPass countOfInterfaces stream = .onward frame rest) :
    simulationEventLoop countOfInterfaces stream =
      (frame.toList ++ (simulationEventLoop countOfInterfaces rest).1,
        (simulationEventLoop countOfInterfaces rest).2) := by
  rw [simulationEventLoop]
  cases frame with
  | none => split <;> rename_i he <;> rw [h] at he <;> cases he; rfl
  | some frame => split <;> rename_i he <;> rw [h] at he <;> cases he; rfl

theorem simulationEventLoop_abort {errorCode : Option Nat}
    (h : simulationEventPass countOfInterfaces stream = .abort errorCode) :
    simulationEventLoop countOfInterfaces stream = ([], errorCode) := by
  rw [simulationEventLoop]
  split <;> rename_i he <;> rw [h] at he <;> cases he
  rfl

theorem socketLoop_waiting (h : socketPass countOfInterfaces memory socket = .waiting) :
    socketLoop countOfInterfaces memory socket = ([], none) := by
  rw [socketLoop]
  split <;> rename_i he <;> cases h.symm.trans he
  rfl

theorem socketLoop_left {errorCode : Option Nat} (h : socketPass countOfInterfaces memory socket = .left errorCode) :
    socketLoop countOfInterfaces memory socket = ([], some errorCode) := by
  rw [socketLoop]
  split <;> rename_i he <;> cases h.symm.trans he
  rfl

theorem socketLoop_next {frame : Option (Bytes × Int)} {memory' : Nat → UInt8} {socket' : Socket}
    (h : socketPass countOfInterfaces memory socket = .next frame memory' socket') :
    socketLoop countOfInterfaces memory socket =
      (frame.toList ++ (socketLoop countOfInterfaces memory' socket').1,
        (socketLoop countOfInterfaces memory' socket').2) := by
  rw [socketLoop]
  split <;> rename_i he <;> cases h.symm.trans he
  rfl

theorem EventPass.onward_inj {frame frame' : Option (Bytes × Int)} {rest rest' : Bytes}
    (h : EventPass.onward frame rest = .onward frame' rest') : frame = frame' ∧ rest = rest' := by
  cases frame <;> cases frame' <;> simp_all [EventPass.onward, Prod.ext_iff]

theorem unfinished_onward {frame : Option (Bytes × Int)} {rest : Bytes} (hcut : ¬ BreaksOff stream)
    (h : simulationEventPass countOfInterfaces stream = .onward frame rest) :
    Unfinished countOfInterfaces stream ↔ Unfinished countOfInterfaces rest := by
  constructor
  · intro hu
    cases hu with
    | breaksOff hb => exact absurd hb hcut
    | onward h' hr =>
      obtain ⟨-, rfl⟩ := EventPass.onward_inj (h.symm.trans h')
      exact hr
  · exact .onward h

theorem unfinished_abort {errorCode : Option Nat}
    (h : simulationEventPass countOfInterfaces stream = .abort errorCode) :
    Unfinished countOfInterfaces stream ↔ BreaksOff stream := by
  constructor
  · intro hu
    cases hu with
    | breaksOff hb => exact hb
    | @onward _ _ frame h' _ => cases frame <;> cases h.symm.trans h'
  · exact .breaksOff

theorem abort_none_iff : simulationEventPass countOfInterfaces stream = .abort none ↔ 6 ≤ stream.length ∧
    swap32 (word32 stream 0) = invalidInterfaceIndexType ∧
    frameBufferSize < (swap16 (word16 stream 4)).toNat := by
  unfold simulationEventPass
  by_cases hl : stream.length < 6
  · rw [if_pos hl]
    exact iff_of_false (by simp) fun h => absurd h.1 (by omega)
  · by_cases hc : swap32 (word32 stream 0) = invalidInterfaceIndexType
    · by_cases hbig : frameBufferSize < (swap16 (word16 stream 4)).toNat
      · have hsmall : ¬ (swap16 (word16 stream 4)).toNat < 1 := by omega
        simp only [if_neg hl, if_pos hc, if_neg hsmall, if_pos hbig, true_iff]
        exact ⟨Nat.not_lt.mp hl, hc, hbig⟩
      · simp only [if_neg hl, if_pos hc, if_neg hbig]
        refine iff_of_false ?_ fun h => hbig h.2.2
        split_ifs <;> simp
    · simp only [if_neg hl, if_neg hc]
      refine iff_of_false ?_ fun h => hc h.2.1
      split_ifs <;> simp

theorem overlong_iff : Overlong countOfInterfaces stream ↔ (simulationEventLoop countOfInterfaces stream).2 = none := by
  constructor
  · intro h
    induction h with
    | announced hl hc hs => rw [simulationEventLoop_abort (abort_none_iff.mpr ⟨hl, hc, hs⟩)]
    | onward h _ ih => rw [simulationEventLoop_onward h, ih]
  · induction hn : stream.length using Nat.strong_induction_on generalizing stream with
    | _ n ih =>
      intro hnone
      cases hpass : simulationEventPass countOfInterfaces stream with
      | frame data interfaceIndex rest =>
        have hpass : simulationEventPass countOfInterfaces stream = .onward (some (data, interfaceIndex)) rest := hpass
        rw [simulationEventLoop_onward hpass] at hnone
        exact .onward hpass (ih rest.length (hn ▸ rest_length_lt (by rw [hpass]; rfl)) rfl hnone)
      | warning rest =>
        have hpass : simulationEventPass countOfInterfaces stream = .onward none rest := hpass
        rw [simulationEventLoop_onward hpass] at hnone
        exact .onward hpass (ih rest.length (hn ▸ rest_length_lt (by rw [hpass]; rfl)) rfl hnone)
      | abort errorCode =>
        rw [simulationEventLoop_abort hpass] at hnone
        obtain rfl : errorCode = none := hnone
        obtain ⟨hl, hc, hs⟩ := abort_none_iff.mp hpass
        exact .announced hl hc hs

/-- However the stream is cut into pieces, the loop processes its frames and is left as over
the stream; only if the stream ends inside a message does it wait for what comes behind it. -/
theorem socketLoop_stream (stream : Bytes) (memory : Nat → UInt8) {l : List Bytes} (hl : l.flatten = stream) :
    (¬ Unfinished countOfInterfaces stream → ∀ t : List (Option Bytes),
      socketLoop countOfInterfaces memory { socket with incoming := l.map some ++ t } =
        ((simulationEventLoop countOfInterfaces stream).1, some (simulationEventLoop countOfInterfaces stream).2)) ∧
    (Unfinished countOfInterfaces stream →
      socketLoop countOfInterfaces memory { socket with incoming := l.map some ++ [] } =
        ((simulationEventLoop countOfInterfaces stream).1, none)) ∧
    ∀ t : List (Option Bytes),
      socketLoop countOfInterfaces memory { socket with incoming := l.map some ++ none :: t } =
        ((simulationEventLoop countOfInterfaces stream).1, some (simulationEventLoop countOfInterfaces stream).2) := by
  induction hn : stream.length using Nat.strong_induction_on generalizing stream memory l with
  | _ n ih =>
    cases @follows_socketPass countOfInterfaces memory socket stream with
    | onward frame memory' rest hcut hpass hrun =>
      have hlt : rest.length < n := by
        rw [← hn]
        apply rest_length_lt
        rw [hpass]
        cases frame <;> rfl
      have hstep (t : List (Option Bytes)) : ∃ left : List Bytes, left.flatten = rest ∧
          socketLoop countOfInterfaces memory { socket with incoming := l.map some ++ t } =
            (frame.toList ++ (socketLoop countOfInterfaces memory' { socket with incoming := left.map some ++ t }).1,
              (socketLoop countOfInterfaces memory' { socket with incoming := left.map some ++ t }).2) := by
        obtain ⟨left, hleft, hnext⟩ := hrun l t hl
        exact ⟨left, hleft, socketLoop_next hnext⟩
      rw [simulationEventLoop_onward hpass, unfinished_onward hcut hpass]
      refine ⟨fun hu t => ?_, fun hu => ?_, fun t => ?_⟩
      · obtain ⟨left, hleft, he⟩ := hstep t
        rw [he, (ih rest.length hlt rest memory' hleft rfl).1 hu t]
      · obtain ⟨left, hleft, he⟩ := hstep []
        rw [he, (ih rest.length hlt rest memory' hleft rfl).2.1 hu]
      · obtain ⟨left, hleft, he⟩ := hstep (none :: t)
        rw [he, (ih rest.length hlt rest memory' hleft rfl).2.2 t]
    | left errorCode hcut hpass hrun =>
      rw [simulationEventLoop_abort hpass, unfinished_abort hpass]
      exact ⟨fun _ t => socketLoop_left (hrun l t hl), fun h => absurd h hcut,
        fun t => socketLoop_left (hrun l (none :: t) hl)⟩
    | breaksOff errorCode hcut hpass hwaits hfails =>
      rw [simulationEventLoop_abort hpass, unfinished_abort hpass]
      exact ⟨fun h => absurd hcut h, fun _ => socketLoop_waiting (hwaits l hl),
        fun t => socketLoop_left (hfails l t hl)⟩

end Pieces

theorem receive_fails {errorCode : Int} {size buf : Nat} {memory : Nat → UInt8} {socket : Socket} {l : List Bytes}
    (h : l = [] ∨ l.flatten.length < size) (rest : List (Option Bytes)) :
    (sendOrReceive false errorCode size buf memory { socket with incoming := l.map some ++ none :: rest }).returned =
      some false := by
  rcases h with rfl | h
  · exact congrArg Transfer.returned receive_failed
  · rw [sendOrReceive, receive_parts h, receive_failed]

theorem send_fails {errorCode : Int} {size buf : Nat} {memory : Nat → UInt8} {socket : Socket} {l : List Nat}
    (h : l = [] ∨ l.sum < size) (rest : List (Option Nat)) :
    (sendOrReceive true errorCode size buf memory { socket with accepting := l.map some ++ none :: rest }).returned =
      some false := by
  rcases h with rfl | h
  · exact congrArg Transfer.returned send_failed
  · have hparts := @send_parts errorCode size buf memory socket (none :: rest) l h
    rw [sendOrReceive, hparts]
    exact congrArg Transfer.returned (@send_failed errorCode (size - l.sum) (buf + l.sum) memory
      { socket with outgoing := socket.outgoing ++ window memory buf l.sum } rest)

/-- The loop transfers the next `size` bytes of the stream, once and in order, whatever the
calls make of it, or fails with the first call that fails; so the messages are those of the
stream, however it is cut into pieces. -/
theorem fragments_transferred :
    (∀ (errorCode : Int) (size buf : Nat) (memory : Nat → UInt8) (socket : Socket) (l : List Bytes),
      (l ≠ [] → size ≤ l.flatten.length → ∃ left : List Bytes, left.flatten = l.flatten.drop size ∧
        ∀ rest : List (Option Bytes),
          sendOrReceive false errorCode size buf memory { socket with incoming := l.map some ++ rest } =
            { returned := some true, printed := none, memory := overwrite memory buf (l.flatten.take size),
              socket := { socket with incoming := left.map some ++ rest } }) ∧
      ((l = [] ∨ l.flatten.length < size) → ∀ rest : List (Option Bytes),
        (sendOrReceive false errorCode size buf memory
          { socket with incoming := l.map some ++ none :: rest }).returned = some false)) ∧
    (∀ (errorCode : Int) (size buf : Nat) (memory : Nat → UInt8) (socket : Socket) (l : List Nat),
      (l ≠ [] → size ≤ l.sum → ∃ k, ∀ rest : List (Option Nat),
        sendOrReceive true errorCode size buf memory { socket with accepting := l.map some ++ rest } =
          { returned := some true, printed := none, memory := memory,
            socket := { socket with
              accepting := (l.drop k).map some ++ rest, outgoing := socket.outgoing ++ window memory buf size } }) ∧
      ((l = [] ∨ l.sum < size) → ∀ rest : List (Option Nat),
        (sendOrReceive true errorCode size buf memory
          { socket with accepting := l.map some ++ none :: rest }).returned = some false)) ∧
    ∀ (countOfInterfaces : Int) (memory : Nat → UInt8) (socket : Socket) (l : List Bytes),
      (socketLoop countOfInterfaces memory { socket with incoming := l.map some }).1 =
        (simulationEventLoop countOfInterfaces l.flatten).1 ∧
      (∀ l' : List Bytes, l'.flatten = l.flatten →
        socketLoop countOfInterfaces memory { socket with incoming := l'.map some } =
          socketLoop countOfInterfaces memory { socket with incoming := l.map some }) ∧
      ∀ rest : List (Option Bytes),
        socketLoop countOfInterfaces memory { socket with incoming := l.map some ++ none :: rest } =
          ((simulationEventLoop countOfInterfaces l.flatten).1,
            some (simulationEventLoop countOfInterfaces l.flatten).2) := by
  refine ⟨fun errorCode size buf memory socket l => ⟨receive_whole, receive_fails⟩,
    fun errorCode size buf memory socket l => ⟨send_whole, send_fails⟩, fun count memory socket l => ⟨?_, ?_, ?_⟩⟩
  · obtain ⟨hleft, hwaits, -⟩ := @socketLoop_stream count socket l.flatten memory l rfl
    rw [List.append_nil] at hwaits
    by_cases hu : Unfinished count l.flatten
    · rw [hwaits hu]
    · have h := hleft hu []
      rw [List.append_nil] at h
      rw [h]
  · intro l' hflat
    obtain ⟨hleft, hwaits, -⟩ := @socketLoop_stream count socket l.flatten memory l rfl
    obtain ⟨hleft', hwaits', -⟩ := @socketLoop_stream count socket l.flatten memory l' hflat
    rw [List.append_nil] at hwaits hwaits'
    by_cases hu : Unfinished count l.flatten
    · rw [hwaits hu, hwaits' hu]
    · have h := hleft hu []
      have h' := hleft' hu []
      rw [List.append_nil] at h h'
      rw [h, h']
  · exact (@socketLoop_stream count socket l.flatten memory l rfl).2.2

def idleSocket : Socket := { incoming := [], accepting := [], outgoing := [] }

/-- Six bytes of seven in three pieces, then in two and a failure; the same for `send`; and a
frame of two bytes for the interface 1, cut in two ways, before the connection fails. -/
theorem fragments_transferred_of_pieces :
    (∃ left : List Bytes, left.flatten = [7] ∧
      sendOrReceive false 15 6 0 (fun _ => 0) { idleSocket with incoming := [[1, 2], [3], [4, 5, 6, 7]].map some ++ [] } =
        { returned := some true, printed := none, memory := overwrite (fun _ => 0) 0 [1, 2, 3, 4, 5, 6],
          socket := { idleSocket with incoming := left.map some ++ [] } }) ∧
    (sendOrReceive false 15 6 0 (fun _ => 0)
      { idleSocket with incoming := [[1, 2], [3]].map some ++ none :: [] }).returned = some false ∧
    (∃ k, sendOrReceive true 14 4 0 (fun _ => 9) { idleSocket with accepting := [1, 3].map some ++ [] } =
        { returned := some true, printed := none, memory := fun _ => 9,
          socket := { idleSocket with
            accepting := ([1, 3].drop k).map some ++ [], outgoing := [] ++ window (fun _ => 9) 0 4 } }) ∧
    (sendOrReceive true 14 4 0 (fun _ => 9)
      { idleSocket with accepting := [1, 2].map some ++ none :: [] }).returned = some false ∧
    socketLoop 2 (fun _ => 0)
        { idleSocket with incoming := [[0, 0, 0], [4, 0, 6, 0], [0, 0, 1, 7], [8]].map some ++ none :: [] } =
      ([([7, 8], 1)], some (some 26)) ∧
    (socketLoop 2 (fun _ => 0)
        { idleSocket with incoming := [[0], [0, 0, 4, 0, 6, 0, 0, 0], [1, 7, 8]].map some }).1 = [([7, 8], 1)] := by
  obtain ⟨hreceive, hsend, hloop⟩ := fragments_transferred
  obtain ⟨left, hleft, hwhole⟩ := (hreceive 15 6 0 (fun _ => 0) idleSocket [[1, 2], [3], [4, 5, 6, 7]]).1
    (by decide) (by decide)
  obtain ⟨k, hk⟩ := (hsend 14 4 0 (fun _ => 9) idleSocket [1, 3]).1 (by decide) (by decide)
  have hstream : simulationEventLoop 2 [0, 0, 0, 4, 0, 6, 0, 0, 0, 1, 7, 8] = ([([7, 8], 1)], some 26) := by
    have hframe : simulationEventPass 2 [0, 0, 0, 4, 0, 6, 0, 0, 0, 1, 7, 8] = .onward (some ([7, 8], 1)) [] := rfl
    have hend : simulationEventPass 2 [] = .abort (some 26) := rfl
    rw [simulationEventLoop_onward hframe, simulationEventLoop_abort hend]
    rfl
  have hfails := (hloop 2 (fun _ => 0) idleSocket [[0, 0, 0], [4, 0, 6, 0], [0, 0, 1, 7], [8]]).2.2 []
  have hframes := (hloop 2 (fun _ => 0) idleSocket [[0], [0, 0, 4, 0, 6, 0, 0, 0], [1, 7, 8]]).1
  exact ⟨⟨left, hleft, hwhole []⟩,
    (hreceive 15 6 0 (fun _ => 0) idleSocket [[1, 2], [3]]).2 (Or.inr (by decide)) [], ⟨k, hk []⟩,
    (hsend 14 4 0 (fun _ => 9) idleSocket [1, 2]).2 (Or.inr (by decide)) [],
    hfails.trans (congrArg (fun r : List (Bytes × Int) × Option Nat => (r.1, some r.2)) hstream),
    hframes.trans (congrArg Prod.fst hstream)⟩

end Overlay
