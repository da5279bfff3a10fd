import Overlay.EventLoop

/-! What the server tells a node while the simulation runs, as bytes: a pass of the event loop
over the beginning of such a stream reads the first notification or waits for the rest of it. -/

namespace Overlay

open ByteMemory Windows

/-- What the server tells a node while the simulation runs. -/
inductive Notification
  | rawFrame (frame : Bytes) (interfaceIndex : UInt32)
  | invalidInterfaceIndex (description : Bytes)

namespace Notification

def bytes : Notification → Bytes
  | .rawFrame frame interfaceIndex => bytes32 (swap32 rawFrameReceivedNotificationType) ++
      bytes16 (swap16 (UInt16.ofNat (4 + frame.length))) ++ bytes32 (swap32 interfaceIndex) ++ frame
  | .invalidInterfaceIndex description => bytes32 (swap32 invalidInterfaceIndexType) ++
      bytes16 (swap16 (UInt16.ofNat description.length)) ++ description

/-- The size has room in its field. What a warning longer than the buffer does is undefined. -/
def fits : Notification → Bool
  | .rawFrame frame _ => 4 + frame.length < 65536
  | .invalidInterfaceIndex description => description.length ≤ frameBufferSize

def frame? : Notification → Option Bytes
  | .rawFrame frame _ => some frame
  | .invalidInterfaceIndex _ => none

end Notification

/-! What is read of a stream. -/

section Read

variable {stream more rest : Bytes} {frame : Option (Bytes × Int)} {countOfInterfaces : Int}

theorem not_onward (errorCode : Option Nat) : EventPass.abort errorCode ≠ .onward frame rest := by
  cases frame <;> simp [EventPass.onward]

/-- What stands behind a message does not matter to the pass that reads it. -/
theorem pass_more (h : simulationEventPass countOfInterfaces stream = .onward frame rest) (more : Bytes) :
    simulationEventPass countOfInterfaces (stream ++ more) = .onward frame (rest ++ more) := by
  have hlong : ¬ stream.length < 6 := by
    intro hlong
    rw [simulationEventPass, if_pos hlong] at h
    exact not_onward _ h
  have hlong' : ¬ (stream ++ more).length < 6 := by
    rw [List.length_append]
    omega
  have htype : word32 (stream ++ more) 0 = word32 stream 0 := word32_append_left more (by omega)
  have hsize : word16 (stream ++ more) 4 = word16 stream 4 := word16_append_left more (by omega)
  have hdrop : (stream ++ more).drop 6 = stream.drop 6 ++ more := List.drop_append_of_le_length (by omega)
  simp only [simulationEventPass, hlong, hlong', if_false, htype, hsize, hdrop] at h ⊢
  set body := stream.drop 6
  set size := (swap16 (word16 stream 4)).toNat
  have hbody (hs : ¬ body.length < size) : ¬ (body ++ more).length < size := by
    rw [List.length_append]
    omega
  split_ifs at h with hc hsmall hbig hshort hother hshort hrange
  · exact absurd h (not_onward _)
  · exact absurd h (not_onward _)
  · exact absurd h (not_onward _)
  · obtain ⟨rfl, rfl⟩ := @EventPass.onward_inj none _ _ _ h
    rw [if_pos hc, if_neg hsmall, if_neg hbig, if_neg (hbody hshort), List.drop_append_of_le_length (by omega)]
    rfl
  · exact absurd h (not_onward _)
  · exact absurd h (not_onward _)
  · exact absurd h (not_onward _)
  · obtain ⟨rfl, rfl⟩ := @EventPass.onward_inj (some (_, _)) _ _ _ h
    have hindex : word32 (body ++ more) 0 = word32 body 0 := word32_append_left more (by omega)
    rw [if_neg hc, if_neg hother, if_neg (hbody hshort), hindex, if_neg hrange,
      List.drop_append_of_le_length (by omega), List.take_append_of_le_length (by omega)]
    rfl

theorem startsWith_rawFrame {data : Bytes} {interfaceIndex : UInt32}
    (hm : (Notification.rawFrame data interfaceIndex).fits = true) (more : Bytes) :
    StartsWith ((Notification.rawFrame data interfaceIndex).bytes ++ more) data more interfaceIndex := by
  have hfits : 4 + data.length < 65536 := of_decide_eq_true hm
  set sizeField := UInt16.ofNat (4 + data.length) with hs
  set stream := (Notification.rawFrame data interfaceIndex).bytes ++ more with hstream
  have hbytes : stream = bytes32 (swap32 rawFrameReceivedNotificationType) ++ bytes16 (swap16 sizeField) ++
      bytes32 (swap32 interfaceIndex) ++ data ++ more := rfl
  have hdrop : stream.drop 6 = bytes32 (swap32 interfaceIndex) ++ data ++ more := by
    rw [hbytes]
    simp only [List.append_assoc]
    rfl
  refine ⟨?_, ?_, ?_, hdrop, ?_⟩
  · rw [hbytes]
    simp only [List.length_append, length_bytes32, length_bytes16]
    omega
  · have hj : word32 stream 0 = swap32 rawFrameReceivedNotificationType := join32_bytes _
    rw [hj, swap32_swap32]
  · have hj : word16 stream 4 = swap16 sizeField := join16_bytes _
    rw [hj, swap16_swap16, hs, UInt16.toNat_ofNat']
    exact Nat.mod_eq_of_lt (by omega)
  · have hj : word32 (stream.drop 6) 0 = swap32 interfaceIndex := by
      rw [hdrop]
      exact join32_bytes _
    rw [hj, swap32_swap32]

theorem StartsWith.onward {data : Bytes} {interfaceIndex : UInt32} (hs : StartsWith stream data more interfaceIndex)
    (h : simulationEventPass countOfInterfaces stream = .onward frame rest) :
    frame.map Prod.fst = some data ∧ rest = more := by
  by_cases hrange : interfaceIndex.toInt32.toInt < 0 ∨ countOfInterfaces ≤ interfaceIndex.toInt32.toInt
  · have hne : ¬ rawFrameReceivedNotificationType = invalidInterfaceIndexType := by decide
    unfold simulationEventPass at h
    simp only [Nat.not_lt.mpr hs.length_le, hs.type_eq, hs.index_eq, if_neg hne, hrange, if_true] at h
    split_ifs at h <;> exact absurd h (not_onward _)
  · rw [not_or, Int.not_lt, Int.not_le] at hrange
    rw [hs.pass hrange.1 hrange.2] at h
    split_ifs at h
    · obtain ⟨rfl, rfl⟩ := @EventPass.onward_inj (some (_, _)) _ _ _ h
      exact ⟨rfl, rfl⟩
    · exact absurd h (not_onward _)

theorem invalidInterfaceIndex_fields {description : Bytes}
    (hm : (Notification.invalidInterfaceIndex description).fits = true) (more : Bytes) :
    let stream := (Notification.invalidInterfaceIndex description).bytes ++ more
    ¬ stream.length < 6 ∧ swap32 (word32 stream 0) = invalidInterfaceIndexType ∧
      (swap16 (word16 stream 4)).toNat = description.length ∧ stream.drop 6 = description ++ more := by
  have hfits : description.length ≤ 1524 := of_decide_eq_true hm
  intro stream
  have hbytes : stream = bytes32 (swap32 invalidInterfaceIndexType) ++
      bytes16 (swap16 (UInt16.ofNat description.length)) ++ description ++ more := rfl
  refine ⟨?_, ?_, ?_, rfl⟩
  · rw [hbytes]
    simp only [List.length_append, length_bytes32, length_bytes16]
    omega
  · have hj : word32 stream 0 = swap32 invalidInterfaceIndexType := join32_bytes _
    rw [hj, swap32_swap32]
  · have hj : word16 stream 4 = swap16 (UInt16.ofNat description.length) := join16_bytes _
    rw [hj, swap16_swap16, UInt16.toNat_ofNat']
    exact Nat.mod_eq_of_lt (by omega)

theorem Notification.onward {m : Notification} (hm : m.fits = true)
    (h : simulationEventPass countOfInterfaces (m.bytes ++ more) = .onward frame rest) :
    frame.map Prod.fst = m.frame? ∧ rest = more := by
  cases m with
  | rawFrame data interfaceIndex => exact (startsWith_rawFrame hm more).onward h
  | invalidInterfaceIndex description =>
    obtain ⟨hlong, htype, hsize, hdrop⟩ := invalidInterfaceIndex_fields hm more
    unfold simulationEventPass at h
    simp only [hlong, if_false, htype, if_true, hsize, hdrop, List.drop_left] at h
    split_ifs at h
    · exact absurd h (not_onward _)
    · exact absurd h (not_onward _)
    · exact absurd h (not_onward _)
    · obtain ⟨rfl, rfl⟩ := @EventPass.onward_inj none _ _ _ h
      exact ⟨rfl, rfl⟩

/-- No notification that fits is announced as longer than the buffer. -/
theorem Notification.abort_ne {m : Notification} (hm : m.fits = true) :
    simulationEventPass countOfInterfaces (m.bytes ++ more) ≠ .abort none := by
  intro h
  obtain ⟨-, htype, hbig⟩ := abort_none_iff.mp h
  cases m with
  | rawFrame data interfaceIndex =>
    rw [(startsWith_rawFrame hm more).type_eq] at htype
    exact absurd htype (by decide)
  | invalidInterfaceIndex description =>
    obtain ⟨-, -, hsize, -⟩ := invalidInterfaceIndex_fields hm more
    rw [hsize] at hbig
    exact absurd hbig (Nat.not_lt.mpr (of_decide_eq_true hm))

/-- A pass over the first bytes of whole messages reads the first of them. -/
theorem onward_of_messages {l : List Notification} (hl : ∀ m ∈ l, m.fits = true)
    (hstream : stream ++ more = l.flatMap Notification.bytes)
    (h : simulationEventPass countOfInterfaces stream = .onward frame rest) :
    ∃ m l', l = m :: l' ∧ frame.map Prod.fst = m.frame? ∧ rest ++ more = l'.flatMap Notification.bytes := by
  cases l with
  | nil =>
    obtain ⟨rfl, -⟩ := List.append_eq_nil_iff.mp hstream
    exact absurd h (not_onward _)
  | cons m l =>
    have hmore := pass_more h more
    rw [hstream, List.flatMap_cons] at hmore
    obtain ⟨hframe, hrest⟩ := Notification.onward (hl m List.mem_cons_self) hmore
    exact ⟨m, l, rfl, hframe, hrest⟩

theorem abort_of_messages {l : List Notification} (hl : ∀ m ∈ l, m.fits = true)
    (hstream : stream ++ more = l.flatMap Notification.bytes) :
    simulationEventPass countOfInterfaces stream ≠ .abort none := by
  intro h
  obtain ⟨hlong, htype, hbig⟩ := abort_none_iff.mp h
  cases l with
  | nil =>
    obtain ⟨rfl, -⟩ := List.append_eq_nil_iff.mp hstream
    exact absurd hlong (by decide)
  | cons m l =>
    -- the fields of the header are the same in the stream that goes on
    have hmore : simulationEventPass countOfInterfaces (stream ++ more) = .abort none := by
      rw [abort_none_iff, word32_append_left more (by omega), word16_append_left more (by omega), List.length_append]
      exact ⟨by omega, htype, hbig⟩
    rw [hstream, List.flatMap_cons] at hmore
    exact Notification.abort_ne (hl m List.mem_cons_self) hmore

/-- A pass over the socket that goes on has read what the pass over the stream reads. -/
theorem socketPass_next {buffer buffer' : Nat → UInt8} {socket socket' : Socket} {pieces : List Bytes}
    {t : List (Option Bytes)} (hin : socket.incoming = pieces.map some ++ t) (ht : t = [] ∨ ∃ t', t = none :: t')
    (h : socketPass countOfInterfaces buffer socket = .next frame buffer' socket') :
    ∃ left : List Bytes, socket' = { socket with incoming := left.map some ++ t } ∧
      simulationEventPass countOfInterfaces pieces.flatten = .onward frame left.flatten := by
  have hsocket : { socket with incoming := pieces.map some ++ t } = socket := by rw [← hin]
  cases @follows_socketPass countOfInterfaces buffer socket pieces.flatten with
  | onward frame memory rest hcut hpass hrun =>
    obtain ⟨left, hleft, hnext⟩ := hrun pieces t rfl
    rw [hsocket, h] at hnext
    obtain ⟨rfl, rfl, rfl⟩ := SocketPass.next.inj hnext
    exact ⟨left, rfl, by rw [hpass, hleft]⟩
  | left errorCode hcut hpass hrun =>
    have hleft := hrun pieces t rfl
    rw [hsocket, h] at hleft
    cases hleft
  | breaksOff errorCode hcut hpass hwaits hfails =>
    rcases ht with rfl | ⟨t', rfl⟩
    · have hwait := hwaits pieces rfl
      rw [hsocket, h] at hwait
      cases hwait
    · have hfail := hfails pieces t' rfl
      rw [hsocket, h] at hfail
      cases hfail

theorem socketPass_left {buffer : Nat → UInt8} {socket : Socket} {pieces : List Bytes} {t : List (Option Bytes)}
    {errorCode : Option Nat} (hin : socket.incoming = pieces.map some ++ t) (ht : t = [] ∨ ∃ t', t = none :: t')
    (h : socketPass countOfInterfaces buffer socket = .left errorCode) :
    simulationEventPass countOfInterfaces pieces.flatten = .abort errorCode := by
  have hsocket : { socket with incoming := pieces.map some ++ t } = socket := by rw [← hin]
  cases @follows_socketPass countOfInterfaces buffer socket pieces.flatten with
  | onward frame memory rest hcut hpass hrun =>
    obtain ⟨left, _, hnext⟩ := hrun pieces t rfl
    rw [hsocket, h] at hnext
    cases hnext
  | left code hcut hpass hrun =>
    have hleft := hrun pieces t rfl
    rw [hsocket, h] at hleft
    rw [SocketPass.left.inj hleft, hpass]
  | breaksOff code hcut hpass hwaits hfails =>
    rcases ht with rfl | ⟨t', rfl⟩
    · have hwait := hwaits pieces rfl
      rw [hsocket, h] at hwait
      cases hwait
    · have hfail := hfails pieces t' rfl
      rw [hsocket, h] at hfail
      rw [SocketPass.left.inj hfail, hpass]

theorem socketPass_length {buffer buffer' : Nat → UInt8} {socket socket' : Socket} {data : Bytes} {interfaceIndex : Int}
    (h : socketPass countOfInterfaces buffer socket = .next (some (data, interfaceIndex)) buffer' socket') :
    data.length ≤ 1520 := by
  obtain ⟨-, h⟩ := SocketPass.ofBody_eq_next h
  unfold bodyPass at h
  split_ifs at h with hc hsmall hbig hother
  · obtain ⟨-, h⟩ := SocketPass.ofBody_eq_next h
    cases h
  · obtain ⟨-, h⟩ := SocketPass.ofBody_eq_next h
    simp only [not_or, Nat.not_lt, frameBufferSize] at hother
    simp only at h
    split_ifs at h
    cases h
    rw [length_window]
    omega

theorem pass_rawFrame {data : Bytes} (h : data.length ≤ 1520) :
    simulationEventPass 2 (Notification.rawFrame data 0).bytes = .frame data 0 [] := by
  have hfits : (Notification.rawFrame data 0).fits = true := decide_eq_true (by omega)
  have hpass := @StartsWith.pass _ _ _ _ 2 (startsWith_rawFrame hfits []) (by decide) (by decide)
  rw [List.append_nil, if_pos (by rw [frameBufferSize]; omega)] at hpass
  exact hpass

/-- A frame that fits is read once it is there. -/
theorem socketPass_rawFrame {data : Bytes} (h : data.length ≤ 1520) (buffer : Nat → UInt8) (socket : Socket)
    {pieces : List Bytes} (hp : pieces.flatten = (Notification.rawFrame data 0).bytes) :
    ∃ (buffer' : Nat → UInt8) (left : List Bytes), left.flatten = [] ∧
      socketPass 2 buffer { socket with incoming := pieces.map some } =
        .next (some (data, 0)) buffer' { socket with incoming := left.map some } := by
  have hpass := pass_rawFrame h
  rw [← hp] at hpass
  cases @follows_socketPass 2 buffer socket pieces.flatten with
  | onward frame memory rest hcut hpass' hrun =>
    obtain ⟨rfl, rfl⟩ := @EventPass.onward_inj (some (data, 0)) _ _ _ (hpass.symm.trans hpass')
    obtain ⟨left, hleft, hnext⟩ := hrun pieces [] rfl
    rw [List.append_nil, List.append_nil] at hnext
    exact ⟨memory, left, hleft, hnext⟩
  | left errorCode hcut hpass' hrun => cases hpass.symm.trans hpass'
  | breaksOff errorCode hcut hpass' hwaits hfails => cases hpass.symm.trans hpass'

end Read

end Overlay
