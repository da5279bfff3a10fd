import Overlay.Node

/-! The stream between a node and the server: frames go out behind a command and come in
behind a notification. What comes in is read into one buffer, so the longest frame that
a peer can receive is not the longest that a node can send. -/

namespace Overlay

open ByteMemory Execution

def frameBufferSize : Nat := 1524

def rawFrameReceivedNotificationType : UInt32 := 4

def invalidInterfaceIndexType : UInt32 := 5

def sendFrameCommand : UInt32 := 1

/-- What is written to the server; `none` is error 31. -/
def realSendFrame (frame : Bytes) (ifaceIndex : UInt32) : Option Bytes :=
  if frame.length < 14 ∨ 65536 - 4 ≤ frame.length then none
  else some (bytes32 (swap32 sendFrameCommand) ++ bytes16 (swap16 (UInt16.ofNat (4 + frame.length))) ++
    bytes32 (swap32 ifaceIndex) ++ frame)

/-- One pass of the event loop: a frame for `processFrame`, a warning, or the end of the
simulation with an error code, where `none` is a warning too long for the buffer. -/
inductive EventPass
  | frame (data : Bytes) (interfaceIndex : Int) (rest : Bytes)
  | warning (rest : Bytes)
  | abort (errorCode : Option Nat)

/-- A read fails if the stream ends before it. The one of an overlong warning is undefined from
the start: its call allows `recv` more bytes than the buffer has, however many then come. -/
def simulationEventPass (countOfInterfaces : Int) (stream : Bytes) : EventPass :=
  if stream.length < 6 then .abort (some 26)
  else
    let c := swap32 (word32 stream 0)
    let size := (swap16 (word16 stream 4)).toNat
    let stream := stream.drop 6
    if c = invalidInterfaceIndexType then
      if size < 1 then .abort (some 27)
      else if frameBufferSize < size then .abort none
      else if stream.length < size then .abort (some 27)
      else .warning (stream.drop size)
    else if c ≠ rawFrameReceivedNotificationType ∨ size < 4 ∨ frameBufferSize < size then .abort (some 28)
    else if stream.length < size then .abort (some 29)
    else
      let interfaceIndex := (swap32 (word32 stream 0)).toInt32.toInt
      if interfaceIndex < 0 ∨ countOfInterfaces ≤ interfaceIndex then .abort (some 30)
      else .frame ((stream.take size).drop 4) interfaceIndex (stream.drop size)

def EventPass.rest : EventPass → Option Bytes
  | .frame _ _ rest => some rest
  | .warning rest => some rest
  | .abort _ => none

theorem rest_length_lt {countOfInterfaces : Int} {stream rest : Bytes}
    (h : (simulationEventPass countOfInterfaces stream).rest = some rest) : rest.length < stream.length := by
  have hdrop (size : Nat) (hl : ¬ stream.length < 6) : ((stream.drop 6).drop size).length < stream.length := by
    rw [List.length_drop, List.length_drop]
    omega
  unfold simulationEventPass at h
  simp only at h
  split_ifs at h with hl <;> first | exact Option.some.inj h ▸ hdrop _ hl | cases h

/-- The frames that are processed until the loop ends, and the error it ends with. -/
def simulationEventLoop (countOfInterfaces : Int) (stream : Bytes) : List (Bytes × Int) × Option Nat :=
  match _ : simulationEventPass countOfInterfaces stream with
  | .frame data interfaceIndex rest =>
    let r := simulationEventLoop countOfInterfaces rest
    ((data, interfaceIndex) :: r.1, r.2)
  | .warning rest => simulationEventLoop countOfInterfaces rest
  | .abort errorCode => ([], errorCode)
termination_by stream.length
decreasing_by
  · exact rest_length_lt (congrArg EventPass.rest ‹_›)
  · exact rest_length_lt (congrArg EventPass.rest ‹_›)

/-- The server passes a frame on whole, with its size field, to an interface of the peer. -/
def Relayed (written message : Bytes) (interfaceIndex : UInt32) : Prop :=
  message = bytes32 (swap32 rawFrameReceivedNotificationType) ++ (written.drop 4).take 2 ++
    bytes32 (swap32 interfaceIndex) ++ written.drop 10

theorem relayed_of_sent {frame written message : Bytes} {ifaceIndex interfaceIndex : UInt32}
    (hw : realSendFrame frame ifaceIndex = some written) (hm : Relayed written message interfaceIndex) :
    frame.length < 65536 - 4 ∧ message = bytes32 (swap32 rawFrameReceivedNotificationType) ++
      bytes16 (swap16 (UInt16.ofNat (4 + frame.length))) ++ bytes32 (swap32 interfaceIndex) ++ frame := by
  unfold realSendFrame at hw
  split_ifs at hw with hl
  obtain rfl := Option.some.inj hw
  exact ⟨by omega, hm⟩

structure StartsWith (stream frame rest : Bytes) (interfaceIndex : UInt32) : Prop where
  length_le : 6 ≤ stream.length
  type_eq : swap32 (word32 stream 0) = rawFrameReceivedNotificationType
  size_eq : (swap16 (word16 stream 4)).toNat = 4 + frame.length
  drop_eq : stream.drop 6 = bytes32 (swap32 interfaceIndex) ++ frame ++ rest
  index_eq : swap32 (word32 (stream.drop 6) 0) = interfaceIndex

theorem startsWith_relayed {frame written message : Bytes} {ifaceIndex interfaceIndex : UInt32}
    (hw : realSendFrame frame ifaceIndex = some written) (hm : Relayed written message interfaceIndex)
    (rest : Bytes) : StartsWith (message ++ rest) frame rest interfaceIndex := by
  obtain ⟨hl, rfl⟩ := relayed_of_sent hw hm
  set sizeField := UInt16.ofNat (4 + frame.length) with hs
  set stream := bytes32 (swap32 rawFrameReceivedNotificationType) ++ bytes16 (swap16 sizeField) ++
    bytes32 (swap32 interfaceIndex) ++ frame ++ rest with hstream
  have hdrop : stream.drop 6 = bytes32 (swap32 interfaceIndex) ++ frame ++ rest := by
    rw [hstream]
    simp only [List.append_assoc]
    rfl
  refine ⟨?_, ?_, ?_, hdrop, ?_⟩
  · rw [hstream]
    simp only [List.length_append, length_bytes32, length_bytes16]
    omega
  · have hj : word32 stream 0 = swap32 rawFrameReceivedNotificationType := join32_bytes _
    rw [hj, swap32_swap32]
  · have hj : word16 stream 4 = swap16 sizeField := join16_bytes _
    rw [hj, swap16_swap16, hs, UInt16.toNat_ofNat']
    exact Nat.mod_eq_of_lt (by omega)
  · have hj : word32 (stream.drop 6) 0 = swap32 interfaceIndex := by
      rw [hdrop]
      exact join32_bytes _
    rw [hj, swap32_swap32]

/-- The size field is compared with the buffer before the frame is read. -/
theorem StartsWith.pass {stream frame rest : Bytes} {interfaceIndex : UInt32} {countOfInterfaces : Int}
    (h : StartsWith stream frame rest interfaceIndex) (h₀ : 0 ≤ interfaceIndex.toInt32.toInt)
    (h₁ : interfaceIndex.toInt32.toInt < countOfInterfaces) :
    simulationEventPass countOfInterfaces stream =
      if 4 + frame.length ≤ frameBufferSize then .frame frame interfaceIndex.toInt32.toInt rest
      else .abort (some 28) := by
  have hlen : (bytes32 (swap32 interfaceIndex) ++ frame).length = 4 + frame.length := by
    rw [List.length_append, length_bytes32]
  have hlong : ¬ stream.length < 6 := Nat.not_lt.mpr h.length_le
  have hne : ¬ rawFrameReceivedNotificationType = invalidInterfaceIndexType := by decide
  unfold simulationEventPass
  simp only [if_neg hlong, h.type_eq, h.size_eq, h.index_eq, if_neg hne]
  by_cases hfit : 4 + frame.length ≤ frameBufferSize
  · have hc : ¬ (rawFrameReceivedNotificationType ≠ rawFrameReceivedNotificationType ∨
        4 + frame.length < 4 ∨ frameBufferSize < 4 + frame.length) := by
      rintro (hne | hlt | hlt)
      · exact hne rfl
      · omega
      · omega
    have hroom : ¬ (stream.drop 6).length < 4 + frame.length := by
      rw [h.drop_eq, List.length_append, hlen]
      omega
    have hvalid : ¬ (interfaceIndex.toInt32.toInt < 0 ∨ countOfInterfaces ≤ interfaceIndex.toInt32.toInt) := by
      omega
    have hframe : ((stream.drop 6).take (4 + frame.length)).drop 4 = frame := by
      rw [h.drop_eq, List.take_left' hlen]
      exact List.drop_left' (length_bytes32 _)
    have hrest : (stream.drop 6).drop (4 + frame.length) = rest := by
      rw [h.drop_eq]
      exact List.drop_left' hlen
    rw [if_neg hc, if_neg hroom, if_neg hvalid, hframe, hrest, if_pos hfit]
  · have hc : rawFrameReceivedNotificationType ≠ rawFrameReceivedNotificationType ∨
        4 + frame.length < 4 ∨ frameBufferSize < 4 + frame.length := Or.inr (Or.inr (by omega))
    rw [if_pos hc, if_neg hfit]

theorem simulationEventLoop_relayed {frame written message : Bytes} {ifaceIndex interfaceIndex : UInt32}
    {countOfInterfaces : Int} (hw : realSendFrame frame ifaceIndex = some written)
    (hm : Relayed written message interfaceIndex) (h₀ : 0 ≤ interfaceIndex.toInt32.toInt)
    (h₁ : interfaceIndex.toInt32.toInt < countOfInterfaces) (rest : Bytes) :
    simulationEventLoop countOfInterfaces (message ++ rest) =
      if 4 + frame.length ≤ frameBufferSize then
        ((frame, interfaceIndex.toInt32.toInt) :: (simulationEventLoop countOfInterfaces rest).1,
          (simulationEventLoop countOfInterfaces rest).2)
      else ([], some 28) := by
  have hp := (startsWith_relayed hw hm rest).pass h₀ h₁
  rw [simulationEventLoop]
  by_cases hfit : 4 + frame.length ≤ frameBufferSize
  · rw [if_pos hfit] at hp ⊢
    split <;> rename_i he <;> rw [hp] at he <;> cases he
    rfl
  · rw [if_neg hfit] at hp ⊢
    split <;> rename_i he <;> rw [hp] at he <;> cases he
    rfl

namespace Machine

variable {m m' : Machine} {out : List Sent}

def reachable (m : Machine) : Nat :=
  (List.range m.table.configured).countP fun i => (m.table.serverInfoes i).rttTime ≠ 65535

theorem reachable_le (m : Machine) : m.reachable ≤ m.table.configured := by
  simpa [reachable] using List.countP_le_length (p := fun i => (m.table.serverInfoes i).rttTime ≠ 65535)
    (l := List.range m.table.configured)

theorem length_advertisement (h : m.step .advertise = some (m', out)) :
    ∃ sent, out = [sent] ∧ sent.frame.length = 46 + 12 * m.reachable := by
  obtain ⟨data, hd, _, rfl⟩ := step_advertise h
  obtain ⟨_, rfl⟩ := ServerTable.advertiseData_cases hd
  have hl : (m.table.advertised m.table.configured).length = m.reachable := by
    rw [ServerTable.advertised, ← List.countP_eq_length_filter, List.countP_map]
    rfl
  refine ⟨_, rfl, ?_⟩
  simp only [advertisePacket, List.length_append, Eth.length_bytes, Ip.length_bytes, Udp.length_bytes,
    length_flatMap_encode, length_bytes32, hl]
  omega

/-- The sender's own bound is never reached: even a thousand rows fit into it. -/
theorem realSendFrame_advertisement (h : m.step .advertise = some (m', out))
    (hn : m.table.numberOfServers ≤ maxServerNumbers) : ∃ sent written, out = [sent] ∧
      sent.frame.length = 46 + 12 * m.reachable ∧
      realSendFrame sent.frame (UInt32.ofNat sent.iface) = some written := by
  obtain ⟨sent, rfl, hl⟩ := length_advertisement h
  have hle := m.reachable_le
  rw [ServerTable.configured] at hle
  have hmax : maxServerNumbers = 1000 := rfl
  have hw : ¬ (sent.frame.length < 14 ∨ 65536 - 4 ≤ sent.frame.length) := by omega
  exact ⟨sent, _, rfl, hl, if_neg hw⟩

/-- A peer gets the advertisement if and only if at most 122 configured servers answer;
one more, and the frame ends the event loop of every peer. -/
theorem advertisement_received_iff (h : m.step .advertise = some (m', out))
    (hn : m.table.numberOfServers ≤ maxServerNumbers) : ∃ sent written, out = [sent] ∧
      realSendFrame sent.frame (UInt32.ofNat sent.iface) = some written ∧
      (4 + sent.frame.length ≤ frameBufferSize ↔ m.reachable ≤ 122) ∧
      ∀ (message rest : Bytes) (interfaceIndex : UInt32) (countOfInterfaces : Int),
        Relayed written message interfaceIndex → 0 ≤ interfaceIndex.toInt32.toInt →
        interfaceIndex.toInt32.toInt < countOfInterfaces →
        (simulationEventLoop countOfInterfaces (message ++ rest) =
            ((sent.frame, interfaceIndex.toInt32.toInt) :: (simulationEventLoop countOfInterfaces rest).1,
              (simulationEventLoop countOfInterfaces rest).2) ↔ m.reachable ≤ 122) ∧
          (¬ m.reachable ≤ 122 → simulationEventLoop countOfInterfaces (message ++ rest) = ([], some 28)) := by
  obtain ⟨sent, written, rfl, hl, hw⟩ := realSendFrame_advertisement h hn
  have hfit : 4 + sent.frame.length ≤ frameBufferSize ↔ m.reachable ≤ 122 := by
    rw [hl, frameBufferSize]
    omega
  refine ⟨sent, written, rfl, hw, hfit, fun message rest interfaceIndex count hm h₀ h₁ => ?_⟩
  have hloop := simulationEventLoop_relayed hw hm h₀ h₁ rest
  by_cases hr : m.reachable ≤ 122
  · rw [hloop, if_pos (hfit.mpr hr)]
    exact ⟨⟨fun _ => hr, fun _ => rfl⟩, fun hn => absurd hr hn⟩
  · rw [hloop, if_neg fun hf => hr (hfit.mp hf)]
    refine ⟨⟨fun he => ?_, fun hr' => absurd hr' hr⟩, fun _ => rfl⟩
    cases (Prod.mk.inj he).1

theorem advertisement_received_of_sample : ∃ m₀ h m m' sent written,
    initializeMachine sampleIface sampleInfo = some m₀ ∧ Run step m₀ h m ∧
    m.step .advertise = some (m', [sent]) ∧ m.reachable = 1 ∧
    realSendFrame sent.frame (UInt32.ofNat sent.iface) = some written ∧
    ∀ message, Relayed written message 0 →
      simulationEventLoop 2 (message ++ []) =
        ((sent.frame, 0) :: (simulationEventLoop 2 []).1, (simulationEventLoop 2 []).2) := by
  obtain ⟨m₀, h, m, hi, hr, hm, hs, hle⟩ := reaches sampleIface sampleInfo
    [.ping fun _ => 0, sampleEcho 0x08080808 0 0] (fun m _ => m.reachable = 1 ∧
      (m.step .advertise).isSome = true ∧ m.table.numberOfServers ≤ maxServerNumbers) (by decide +kernel)
  obtain ⟨⟨m', out⟩, hs⟩ := Option.isSome_iff_exists.mp hs
  obtain ⟨sent, written, rfl, hw, _, hrecv⟩ := advertisement_received_iff hs hle
  exact ⟨m₀, h, m, m', sent, written, hi, hr, hs, hm, hw, fun message hr =>
    (hrecv message [] 0 2 hr (by decide) (by decide)).1.mpr (by omega)⟩

/-- All of 123 configured servers answer one request; the advertisement that follows ends
the event loop of a peer. -/
theorem advertisement_ends_peer : ∃ m₀ h m m' sent written message,
    initializeMachine sampleIface (ascii "10.0.0.1 02:00:00:00:00:03 123 8.8.8.8") = some m₀ ∧
    Run step m₀ h m ∧ m.step .advertise = some (m', [sent]) ∧
    realSendFrame sent.frame (UInt32.ofNat sent.iface) = some written ∧ Relayed written message 0 ∧
    ¬ 4 + sent.frame.length ≤ frameBufferSize ∧ simulationEventLoop 2 (message ++ []) = ([], some 28) := by
  obtain ⟨m₀, h, m, hi, hr, hm, hs, hle⟩ := reaches sampleIface
    (ascii "10.0.0.1 02:00:00:00:00:03 123 8.8.8.8") [.ping fun _ => 0, sampleEcho 0x08080808 0 0]
    (fun m _ => m.reachable = 123 ∧ 0 ≤ m.table.numberOfServers ∧
      m.table.numberOfServers ≤ maxServerNumbers) (by decide +kernel)
  have hs : m.step .advertise = some _ :=
    congrArg (Option.bind · _) (ServerTable.advertiseData_eq hs)
  obtain ⟨sent, written, hout, hl, hw⟩ := realSendFrame_advertisement hs hle
  have hlong : ¬ 4 + sent.frame.length ≤ frameBufferSize := by
    rw [hl, hm, frameBufferSize]
    omega
  have hloop : simulationEventLoop 2 (_ ++ []) = _ :=
    simulationEventLoop_relayed hw rfl (by decide : (0 : Int) ≤ (0 : UInt32).toInt32.toInt) (by decide) []
  rw [if_neg hlong] at hloop
  rw [hout] at hs
  exact ⟨m₀, h, m, _, sent, written, _, hi, hr, hs, hw, rfl, hlong, hloop⟩

end Machine

end Overlay
