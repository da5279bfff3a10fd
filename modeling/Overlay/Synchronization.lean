import Overlay.Addresses
import Overlay.Framing
import Overlay.Windows

/-! What the server may send while information is synchronised and in the event loop, and
which places of the buffer it makes the node use. A size announced by the server is checked
on each path in a way of its own. -/

namespace Overlay

open ByteMemory Windows

/-- A receive into the buffer, or a field read at a place within the bytes just received. -/
inductive Access
  | receive (size : Nat)
  | field (start : Int) (length received : Nat)

def Access.Inside : Access → Prop
  | .receive size => size ≤ frameBufferSize
  | .field start length received => 0 ≤ start ∧ start + length ≤ received

instance : (access : Access) → Decidable access.Inside
  | .receive size => inferInstanceAs (Decidable (size ≤ frameBufferSize))
  | .field start length received => inferInstanceAs (Decidable (0 ≤ start ∧ start + length ≤ received))

/-- What the client waits for; with the number of the interface. -/
inductive Phase
  | interfaces
  | interface (index : Nat)
  | custom
  | starting
  | events
  | ended

/-- The buffer starts at address 0; what is written behind it has no further effect here. -/
structure Session where
  phase : Phase
  memory : Nat → UInt8
  stream : Bytes
  countOfInterfaces : Int

structure Step where
  accesses : List Access
  session : Session

def Step.Inside (step : Step) : Prop := ∀ access ∈ step.accesses, access.Inside

instance (step : Step) : Decidable step.Inside := inferInstanceAs (Decidable (∀ access ∈ step.accesses, _))

def Step.after (accesses : List Access) (step : Step) : Step :=
  { step with accesses := accesses ++ step.accesses }

namespace Session

variable (s : Session)

def go (phase : Phase) : Step := { accesses := [], session := { s with phase := phase } }

/-- A command is written to the start of the buffer and sent. -/
def request (command : UInt32) : Session := { s with memory := overwrite s.memory 0 (bytes32 (swap32 command)) }

def received (size : Nat) : Session :=
  { s with memory := overwrite s.memory 0 (s.stream.take size), stream := s.stream.drop size }

def receive (size : Nat) (andThen : Session → Step) : Step :=
  .after [.receive size] <| if s.stream.length < size then s.go .ended else andThen (s.received size)

/-- The buffer holds the text and its terminating zero. -/
def HoldsText (text : Str) : Prop := window s.memory 0 (text.length + 1) = text ++ [0]

instance (text : Str) : Decidable (s.HoldsText text) := inferInstanceAs (Decidable (_ = _))

def Known : Prop := s.HoldsText (ascii "edu::sharif::partov::nse::map::interface::EthernetInterface") ∨
  s.HoldsText (ascii "edu::sharif::partov::nse::map::interface::EthernetPhysicalInterface")

instance : Decidable s.Known := inferInstanceAs (Decidable (_ ∨ _))

def uint16 (place : Nat) : Nat := (swap16 (word16 (window s.memory place 2) 0)).toNat

def uint32 (place : Nat) : UInt32 := swap32 (word32 (window s.memory place 4) 0)

def doInterfacesInformationSynchronizationNegotiations : Step :=
  (s.request 0).receive 12 fun s =>
    let count := (s.uint32 8).toInt32.toInt
    .after [.field 0 4 12, .field 4 4 12, .field 8 4 12] <|
      if s.uint32 0 ≠ 2 ∨ s.uint32 4 ≠ 1 ∨ count < 1 then s.go .ended
      else { s with countOfInterfaces := count }.go (.interface 0)

/-- The address, the mask and the MAC address stand at the end of what was received. -/
def readInterfaceInformation (index : Nat) : Step :=
  s.receive 2 fun s =>
    let size := s.uint16 0
    .after [.field 0 2 2] <|
      if frameBufferSize < size then s.go .ended
      else s.receive size fun s =>
        if ¬ s.Known then s.go .ended
        else (s.go (if (index + 1 : Nat) < s.countOfInterfaces then .interface (index + 1) else .custom)).after
          [.field (size - 16) 8 size, .field (size - 8) 4 size, .field (size - 4) 4 size]

def doCustomInformationSynchronizationNegotiations : Step :=
  (s.request 1).receive 10 fun s =>
    let size := s.uint16 8
    .after [.field 0 4 10, .field 4 4 10, .field 8 2 10] <|
      if s.uint32 0 ≠ 2 ∨ s.uint32 4 ≠ 2 ∨ size < 1 then s.go .ended
      else s.receive size fun s => s.go .starting

def startSimulation : Step :=
  (s.request 2).receive 4 fun s =>
    .after [.field 0 4 4] <| if s.uint32 0 ≠ 3 then s.go .ended else s.go .events

/-- One round of `simulationEventLoop`; the frame stands behind the index of its interface. -/
def simulationEvent : Step :=
  s.receive 6 fun s =>
    let c := s.uint32 0
    let size := s.uint16 4
    .after [.field 0 4 6, .field 4 2 6] <|
      if c = invalidInterfaceIndexType then
        if size < 1 then s.go .ended else s.receive size fun s => s.go .events
      else if c ≠ rawFrameReceivedNotificationType ∨ size < 4 ∨ frameBufferSize < size then s.go .ended
      else s.receive size fun s =>
        let interfaceIndex := (s.uint32 0).toInt32.toInt
        .after [.field 0 4 size] <|
          if interfaceIndex < 0 ∨ s.countOfInterfaces ≤ interfaceIndex then s.go .ended
          else (s.go .events).after [.field 4 (size - 4) size]

def step : Step :=
  match s.phase with
  | .interfaces => s.doInterfacesInformationSynchronizationNegotiations
  | .interface index => s.readInterfaceInformation index
  | .custom => s.doCustomInformationSynchronizationNegotiations
  | .starting => s.startSimulation
  | .events => s.simulationEvent
  | .ended => { accesses := [], session := s }

/-- The session after some steps, and all accesses so far. -/
def run : Nat → Step
  | 0 => { accesses := [], session := s }
  | n + 1 => ((run n).session.step).after (run n).accesses

/-! The sizes that each path has to be sent. -/

/-- What the server announces next fits: at most the buffer's size of information or of a
warning, and at least the fields of an interface behind the name of its type. -/
def Fits : Prop :=
  match s.phase with
  | .interface _ => 2 ≤ s.stream.length → (swap16 (word16 s.stream 0)).toNat ≤ frameBufferSize →
      2 + (swap16 (word16 s.stream 0)).toNat ≤ s.stream.length →
      ((s.received 2).received (swap16 (word16 s.stream 0)).toNat).Known → 16 ≤ (swap16 (word16 s.stream 0)).toNat
  | .custom => 10 ≤ s.stream.length → swap32 (word32 s.stream 0) = 2 → swap32 (word32 s.stream 4) = 2 →
      (swap16 (word16 s.stream 8)).toNat ≤ frameBufferSize
  | .events => 6 ≤ s.stream.length → swap32 (word32 s.stream 0) = invalidInterfaceIndexType →
      (swap16 (word16 s.stream 4)).toNat ≤ frameBufferSize
  | _ => True

variable {s} {size : Nat}

theorem inside_after {accesses : List Access} {step : Step} :
    (step.after accesses).Inside ↔ (∀ access ∈ accesses, access.Inside) ∧ step.Inside :=
  List.forall_mem_append

@[simp] theorem inside_go (phase : Phase) : (s.go phase).Inside := fun _ h => nomatch h

theorem inside_receive {andThen : Session → Step} : (s.receive size andThen).Inside ↔
    size ≤ frameBufferSize ∧ (size ≤ s.stream.length → (andThen (s.received size)).Inside) := by
  rw [receive, inside_after, List.forall_mem_singleton]
  by_cases hshort : s.stream.length < size
  · simp [hshort, Nat.not_le.mpr hshort, Access.Inside]
  · simp [hshort, Nat.not_lt.mp hshort, Access.Inside]

theorem uint16_received {place : Nat} (hs : size ≤ s.stream.length) (hp : place + 2 ≤ size) :
    (s.received size).uint16 place = (swap16 (word16 s.stream place)).toNat := by
  rw [uint16, received, window_overwrite_take hs hp, word16_take (by decide), word16_drop, Nat.add_zero, word16_take hp]

theorem uint32_received {place : Nat} (hs : size ≤ s.stream.length) (hp : place + 4 ≤ size) :
    (s.received size).uint32 place = swap32 (word32 s.stream place) := by
  rw [uint32, received, window_overwrite_take hs hp, word32_take (by decide), word32_drop, Nat.add_zero, word32_take hp]

theorem inside_interfaces : s.doInterfacesInformationSynchronizationNegotiations.Inside := by
  rw [doInterfacesInformationSynchronizationNegotiations, inside_receive]
  refine ⟨by decide, fun _ => inside_after.mpr ⟨by decide, ?_⟩⟩
  split_ifs <;> simp

theorem inside_interface (index : Nat) : (s.readInterfaceInformation index).Inside ↔
    (2 ≤ s.stream.length → (swap16 (word16 s.stream 0)).toNat ≤ frameBufferSize →
      2 + (swap16 (word16 s.stream 0)).toNat ≤ s.stream.length →
      ((s.received 2).received (swap16 (word16 s.stream 0)).toNat).Known →
      16 ≤ (swap16 (word16 s.stream 0)).toNat) := by
  rw [readInterfaceInformation, inside_receive, and_iff_right (by decide)]
  refine forall_congr' fun hheader => ?_
  have hlength : (s.received 2).stream.length = s.stream.length - 2 := List.length_drop
  rw [inside_after, and_iff_right (by decide), uint16_received hheader (by decide)]
  generalize (swap16 (word16 s.stream 0)).toNat = size
  by_cases hbig : frameBufferSize < size
  · simp [hbig, Nat.not_le.mpr hbig]
  · have hle : size ≤ frameBufferSize := Nat.not_lt.mp hbig
    have hroom : size ≤ s.stream.length - 2 ↔ 2 + size ≤ s.stream.length := by omega
    simp only [hbig, if_false, inside_receive, hle, true_and, hlength, hroom, true_imp_iff]
    refine forall_congr' fun _ => ?_
    by_cases hknown : ((s.received 2).received size).Known
    · simp only [hknown, not_true_eq_false, if_false, inside_after, inside_go, and_true, true_imp_iff,
        List.forall_mem_cons, Access.Inside, List.not_mem_nil, false_imp_iff, implies_true]
      omega
    · simp [hknown]

theorem inside_custom : s.doCustomInformationSynchronizationNegotiations.Inside ↔
    (10 ≤ s.stream.length → swap32 (word32 s.stream 0) = 2 → swap32 (word32 s.stream 4) = 2 →
      (swap16 (word16 s.stream 8)).toNat ≤ frameBufferSize) := by
  rw [doCustomInformationSynchronizationNegotiations, inside_receive, and_iff_right (by decide)]
  refine forall_congr' fun hheader => ?_
  rw [inside_after, and_iff_right (by decide), uint32_received hheader (by decide),
    uint32_received hheader (by decide), uint16_received hheader (by decide)]
  have hstream : (s.request 1).stream = s.stream := rfl
  simp only [hstream]
  generalize swap32 (word32 s.stream 0) = c1
  generalize swap32 (word32 s.stream 4) = c2
  generalize (swap16 (word16 s.stream 8)).toNat = size
  by_cases hrefused : c1 ≠ 2 ∨ c2 ≠ 2 ∨ size < 1
  · simp only [hrefused, if_true, inside_go, true_iff]
    intro h1 h2
    have hsmall : size < 1 := (hrefused.resolve_left (not_not_intro h1)).resolve_left (not_not_intro h2)
    exact hsmall.le.trans (by decide)
  · simp only [hrefused, if_false, inside_receive, inside_go, implies_true, and_true]
    simp only [not_or, not_not] at hrefused
    simp only [hrefused.1, hrefused.2.1, true_imp_iff]

theorem inside_starting : s.startSimulation.Inside := by
  rw [startSimulation, inside_receive]
  refine ⟨by decide, fun _ => inside_after.mpr ⟨by decide, ?_⟩⟩
  split_ifs <;> simp

theorem inside_event : s.simulationEvent.Inside ↔
    (6 ≤ s.stream.length → swap32 (word32 s.stream 0) = invalidInterfaceIndexType →
      (swap16 (word16 s.stream 4)).toNat ≤ frameBufferSize) := by
  rw [simulationEvent, inside_receive, and_iff_right (by decide)]
  refine forall_congr' fun hheader => ?_
  rw [inside_after, and_iff_right (by decide), uint32_received hheader (by decide),
    uint16_received hheader (by decide)]
  generalize swap32 (word32 s.stream 0) = c
  generalize (swap16 (word16 s.stream 4)).toNat = size
  by_cases hwarning : c = invalidInterfaceIndexType
  · simp only [hwarning, if_true, true_imp_iff]
    by_cases hsmall : size < 1
    · simp only [hsmall, if_true, inside_go, true_iff]
      exact hsmall.le.trans (by decide)
    · simp only [hsmall, if_false, inside_receive, inside_go, implies_true, and_true]
  · simp only [hwarning, if_false, false_imp_iff, iff_true]
    by_cases hrefused : c ≠ rawFrameReceivedNotificationType ∨ size < 4 ∨ frameBufferSize < size
    · simp only [hrefused, if_true, inside_go]
    · simp only [hrefused, if_false, inside_receive]
      simp only [not_or, Nat.not_lt] at hrefused
      refine ⟨hrefused.2.2, fun _ => inside_after.mpr ⟨?_, ?_⟩⟩
      · simp only [List.forall_mem_singleton, Access.Inside]
        omega
      · split_ifs
        · exact inside_go _
        · refine inside_after.mpr ⟨?_, inside_go _⟩
          simp only [List.forall_mem_singleton, Access.Inside]
          omega

theorem inside_step_iff (s : Session) : s.step.Inside ↔ s.Fits := by
  cases hp : s.phase with
  | interfaces => simp [step, Fits, hp, inside_interfaces]
  | interface index => simp [step, Fits, hp, inside_interface]
  | custom => simp [step, Fits, hp, inside_custom]
  | starting => simp [step, Fits, hp, inside_starting]
  | events => simp [step, Fits, hp, inside_event]
  | ended => simp [step, Fits, hp, Step.Inside]

theorem inside_run_iff (s : Session) (n : Nat) : (s.run n).Inside ↔ ∀ k < n, (s.run k).session.Fits := by
  induction n with
  | zero => simp [run, Step.Inside]
  | succ n ih =>
    have hsplit : (s.run (n + 1)).Inside ↔ (s.run n).Inside ∧ (s.run n).session.step.Inside := inside_after
    rw [hsplit, ih, inside_step_iff, Nat.forall_lt_succ_right]

def start (memory : Nat → UInt8) (stream : Bytes) : Session :=
  { phase := .interfaces, memory := memory, stream := stream, countOfInterfaces := 0 }

/-- In a run over any stream, from any contents of the buffer, all accesses stay inside if and
only if everything that the server announces fits. -/
theorem server_data_inside_iff (memory : Nat → UInt8) (stream : Bytes) (n : Nat) :
    ((start memory stream).run n).Inside ↔ ∀ k < n, ((start memory stream).run k).session.Fits :=
  inside_run_iff _ n

def announceInterfaces (count : UInt32) : Bytes := bytes32 (swap32 2) ++ bytes32 (swap32 1) ++ bytes32 (swap32 count)

def ethernetInterface : Bytes :=
  let name := ascii "edu::sharif::partov::nse::map::interface::EthernetInterface" ++ [0]
  bytes16 (swap16 (UInt16.ofNat (name.length + 16))) ++ name ++ List.replicate 16 0

def announceCustom (size : UInt16) : Bytes := bytes32 (swap32 2) ++ bytes32 (swap32 2) ++ bytes16 (swap16 size)

/-- Custom information of 1525 bytes is received over the end of the buffer. A second
interface of two bytes is completed by the name left of the first one, and its fields are
read in front of the buffer. -/
theorem server_data_outside :
    ¬ ((start (fun _ => 0) (announceInterfaces 1 ++ ethernetInterface ++ announceCustom 1525)).run 3).Inside ∧
    ¬ ((start (fun _ => 0) (announceInterfaces 2 ++ ethernetInterface ++ (bytes16 (swap16 2) ++ ascii "ed"))).run
      3).Inside := by
  decide +kernel

end Session

end Overlay
