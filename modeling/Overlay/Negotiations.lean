import Overlay.Dialogues
import Overlay.Requests

/-! The negotiations with the server, from signing in to the start of the simulation: what is
asked, which replies are accepted, and what the node knows about itself in the end. -/

namespace Overlay

open ByteMemory Windows Dialogues

abbrev Memory := Nat → UInt8

/-- Why a negotiation returns `false`, or ends the program. The message is printed behind
`[Failed]`, and behind `[Done]` for resources that are released; `outside` reads in front of
the buffer. -/
inductive Stop
  | exit
  | failed (message : String)
  | released (message : String)
  | outside
  deriving DecidableEq

def initialNegotiationsFailed (reason : String) (errorCode : Nat) : Stop :=
  .failed ("+++ Initial negotiations failed" ++ reason ++ ". [error code " ++ toString errorCode ++ "]")

/-- A part of a negotiation works on the buffer, which starts at address 0. -/
def Negotiation (α : Type) : Type := Memory → Dialogue UInt8 (Except Stop α × Memory)

namespace Negotiation

variable {α β : Type}

def andThen (x : Negotiation α) (f : α → Negotiation β) : Negotiation β := fun memory =>
  (x memory).bind fun r => match r.1 with
    | .ok a => f a r.2
    | .error stop => .done (.error stop, r.2)

instance : Monad Negotiation where
  pure a := fun memory => .done (.ok a, memory)
  bind := andThen

def stop (s : Stop) : Negotiation α := fun memory => .done (.error s, memory)

def send (errorCode : Nat) (request : Memory → Outcome × Writer) : Negotiation Unit := fun memory =>
  match request memory with
  | (.exit, _) => .done (.error .exit, memory)
  | (.refused message, w) => .done (.error (.failed message), w.memory)
  | (.sent bytes, w) => .send bytes fun
    | true => .done (.ok (), w.memory)
    | false => .done (.error (initialNegotiationsFailed "" errorCode), w.memory)

def receive (errorCode size : Nat) : Negotiation Unit := fun memory =>
  .receive size fun
    | some data => .done (.ok (), overwrite memory 0 data)
    | none => .done (.error (initialNegotiationsFailed "" errorCode), memory)

def read (f : Memory → α) : Negotiation α := fun memory => .done (.ok (f memory), memory)

end Negotiation

open Negotiation

/-- A request of one number, written to the start of the buffer. -/
def command (value : UInt32) (memory : Memory) : Outcome × Writer :=
  let w : Writer := { memory := memory, buf := 0, writes := [] }
  let w := (w.storeAt w.buf (bytes32 (swap32 value))).advance 4
  (.sent (window w.memory 0 4), w)

def field16 (place : Nat) (memory : Memory) : UInt16 := swap16 (word16 (window memory place 2) 0)

def field32 (place : Nat) (memory : Memory) : UInt32 := swap32 (word32 (window memory place 4) 0)

/-- A reply of two numbers; the verdict is none if it is the one hoped for. -/
def reply (errorCode : Nat) (verdict : UInt32 → UInt32 → Option Stop) : Negotiation Unit := do
  receive errorCode 8
  let c1 ← read (field32 0)
  let c2 ← read (field32 4)
  match verdict c1 c2 with
  | none => pure ()
  | some s => Negotiation.stop s

def signingInVerdict (c1 c2 : UInt32) : Option Stop :=
  if c1 ≠ 0 ∨ c2 ≠ 1 then some (.failed "+++ Username or password is incorrect. [error code 42]") else none

def mapSelectingVerdict (c1 c2 : UInt32) : Option Stop :=
  if c1 ≠ 1 then some (initialNegotiationsFailed "" 4)
  else if c2 = 0 then some (initialNegotiationsFailed " (map not exists)" 5)
  else if c2 = 1 then
    some (initialNegotiationsFailed " (maximum allowable map instances are already allocated)" 6)
  else if c2 = 2 then none
  else if c2 = 6 then some (.released "+++ Whole of the resources of the map instance are released.")
  else if c2 = 5 then some (initialNegotiationsFailed " (out of resource; retry later)" 7)
  else some (initialNegotiationsFailed "" 8)

def nodeSelectingVerdict (c1 c2 : UInt32) : Option Stop :=
  if c1 ≠ 1 then some (initialNegotiationsFailed "" 11)
  else if c2 = 3 then some (initialNegotiationsFailed " (node not exists)" 12)
  else if c2 = 4 then none
  else some (initialNegotiationsFailed "" 13)

section Negotiations

variable (client : Client)

def doSigningInNegotiations : Negotiation Unit := do
  send 40 (signingInRequest client)
  reply 41 signingInVerdict

def doMapSelectingNegotiations : Negotiation Unit := do
  send 2 (mapSelectingRequest client)
  reply 3 mapSelectingVerdict

def doNodeSelectingNegotiations : Negotiation Unit := do
  send 9 (nodeSelectingRequest client)
  reply 10 nodeSelectingVerdict

def doInitialRecoveryNegotiations : Negotiation Unit := do
  doSigningInNegotiations client
  doMapSelectingNegotiations client
  doNodeSelectingNegotiations client

end Negotiations

/-! What the node is told about itself. -/

structure InterfaceInformation where
  mac : Mac
  ip : UInt32
  mask : UInt32
  deriving DecidableEq

structure Information where
  interfaces : List InterfaceInformation
  customInfo : Str

/-- `strcmp` with a text in the buffer. -/
def holdsText (text : Str) (memory : Memory) : Bool := window memory 0 (text.length + 1) = text ++ [0]

def ethernetInterfaceName : Str := ascii "edu::sharif::partov::nse::map::interface::EthernetInterface"

def ethernetPhysicalInterfaceName : Str :=
  ascii "edu::sharif::partov::nse::map::interface::EthernetPhysicalInterface"

/-- The fields stand at the end of what was received; the MAC address is the first six bytes
of eight. -/
def readInterfaceInformation : Negotiation InterfaceInformation := do
  receive 17 2
  let size := (← read (field16 0)).toNat
  if frameBufferSize < size then stop (initialNegotiationsFailed "" 18)
  else
    receive 19 size
    let known ← read fun memory =>
      holdsText ethernetInterfaceName memory || holdsText ethernetPhysicalInterfaceName memory
    if ¬ known then stop (initialNegotiationsFailed " (unknown interface type)" 19)
    else if size < 16 then stop .outside
    else read fun memory =>
      { mac := readMac (window memory (size - 16) 6) 0, ip := field32 (size - 8) memory, mask := field32 (size - 4) memory }

def readInterfacesInformation : Nat → Negotiation (List InterfaceInformation)
  | 0 => pure []
  | count + 1 => do
    let first ← readInterfaceInformation
    let others ← readInterfacesInformation count
    pure (first :: others)

def doInterfacesInformationSynchronizationNegotiations : Negotiation (List InterfaceInformation) := do
  send 14 (command 0)
  receive 15 12
  let c1 ← read (field32 0)
  let c2 ← read (field32 4)
  let count := (← read (field32 8)).toInt32.toInt
  if c1 ≠ 2 ∨ c2 ≠ 1 ∨ count < 1 then stop (initialNegotiationsFailed "" 16)
  else readInterfacesInformation count.toNat

/-- The text goes up to the first zero in the buffer. -/
def bufferText (memory : Memory) : Str := (window memory 0 frameBufferSize).takeWhile (· ≠ 0)

def doCustomInformationSynchronizationNegotiations : Negotiation Str := do
  send 20 (command 1)
  receive 21 10
  let c1 ← read (field32 0)
  let c2 ← read (field32 4)
  let size := (← read (field16 8)).toNat
  if c1 ≠ 2 ∨ c2 ≠ 2 ∨ size < 1 then stop (initialNegotiationsFailed "" 22)
  else
    receive 23 size
    read bufferText

def doInformationSynchronizationNegotiations : Negotiation Information := do
  let interfaces ← doInterfacesInformationSynchronizationNegotiations
  let customInfo ← doCustomInformationSynchronizationNegotiations
  pure { interfaces, customInfo }

def doInitialNegotiations (client : Client) : Negotiation Information := do
  doSigningInNegotiations client
  doMapSelectingNegotiations client
  doNodeSelectingNegotiations client
  doInformationSynchronizationNegotiations

/-- The last request; the simulation starts or goes on if the server says so. -/
def startingRequest (refusal : String) : Negotiation Unit := do
  send 24 (command 2)
  receive 25 4
  let c ← read (field32 0)
  if c ≠ 3 then stop (.failed refusal) else pure ()

def startSimulation : Negotiation Unit := startingRequest "+++ Starting simulation does not verified by server."

def announceSimulationResume : Negotiation Unit :=
  startingRequest "+++ Resuming simulation does not verified by server."

/-- `runCF` on a connection, up to the simulation. -/
def untilSimulation (client : Client) : Negotiation Information := do
  let information ← doInitialNegotiations client
  startSimulation
  pure information

/-- A section of `recoverSimulation` on a connection. -/
def resumeSimulation (client : Client) : Negotiation Unit := do
  doInitialRecoveryNegotiations client
  announceSimulationResume

namespace Negotiation

variable {α β : Type}

/-- What a negotiation gets over a stream of the server, what it sends, and what it leaves. -/
def Gets (x : Negotiation α) (memory : Memory) (stream : Bytes) (a : α) (memory' : Memory) (sent rest : Bytes) : Prop :=
  (x memory).talk stream = some ⟨(.ok a, memory'), sent, rest⟩

variable {x : Negotiation α} {f : α → Negotiation β} {memory memory' memory'' : Memory} {stream sent sent' rest rest' : Bytes}
  {a : α} {b : β}

theorem Gets.bind (hx : Gets x memory stream a memory' sent rest) (hf : Gets (f a) memory' rest b memory'' sent' rest') :
    Gets (x >>= f) memory stream b memory'' (sent ++ sent') rest' := by
  have h : ((x >>= f) memory).talk stream = _ := Dialogue.talk_bind _
  rw [Gets, h, hx, Option.bind_some]
  simp only [Gets] at hf
  simp only [hf, Option.map_some, Dialogue.Talked.after]

theorem Gets.bind_inv (h : Gets (x >>= f) memory stream b memory'' sent rest) : ∃ a memory' sent₁ sent₂ rest₁,
    Gets x memory stream a memory' sent₁ rest₁ ∧ Gets (f a) memory' rest₁ b memory'' sent₂ rest ∧
      sent = sent₁ ++ sent₂ := by
  have he : ((x >>= f) memory).talk stream = _ := Dialogue.talk_bind _
  rw [Gets, he] at h
  obtain ⟨⟨⟨r, memory'⟩, sent₁, rest₁⟩, hx, h⟩ := Option.bind_eq_some_iff.mp h
  obtain ⟨⟨r', sent₂, rest₂⟩, hf, h⟩ := Option.map_eq_some_iff.mp h
  simp only [Dialogue.Talked.after, Dialogue.Talked.mk.injEq] at h
  obtain ⟨rfl, rfl, rfl⟩ := h
  cases r with
  | ok a => exact ⟨a, memory', sent₁, sent₂, rest₁, hx, hf, rfl⟩
  | error s => cases hf

theorem gets_bind_read_iff (g : Memory → α) : Gets (read g >>= f) memory stream b memory' sent rest ↔
    Gets (f (g memory)) memory stream b memory' sent rest := by
  have h : ((read g >>= f) memory).talk stream = (f (g memory) memory).talk stream := rfl
  rw [Gets, Gets, h]

theorem gets_receive {errorCode : Nat} {data : Bytes} :
    Gets (receive errorCode data.length) memory (data ++ rest) () (overwrite memory 0 data) [] rest := by
  simp [Gets, receive, Dialogue.talk]

theorem gets_bind_receive_iff {errorCode size : Nat} {f : Unit → Negotiation β} :
    Gets (receive errorCode size >>= f) memory stream b memory' sent rest ↔ ∃ data rest', data.length = size ∧
      stream = data ++ rest' ∧ Gets (f ()) (overwrite memory 0 data) rest' b memory' sent rest := by
  constructor
  · intro h
    by_cases hshort : stream.length < size
    · have hnone : ((receive errorCode size >>= f) memory).talk stream = none := if_pos hshort
      cases hnone.symm.trans h
    · have htake : (stream.take size).length = size := List.length_take_of_le (by omega)
      have hrun : ((receive errorCode size >>= f) memory).talk stream =
          (f () (overwrite memory 0 (stream.take size))).talk (stream.drop size) := if_neg hshort
      exact ⟨stream.take size, stream.drop size, htake, (List.take_append_drop ..).symm, hrun.symm.trans h⟩
  · rintro ⟨data, rest', rfl, rfl, h⟩
    exact gets_receive.bind h

theorem gets_bind_send_iff {errorCode : Nat} {request : Memory → Outcome × Writer} {bytes : Bytes}
    {f : Unit → Negotiation β} (h : (request memory).1 = .sent bytes) :
    Gets (send errorCode request >>= f) memory stream b memory' sent rest ↔
      ∃ sent', sent = bytes ++ sent' ∧ Gets (f ()) (request memory).2.memory stream b memory' sent' rest := by
  have he : request memory = (.sent bytes, (request memory).2) := Prod.ext h rfl
  have hrun : ((send errorCode request >>= f) memory).talk stream =
      ((f () (request memory).2.memory).talk stream).map (.after bytes) := by
    show (Negotiation.andThen (send errorCode request) f memory).talk stream = _
    rw [andThen, send, he]
    rfl
  rw [Gets, hrun, Option.map_eq_some_iff]
  constructor
  · rintro ⟨⟨r, sent', rest'⟩, ht, he⟩
    simp only [Dialogue.Talked.after, Dialogue.Talked.mk.injEq] at he
    obtain ⟨rfl, rfl, rfl⟩ := he
    exact ⟨sent', rfl, ht⟩
  · rintro ⟨sent', rfl, ht⟩
    exact ⟨_, ht, rfl⟩

theorem gets_pure_iff {a' : α} : Gets (pure a) memory stream a' memory' sent rest ↔
    a' = a ∧ memory' = memory ∧ sent = [] ∧ rest = stream := by
  have h : ((pure a : Negotiation α) memory).talk stream = some ⟨(.ok a, memory), [], stream⟩ := rfl
  rw [Gets, h]
  simp only [Option.some.injEq, Dialogue.Talked.mk.injEq, Prod.mk.injEq, Except.ok.injEq, eq_comm, and_assoc]

theorem gets_read_iff (g : Memory → α) : Gets (read g) memory stream a memory' sent rest ↔
    a = g memory ∧ memory' = memory ∧ sent = [] ∧ rest = stream := gets_pure_iff

theorem not_gets_stop {s : Stop} : ¬ Gets (stop s) memory stream a memory' sent rest := by
  simp [Gets, stop, Dialogue.talk]

end Negotiation

theorem field32_overwrite {memory : Memory} {data : Bytes} {place : Nat} (h : place + 4 ≤ data.length) :
    field32 place (overwrite memory 0 data) = swap32 (word32 data place) := by
  have hw := @window_overwrite_inside _ memory 0 place 4 data h
  rw [Nat.zero_add] at hw
  rw [field32, hw, word32_take (by decide), word32_drop, Nat.add_zero]

theorem field16_overwrite {memory : Memory} {data : Bytes} {place : Nat} (h : place + 2 ≤ data.length) :
    field16 place (overwrite memory 0 data) = swap16 (word16 data place) := by
  have hw := @window_overwrite_inside _ memory 0 place 2 data h
  rw [Nat.zero_add] at hw
  rw [field16, hw, word16_take (by decide), word16_drop, Nat.add_zero]

/-- Numbers as the server sends them. -/
def numbers (l : List UInt32) : Bytes := l.flatMap fun value => bytes32 (swap32 value)

theorem word32_numbers (c : UInt32) (l : List UInt32) : word32 (numbers (c :: l)) 0 = swap32 c := join32_bytes _

theorem word32_numbers_succ (c : UInt32) (l : List UInt32) (k : Nat) :
    word32 (numbers (c :: l)) (4 + k) = word32 (numbers l) k := word32_append_right (bytes32 (swap32 c)) _ k

theorem length_numbers (l : List UInt32) : (numbers l).length = 4 * l.length := by
  induction l with
  | nil => rfl
  | cons c l ih =>
    rw [numbers, List.flatMap_cons, List.length_append, ← numbers, ih, length_bytes32, List.length_cons]
    omega

theorem word32_numbers_append {l : List UInt32} (behind : Bytes) {k : Nat} (hk : k < l.length) :
    word32 (numbers l ++ behind) (4 * k) = swap32 l[k] := by
  induction l generalizing k with
  | nil => exact absurd hk (Nat.not_lt_zero k)
  | cons c l ih =>
    cases k with
    | zero => exact join32_bytes _
    | succ k =>
      have hmul : 4 * (k + 1) = (bytes32 (swap32 c)).length + 4 * k := by
        rw [length_bytes32]
        omega
      have hcons : numbers (c :: l) ++ behind = bytes32 (swap32 c) ++ (numbers l ++ behind) := by simp [numbers]
      rw [hcons, hmul, word32_append_right]
      exact ih (Nat.lt_of_succ_lt_succ hk)

theorem field32_numbers {memory : Memory} {l : List UInt32} (behind : Bytes) {k : Nat} (hk : k < l.length) :
    field32 (4 * k) (overwrite memory 0 (numbers l ++ behind)) = l[k] := by
  rw [field32_overwrite (by rw [List.length_append, length_numbers]; omega), word32_numbers_append behind hk, swap32_swap32]

theorem bytes_eq_numbers {data : Bytes} (h : data.length = 8) :
    data = numbers [swap32 (word32 data 0), swap32 (word32 data 4)] := by
  match data with
  | [b₀, b₁, b₂, b₃, b₄, b₅, b₆, b₇] => simp [numbers, word32, word8]

theorem gets_reply_iff {errorCode : Nat} {verdict : UInt32 → UInt32 → Option Stop} {c1 c2 : UInt32}
    {memory memory' : Memory} {stream sent rest : Bytes} (hv : ∀ x y, verdict x y = none ↔ x = c1 ∧ y = c2) :
    Gets (reply errorCode verdict) memory stream () memory' sent rest ↔
      stream = numbers [c1, c2] ++ rest ∧ memory' = overwrite memory 0 (numbers [c1, c2]) ∧ sent = [] := by
  have hfields (data : Bytes) (hlen : data.length = 8) : field32 0 (overwrite memory 0 data) = swap32 (word32 data 0) ∧
      field32 4 (overwrite memory 0 data) = swap32 (word32 data 4) :=
    ⟨field32_overwrite (by omega), field32_overwrite (by omega)⟩
  simp only [reply, gets_bind_receive_iff, gets_bind_read_iff]
  constructor
  · rintro ⟨data, rest', hlen, rfl, h⟩
    rw [(hfields data hlen).1, (hfields data hlen).2] at h
    cases hverdict : verdict (swap32 (word32 data 0)) (swap32 (word32 data 4)) with
    | none =>
      rw [hverdict] at h
      obtain ⟨-, rfl, rfl, rfl⟩ := gets_pure_iff.mp h
      obtain ⟨h0, h4⟩ := (hv _ _).mp hverdict
      have hdata := bytes_eq_numbers hlen
      rw [h0, h4] at hdata
      rw [hdata]
      exact ⟨rfl, rfl, rfl⟩
    | some s =>
      rw [hverdict] at h
      exact absurd h not_gets_stop
  · rintro ⟨rfl, rfl, rfl⟩
    refine ⟨numbers [c1, c2], rest, length_numbers _, rfl, ?_⟩
    have hverdict : verdict c1 c2 = none := (hv _ _).mpr ⟨rfl, rfl⟩
    rw [(hfields _ (length_numbers _)).1, (hfields _ (length_numbers _)).2, word32_numbers,
      word32_numbers_succ c1 [c2] 0, word32_numbers, swap32_swap32, swap32_swap32, hverdict]
    exact gets_pure_iff.mpr ⟨rfl, rfl, rfl, rfl⟩

end Overlay
