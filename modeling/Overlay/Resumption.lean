import Overlay.Negotiations

/-! Which replies bring a client to its node, and what it says on the way there. -/

namespace Overlay

open ByteMemory Windows Dialogues Negotiation

/-! What the client says. -/

def announce (body : Bytes) : Bytes := bytes16 (swap16 (UInt16.ofNat body.length)) ++ body

namespace Client

variable (client : Client)

def signingIn : Bytes := announce (announce (client.userName.text ++ [0]) ++ announce (client.password.text ++ [0]))

def mapSelecting : Bytes := announce (announce (client.mapName.text ++ [0]) ++ announce (client.creatorId.text ++ [0]) ++
  bytes32 (swap32 client.needNewMap.toUInt32))

def nodeSelecting : Bytes := announce (client.nodeName.text ++ [0])

/-- All requests of a client whose map is chosen. -/
def requests : Bytes := client.signingIn ++ client.chooseCreator.mapSelecting ++ client.nodeSelecting

/-- The requests are made, and fit into the buffer. -/
structure Fits : Prop where
  userName_le : client.userName.text.length ≤ 20
  password_le : client.password.text.length ≤ 50
  mapName_le : client.chooseCreator.mapName.text.length + client.chooseCreator.creatorId.text.length ≤ 1512
  nodeName_ne : client.nodeName.text ≠ []
  nodeName_le : client.nodeName.text.length ≤ 1521

end Client

theorem eq_announce {body announced : Bytes} (h : Announces body announced) : announced = announce body := by
  obtain ⟨size, hsize, rfl⟩ := h
  rw [announce, ← hsize, UInt16.ofNat_toNat]

section Sent

variable {client : Client} (h : client.Fits) (memory : Memory)

include h

theorem signingIn_sent : (signingInRequest client memory).1 = .sent client.signingIn := by
  have hfit : ¬ (20 < client.userName.text.length ∨ 50 < client.password.text.length) := by
    have huser := h.userName_le
    have hpass := h.password_le
    omega
  obtain ⟨request, hsent⟩ : ∃ request, (signingInRequest client memory).1 = .sent request := by
    simp only [signingInRequest, hfit, if_false]
    exact ⟨_, rfl⟩
  obtain ⟨user, pass, huser, hpass, hrequest⟩ := (signingIn_wellWritten client memory).announced request hsent
  rw [hsent, eq_announce hrequest, eq_announce huser, eq_announce hpass]
  rfl

theorem mapSelecting_sent : (mapSelectingRequest client memory).1 = .sent client.chooseCreator.mapSelecting := by
  have hle := h.mapName_le
  have hwell := (mapSelecting_wellWritten_iff client memory).mpr (by omega)
  have hfit : ¬ frameBufferSize < 3 * 2 + client.chooseCreator.mapName.text.length +
      client.chooseCreator.creatorId.text.length + 4 := by
    rw [frameBufferSize]
    omega
  obtain ⟨request, hsent⟩ : ∃ request, (mapSelectingRequest client memory).1 = .sent request := by
    simp only [mapSelectingRequest, hfit, if_false]
    exact ⟨_, rfl⟩
  obtain ⟨map, creator, hmap, hcreator, hrequest⟩ := hwell.announced request hsent
  rw [hsent, eq_announce hrequest, eq_announce hmap, eq_announce hcreator]
  rfl

theorem nodeSelecting_sent : (nodeSelectingRequest client memory).1 = .sent client.nodeSelecting := by
  have hle := h.nodeName_le
  have hwell := (nodeSelecting_wellWritten_iff client memory).mpr (by omega)
  have hms : (UInt32.ofNat (client.nodeName.text.length + 1)).toNat = client.nodeName.text.length + 1 := by
    rw [UInt32.toNat_ofNat']
    omega
  have hfit : ¬ client.nodeName.text.length + 1 > frameBufferSize - 2 := by
    rw [frameBufferSize]
    omega
  obtain ⟨request, hsent⟩ : ∃ request, (nodeSelectingRequest client memory).1 = .sent request := by
    simp only [nodeSelectingRequest, h.nodeName_ne, if_false, hms, hfit]
    exact ⟨_, rfl⟩
  rw [hsent, eq_announce (hwell.announced request hsent)]
  rfl

end Sent

/-! Which replies are accepted. -/

theorem signingInVerdict_iff (c1 c2 : UInt32) : signingInVerdict c1 c2 = none ↔ c1 = 0 ∧ c2 = 1 := by
  simp [signingInVerdict]

theorem mapSelectingVerdict_iff (c1 c2 : UInt32) : mapSelectingVerdict c1 c2 = none ↔ c1 = 1 ∧ c2 = 2 := by
  unfold mapSelectingVerdict
  split_ifs with h1 h0 h1' h2 h6 h5 <;> simp_all

theorem nodeSelectingVerdict_iff (c1 c2 : UInt32) : nodeSelectingVerdict c1 c2 = none ↔ c1 = 1 ∧ c2 = 4 := by
  unfold nodeSelectingVerdict
  split_ifs with h1 h3 h4 <;> simp_all

theorem gets_exchange_iff {errorCode errorCode' : Nat} {request : Memory → Outcome × Writer}
    {verdict : UInt32 → UInt32 → Option Stop} {c1 c2 : UInt32} {bytes : Bytes} {memory memory' : Memory}
    {stream sent rest : Bytes} (hr : (request memory).1 = .sent bytes)
    (hv : ∀ x y, verdict x y = none ↔ x = c1 ∧ y = c2) :
    Gets (do send errorCode request; reply errorCode' verdict) memory stream () memory' sent rest ↔
      stream = numbers [c1, c2] ++ rest ∧ sent = bytes ∧
        memory' = overwrite (request memory).2.memory 0 (numbers [c1, c2]) := by
  rw [gets_bind_send_iff hr]
  constructor
  · rintro ⟨sent', rfl, h⟩
    obtain ⟨hstream, hmemory, rfl⟩ := (gets_reply_iff hv).mp h
    exact ⟨hstream, List.append_nil _, hmemory⟩
  · rintro ⟨hstream, rfl, hmemory⟩
    exact ⟨[], (List.append_nil _).symm, (gets_reply_iff hv).mpr ⟨hstream, hmemory, rfl⟩⟩

/-- The replies that let a client reach its node. -/
def accepted : Bytes := numbers [0, 1] ++ numbers [1, 2] ++ numbers [1, 4]

theorem initialRecoveryNegotiations_iff {client : Client} (h : client.Fits) (memory : Memory) (stream sent rest : Bytes) :
    (∃ memory', Gets (doInitialRecoveryNegotiations client) memory stream () memory' sent rest) ↔
      stream = accepted ++ rest ∧ sent = client.requests := by
  constructor
  · rintro ⟨memory', hgets⟩
    obtain ⟨_, m₁, s₁, t₁, r₁, hsign, hgets, rfl⟩ := hgets.bind_inv
    obtain ⟨rfl, rfl, rfl⟩ := (gets_exchange_iff (signingIn_sent h memory) signingInVerdict_iff).mp hsign
    obtain ⟨_, m₂, s₂, t₂, r₂, hmap, hnode, rfl⟩ := hgets.bind_inv
    obtain ⟨rfl, rfl, rfl⟩ := (gets_exchange_iff (mapSelecting_sent h _) mapSelectingVerdict_iff).mp hmap
    obtain ⟨rfl, rfl, rfl⟩ := (gets_exchange_iff (nodeSelecting_sent h _) nodeSelectingVerdict_iff).mp hnode
    exact ⟨by simp only [accepted, List.append_assoc], by simp only [Client.requests, List.append_assoc]⟩
  · rintro ⟨rfl, rfl⟩
    rw [accepted, Client.requests, List.append_assoc, List.append_assoc, List.append_assoc]
    refine ⟨_, Gets.bind ((gets_exchange_iff (signingIn_sent h memory) signingInVerdict_iff).mpr ⟨rfl, rfl, rfl⟩)
      (Gets.bind ((gets_exchange_iff (mapSelecting_sent h _) mapSelectingVerdict_iff).mpr ⟨rfl, rfl, rfl⟩)
        ((gets_exchange_iff (nodeSelecting_sent h _) nodeSelectingVerdict_iff).mpr ⟨rfl, rfl, rfl⟩))⟩

theorem command_sent (value : UInt32) (memory : Memory) : (command value memory).1 = .sent (numbers [value]) := by
  have hw : window (overwrite memory 0 (bytes32 (swap32 value))) 0 4 = bytes32 (swap32 value) := window_overwrite 0 _
  simp only [command, Writer.storeAt, Writer.advance, hw]
  simp [numbers]

theorem gets_starting_iff {refusal : String} {memory memory' : Memory} {stream sent rest : Bytes} :
    Gets (startingRequest refusal) memory stream () memory' sent rest ↔ stream = numbers [3] ++ rest ∧
      sent = numbers [2] ∧ memory' = overwrite (command 2 memory).2.memory 0 (numbers [3]) := by
  have hfield (m : Memory) (data : Bytes) (hlen : data.length = 4) :
      data = numbers [field32 0 (overwrite m 0 data)] := by
    rw [field32_overwrite (by omega)]
    match data with
    | [b₀, b₁, b₂, b₃] => simp [numbers, word32, word8]
  rw [startingRequest, gets_bind_send_iff (command_sent 2 memory)]
  simp only [gets_bind_receive_iff, gets_bind_read_iff]
  constructor
  · rintro ⟨sent', rfl, data, rest', hlen, rfl, h⟩
    have hdata := hfield (command 2 memory).2.memory data hlen
    by_cases hc : field32 0 (overwrite (command 2 memory).2.memory 0 data) ≠ 3
    · rw [if_pos hc] at h
      exact absurd h not_gets_stop
    · rw [if_neg hc] at h
      obtain ⟨-, rfl, rfl, rfl⟩ := gets_pure_iff.mp h
      rw [not_not.mp hc] at hdata
      rw [← hdata]
      exact ⟨rfl, List.append_nil _, rfl⟩
  · rintro ⟨rfl, rfl, rfl⟩
    have hc : field32 0 (overwrite (command 2 memory).2.memory 0 (numbers [3])) = 3 := by
      rw [field32_overwrite (by simp [length_numbers]), word32_numbers, swap32_swap32]
    refine ⟨[], (List.append_nil _).symm, numbers [3], rest, length_numbers _, rfl, ?_⟩
    rw [if_neg (not_not.mpr hc)]
    exact gets_pure_iff.mpr ⟨rfl, rfl, rfl, rfl⟩

/-- All that a client says to resume the simulation. -/
def resumePrologue (client : Client) : Bytes := client.requests ++ numbers [2]

/-- The simulation is resumed if and only if the server says so four times. -/
theorem resumeSimulation_iff {client : Client} (h : client.Fits) (memory : Memory) (stream sent rest : Bytes) :
    (∃ memory', Gets (resumeSimulation client) memory stream () memory' sent rest) ↔
      stream = accepted ++ (numbers [3] ++ rest) ∧ sent = resumePrologue client := by
  constructor
  · rintro ⟨memory', hgets⟩
    obtain ⟨_, m, s₁, s₂, r, hfirst, hstart, rfl⟩ := hgets.bind_inv
    obtain ⟨rfl, rfl⟩ := (initialRecoveryNegotiations_iff h memory _ _ _).mp ⟨m, hfirst⟩
    obtain ⟨rfl, rfl, -⟩ := gets_starting_iff.mp hstart
    exact ⟨rfl, rfl⟩
  · rintro ⟨rfl, rfl⟩
    obtain ⟨m, hfirst⟩ := (initialRecoveryNegotiations_iff h memory _ _ (numbers [3] ++ rest)).mpr ⟨rfl, rfl⟩
    exact ⟨_, hfirst.bind (gets_starting_iff.mpr ⟨rfl, rfl, rfl⟩)⟩

namespace Negotiation

variable {α β : Type}

/-- Whatever the calls return, what is sent is the start of a message, and all of it when the
negotiation succeeds. -/
def Says (x : Negotiation α) (message : Bytes) : Prop := ∀ memory, (x memory).Says (fun r => r.1.isOk = true) message

theorem Says.bind {x : Negotiation α} {f : α → Negotiation β} {message more : Bytes} (hx : x.Says message)
    (hf : ∀ a, (f a).Says more) : (x >>= f).Says (message ++ more) := by
  intro memory
  refine (hx memory).bind ?_ ?_
  · rintro ⟨r, m⟩ hok
    cases r with
    | ok a => exact hf a m
    | error s => cases hok
  · rintro ⟨r, m⟩ hno
    cases r with
    | ok a => exact absurd rfl hno
    | error s => exact hno

theorem speaks_send {errorCode : Nat} {request : Memory → Outcome × Writer} {message : Bytes}
    (h : ∀ memory, (request memory).1 = .sent message) : (send errorCode request).Says message := by
  intro memory
  have he : request memory = (.sent message, (request memory).2) := Prod.ext (h memory) rfl
  rw [send, he]
  refine ⟨⟨[], (List.append_nil _).symm, fun _ => rfl⟩, fun hok => ?_⟩
  cases hok

theorem speaks_receive (errorCode size : Nat) : (receive errorCode size).Says [] := by
  intro memory data
  cases data with
  | none => exact fun _ => rfl
  | some data => exact fun _ => rfl

theorem speaks_read (g : Memory → α) : (read g).Says [] := fun _ _ => rfl

theorem speaks_pure (a : α) : (pure a : Negotiation α).Says [] := fun _ _ => rfl

theorem speaks_stop (s : Stop) : (stop s : Negotiation α).Says [] := fun _ _ => rfl

end Negotiation

theorem speaks_reply (errorCode : Nat) (verdict : UInt32 → UInt32 → Option Stop) : (reply errorCode verdict).Says [] := by
  refine (speaks_receive errorCode 8).bind fun _ => (speaks_read _).bind fun c1 => (speaks_read _).bind fun c2 => ?_
  cases verdict c1 c2 with
  | none => exact speaks_pure ()
  | some s => exact speaks_stop s

theorem resumeSimulation_speaks {client : Client} (h : client.Fits) :
    (resumeSimulation client).Says (resumePrologue client) := by
  have hstart : announceSimulationResume.Says (numbers [2] ++ ([] ++ ([] ++ []))) := by
    refine (speaks_send (command_sent 2)).bind fun _ => (speaks_receive 25 4).bind fun _ => (speaks_read _).bind fun c => ?_
    split_ifs
    · exact speaks_stop _
    · exact speaks_pure ()
  have hsign : (doSigningInNegotiations client).Says (client.signingIn ++ []) :=
    (speaks_send (signingIn_sent h)).bind fun _ => speaks_reply 41 signingInVerdict
  have hmap : (doMapSelectingNegotiations client).Says (client.chooseCreator.mapSelecting ++ []) :=
    (speaks_send (mapSelecting_sent h)).bind fun _ => speaks_reply 3 mapSelectingVerdict
  have hnode : (doNodeSelectingNegotiations client).Says (client.nodeSelecting ++ []) :=
    (speaks_send (nodeSelecting_sent h)).bind fun _ => speaks_reply 10 nodeSelectingVerdict
  have hall : (resumeSimulation client).Says (_ ++ _) := (hsign.bind fun _ => hmap.bind fun _ => hnode).bind fun _ => hstart
  simpa only [resumePrologue, Client.requests, List.append_nil, List.append_assoc] using hall

/-- Whatever the calls return, and in whatever pieces the replies arrive: what is sent is the
start of the same requests, and the simulation is resumed if and only if the server replied
to each of them as it should. -/
theorem resumed_iff_replies {client : Client} (h : client.Fits) {memory memory' : Memory}
    {answers : List (Answer UInt8)} {r : Except Stop Unit} {sent : Bytes}
    (hc : (resumeSimulation client memory).Calls answers (.done (r, memory')) sent) :
    sent <+: resumePrologue client ∧ (r.isOk = true → sent = resumePrologue client) ∧
      ((∀ a ∈ answers, a.succeeds = true) →
        (r.isOk = true ↔ answers.flatMap Answer.incoming = accepted ++ numbers [3])) := by
  obtain ⟨rest, hmessage, hdone⟩ := (resumeSimulation_speaks h memory).calls hc
  refine ⟨⟨rest, hmessage.symm⟩, fun hok => ?_, fun ha => ?_⟩
  · rw [hmessage, hdone hok, List.append_nil]
  · have htalk := hc.talk_done ha
    constructor
    · intro hok
      cases r with
      | ok u =>
        obtain ⟨hstream, -⟩ := (resumeSimulation_iff h memory _ sent []).mp ⟨memory', htalk⟩
        rw [hstream, List.append_nil]
      | error stop => cases hok
    · intro hstream
      rw [← List.append_nil (numbers [3])] at hstream
      obtain ⟨m, hgets⟩ := (resumeSimulation_iff h memory _ _ []).mpr ⟨hstream, rfl⟩
      have he := Option.some.inj (htalk.symm.trans hgets)
      rw [(Prod.mk.inj (Dialogue.Talked.mk.inj he).1).1]
      rfl

def sampleClient : Client :=
  { userName := letters 1, password := letters 1, mapName := letters 1, creatorId := letters 1, nodeName := letters 1,
    needNewMap := 0 }

theorem sampleClient_fits : sampleClient.Fits := by
  constructor <;> decide

/-- The replies to signing in and to the choice of the map arrive together with parts of others. -/
def sampleAnswers : List (Answer UInt8) :=
  [.took 10, .arrived ((numbers [0, 1]).take 5), .arrived ((numbers [0, 1]).drop 5), .took 3, .took 11,
    .arrived (numbers [1, 2]), .took 4, .arrived (numbers [1, 4]), .took 4, .arrived (numbers [3])]

theorem resumed_iff_replies_in_pieces : ∃ r memory' sent,
    (resumeSimulation sampleClient fun _ => 0).Calls sampleAnswers (.done (r, memory')) sent ∧ r.isOk = true ∧
      sent = resumePrologue sampleClient := by
  have hok : ((resumeSimulation sampleClient fun _ => 0).finish sampleAnswers).map (fun q => q.1.1.isOk) = some true := by
    decide +kernel
  obtain ⟨⟨⟨r, memory'⟩, sent⟩, hfinish, hok⟩ := Option.map_eq_some_iff.mp hok
  have hcalls := Dialogue.calls_of_finish hfinish
  exact ⟨r, memory', sent, hcalls, hok, (resumed_iff_replies sampleClient_fits hcalls).2.1 hok⟩

end Overlay
