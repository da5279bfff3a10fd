import Overlay.Resumption

/-! What the server tells a node about itself, and that the node knows just this when its
simulation starts. -/

namespace Overlay

open ByteMemory Windows Dialogues Negotiation

/-- An interface as it is announced: the type with its zero, anything, and at the end the MAC
address in eight bytes, the address and the mask. -/
structure AnnouncedInterface where
  physical : Bool
  between : Bytes
  information : InterfaceInformation
  behindMac : UInt16

namespace AnnouncedInterface

variable (i : AnnouncedInterface)

def front : Bytes := (if i.physical then ethernetPhysicalInterfaceName else ethernetInterfaceName) ++ [0] ++ i.between

def back : Bytes := i.information.mac.bytes ++ bytes16 i.behindMac ++ numbers [i.information.ip, i.information.mask]

def body : Bytes := i.front ++ i.back

theorem length_back : i.back.length = 16 := by
  simp [back, length_numbers]

end AnnouncedInterface

theorem holdsText_overwrite {memory : Memory} {text behind : Bytes} :
    holdsText text (overwrite memory 0 (text ++ [0] ++ behind)) = true := by
  have hw := @window_overwrite_inside _ memory 0 0 (text.length + 1) (text ++ [0] ++ behind)
    (by simp only [List.length_append, List.length_singleton]; omega)
  rw [Nat.add_zero, List.drop_zero, List.take_left' (by simp)] at hw
  rw [holdsText, hw]
  exact decide_eq_true rfl

theorem field16_announced {memory : Memory} {n : Nat} (h : n ≤ frameBufferSize) :
    (field16 0 (overwrite memory 0 (bytes16 (swap16 (UInt16.ofNat n))))).toNat = n := by
  have hj : word16 (bytes16 (swap16 (UInt16.ofNat n))) 0 = swap16 (UInt16.ofNat n) := join16_bytes _
  rw [frameBufferSize] at h
  rw [field16_overwrite (by simp), hj, swap16_swap16, UInt16.toNat_ofNat']
  exact Nat.mod_eq_of_lt (by omega)

/-- The bytes at a place so far in front of the end. -/
theorem window_back {memory : Memory} {content front middle behind : Bytes} {place count : Nat}
    (h : content = front ++ (middle ++ behind)) (hc : count = middle.length)
    (hp : place + count + behind.length = content.length) :
    window (overwrite memory 0 content) place count = middle := by
  subst h hc
  have hplace : place = front.length := by
    rw [List.length_append, List.length_append] at hp
    omega
  subst hplace
  have hw := @window_overwrite_inside _ memory 0 front.length middle.length (front ++ (middle ++ behind))
    (by simp only [List.length_append]; omega)
  rwa [Nat.zero_add, List.drop_left, List.take_left] at hw

theorem field32_back {memory : Memory} {content front behind : Bytes} {value : UInt32} {place : Nat}
    (h : content = front ++ (bytes32 (swap32 value) ++ behind)) (hp : place + 4 + behind.length = content.length) :
    field32 place (overwrite memory 0 content) = value := by
  have hj : word32 (bytes32 (swap32 value)) 0 = swap32 value := join32_bytes _
  rw [field32, window_back h (length_bytes32 _).symm hp, hj, swap32_swap32]

theorem gets_interface {i : AnnouncedInterface} (hi : i.body.length ≤ frameBufferSize) (memory : Memory) (rest : Bytes) :
    ∃ memory', Gets readInterfaceInformation memory (announce i.body ++ rest) i.information memory' [] rest := by
  have hbody : i.body = i.front ++ i.back := rfl
  have hlen : i.body.length = i.front.length + 16 := by
    rw [hbody, List.length_append, i.length_back]
  set m₁ := overwrite memory 0 (bytes16 (swap16 (UInt16.ofNat i.body.length))) with hm₁
  set m₂ := overwrite m₁ 0 i.body with hm₂
  refine ⟨m₂, ?_⟩
  rw [readInterfaceInformation, gets_bind_receive_iff]
  refine ⟨_, i.body ++ rest, length_bytes16 _, by rw [announce, List.append_assoc], ?_⟩
  rw [gets_bind_read_iff, field16_announced hi, if_neg (Nat.not_lt.mpr hi), gets_bind_receive_iff]
  refine ⟨i.body, rest, rfl, rfl, ?_⟩
  have hknown : (holdsText ethernetInterfaceName m₂ || holdsText ethernetPhysicalInterfaceName m₂) = true := by
    cases hp : i.physical with
    | true =>
      have hname : i.body = ethernetPhysicalInterfaceName ++ [0] ++ (i.between ++ i.back) := by
        rw [hbody, AnnouncedInterface.front, hp, List.append_assoc _ i.between]
        rfl
      rw [hm₂, hname, holdsText_overwrite, Bool.or_true]
    | false =>
      have hname : i.body = ethernetInterfaceName ++ [0] ++ (i.between ++ i.back) := by
        rw [hbody, AnnouncedInterface.front, hp, List.append_assoc _ i.between]
        rfl
      rw [hm₂, hname, holdsText_overwrite, Bool.true_or]
  have hmac : window m₂ (i.body.length - 16) 6 = i.information.mac.bytes := by
    have hb : i.body = i.front ++ (i.information.mac.bytes ++
        (bytes16 i.behindMac ++ numbers [i.information.ip, i.information.mask])) := by
      simp only [hbody, AnnouncedInterface.back, List.append_assoc]
    exact window_back hb rfl (by simp [length_numbers]; omega)
  have hip : field32 (i.body.length - 8) m₂ = i.information.ip := by
    have hb : i.body = i.front ++ i.information.mac.bytes ++ bytes16 i.behindMac ++
        (bytes32 (swap32 i.information.ip) ++ bytes32 (swap32 i.information.mask)) := by
      simp [hbody, AnnouncedInterface.back, numbers]
    exact field32_back hb (by rw [length_bytes32]; omega)
  have hmask : field32 (i.body.length - 4) m₂ = i.information.mask := by
    have hb : i.body = i.front ++ i.information.mac.bytes ++ bytes16 i.behindMac ++ bytes32 (swap32 i.information.ip) ++
        (bytes32 (swap32 i.information.mask) ++ []) := by
      simp [hbody, AnnouncedInterface.back, numbers]
    exact field32_back hb (by rw [List.length_nil]; omega)
  rw [gets_bind_read_iff, hknown, if_neg (by simp), if_neg (by omega), gets_read_iff, hmac, hip, hmask]
  exact ⟨rfl, rfl, rfl, rfl⟩

theorem gets_interfaces {l : List AnnouncedInterface} (hl : ∀ i ∈ l, i.body.length ≤ frameBufferSize) (memory : Memory)
    (rest : Bytes) : ∃ memory', Gets (readInterfacesInformation l.length) memory
      (l.flatMap (fun i => announce i.body) ++ rest) (l.map (·.information)) memory' [] rest := by
  induction l generalizing memory with
  | nil => exact ⟨memory, rfl⟩
  | cons i l ih =>
    obtain ⟨m₁, hfirst⟩ := gets_interface (hl i List.mem_cons_self) memory (l.flatMap (fun i => announce i.body) ++ rest)
    obtain ⟨m₂, hothers⟩ := ih (fun j hj => hl j (List.mem_cons_of_mem i hj)) m₁
    refine ⟨m₂, ?_⟩
    rw [List.flatMap_cons, List.append_assoc]
    exact hfirst.bind (hothers.bind (gets_pure_iff.mpr ⟨rfl, rfl, rfl, rfl⟩))

/-- The custom information as it is announced: the text, its zero and anything. -/
structure AnnouncedText where
  text : CString
  behind : Bytes

def AnnouncedText.body (t : AnnouncedText) : Bytes := t.text.text ++ [0] ++ t.behind

/-- All that the server tells a node. -/
structure Announcement where
  interfaces : List AnnouncedInterface
  customInfo : AnnouncedText

namespace Announcement

variable (a : Announcement)

def information : Information := { interfaces := a.interfaces.map (·.information), customInfo := a.customInfo.text.text }

def interfacesBytes : Bytes :=
  numbers [2, 1, UInt32.ofNat a.interfaces.length] ++ a.interfaces.flatMap fun i => announce i.body

def customBytes : Bytes := numbers [2, 2] ++ announce a.customInfo.body

structure Fits : Prop where
  one_le : 1 ≤ a.interfaces.length
  count_lt : a.interfaces.length < 2 ^ 31
  interface_le : ∀ i ∈ a.interfaces, i.body.length ≤ frameBufferSize
  customInfo_le : a.customInfo.body.length ≤ frameBufferSize

end Announcement

theorem gets_interfacesInformation {a : Announcement} (ha : a.Fits) (memory : Memory) (rest : Bytes) :
    ∃ memory', Gets doInterfacesInformationSynchronizationNegotiations memory (a.interfacesBytes ++ rest)
      a.information.interfaces memory' (numbers [0]) rest := by
  have hcount : (UInt32.ofNat a.interfaces.length).toInt32.toInt = a.interfaces.length :=
    Int32.toInt_ofNat_of_lt ha.count_lt
  have hone := ha.one_le
  set header := numbers [2, 1, UInt32.ofNat a.interfaces.length] ++ []
  set m₁ := overwrite (command 0 memory).2.memory 0 header
  have h0 : field32 0 m₁ = 2 := @field32_numbers _ [2, 1, UInt32.ofNat a.interfaces.length] [] 0 (by simp)
  have h4 : field32 4 m₁ = 1 := @field32_numbers _ [2, 1, UInt32.ofNat a.interfaces.length] [] 1 (by simp)
  have h8 : field32 8 m₁ = UInt32.ofNat a.interfaces.length := @field32_numbers _ [2, 1, UInt32.ofNat a.interfaces.length] [] 2 (by simp)
  have hgood : ¬ ((2 : UInt32) ≠ 2 ∨ (1 : UInt32) ≠ 1 ∨ (a.interfaces.length : Int) < 1) := by
    simp only [ne_eq, not_true_eq_false, false_or]
    omega
  obtain ⟨m, hall⟩ := gets_interfaces ha.interface_le m₁ rest
  refine ⟨m, ?_⟩
  rw [doInterfacesInformationSynchronizationNegotiations, gets_bind_send_iff (command_sent 0 memory)]
  refine ⟨[], (List.append_nil _).symm, ?_⟩
  rw [gets_bind_receive_iff]
  refine ⟨header, a.interfaces.flatMap (fun i => announce i.body) ++ rest, by simp [header, length_numbers],
    by simp only [Announcement.interfacesBytes, header, List.append_nil, List.append_assoc], ?_⟩
  rw [gets_bind_read_iff, gets_bind_read_iff, gets_bind_read_iff, h0, h4, h8, hcount, if_neg hgood,
    Int.toNat_natCast]
  exact hall

theorem bufferText_overwrite {memory : Memory} {t : AnnouncedText} (h : t.body.length ≤ frameBufferSize) :
    bufferText (overwrite memory 0 t.body) = t.text.text := by
  have hw : window (overwrite memory 0 t.body) 0 t.body.length = t.body := window_overwrite 0 _
  obtain ⟨n, hn⟩ := Nat.exists_eq_add_of_le h
  have hnonzero : ∀ c ∈ t.text.text, decide (c ≠ 0) = true := fun c hc =>
    decide_eq_true fun h0 => t.text.no_zero (h0 ▸ hc)
  rw [bufferText, hn, window_add, hw, AnnouncedText.body, List.append_assoc, List.append_assoc,
    List.takeWhile_append_of_pos hnonzero]
  simp

theorem gets_customInformation {a : Announcement} (ha : a.Fits) (memory : Memory) (rest : Bytes) :
    ∃ memory', Gets doCustomInformationSynchronizationNegotiations memory (a.customBytes ++ rest)
      a.information.customInfo memory' (numbers [1]) rest := by
  set size := bytes16 (swap16 (UInt16.ofNat a.customInfo.body.length))
  set header := numbers [2, 2] ++ size
  set m₁ := overwrite (command 1 memory).2.memory 0 header
  have h0 : field32 0 m₁ = 2 := @field32_numbers _ [2, 2] size 0 (by simp)
  have h4 : field32 4 m₁ = 2 := @field32_numbers _ [2, 2] size 1 (by simp)
  have h8 : (field16 8 m₁).toNat = a.customInfo.body.length := by
    have hword : word16 header 8 = swap16 (UInt16.ofNat a.customInfo.body.length) :=
      (word16_append_right (numbers [2, 2]) size 0).trans (join16_bytes _)
    have hle := ha.customInfo_le
    rw [frameBufferSize] at hle
    rw [field16_overwrite (by simp [header, size, length_numbers]), hword, swap16_swap16, UInt16.toNat_ofNat']
    exact Nat.mod_eq_of_lt (by omega)
  have hgood : ¬ ((2 : UInt32) ≠ 2 ∨ (2 : UInt32) ≠ 2 ∨ a.customInfo.body.length < 1) := by
    simp only [ne_eq, not_true_eq_false, false_or, AnnouncedText.body, List.length_append, List.length_singleton]
    omega
  refine ⟨overwrite m₁ 0 a.customInfo.body, ?_⟩
  rw [doCustomInformationSynchronizationNegotiations, gets_bind_send_iff (command_sent 1 memory)]
  refine ⟨[], (List.append_nil _).symm, ?_⟩
  rw [gets_bind_receive_iff]
  refine ⟨header, a.customInfo.body ++ rest, by simp [header, size, length_numbers],
    by simp only [Announcement.customBytes, announce, header, size, List.append_assoc], ?_⟩
  rw [gets_bind_read_iff, gets_bind_read_iff, gets_bind_read_iff, h0, h4, h8, if_neg hgood,
    gets_bind_receive_iff]
  refine ⟨a.customInfo.body, rest, rfl, rfl, ?_⟩
  exact (gets_read_iff _).mpr ⟨(bufferText_overwrite ha.customInfo_le).symm, rfl, rfl, rfl⟩

/-- The negotiations up to the node, and what comes behind them on the same connection. -/
theorem Negotiation.Gets.onward {client : Client} {α : Type} {x : Negotiation α} {a : α} {memory memory' memory'' : Memory}
    {stream rest rest' sent sent' : Bytes}
    (hfirst : Gets (doInitialRecoveryNegotiations client) memory stream () memory' sent rest)
    (hx : Gets x memory' rest a memory'' sent' rest') :
    Gets (do doSigningInNegotiations client; doMapSelectingNegotiations client; doNodeSelectingNegotiations client; x)
      memory stream a memory'' (sent ++ sent') rest' := by
  obtain ⟨_, m₁, s₁, t₁, r₁, hsign, hothers, rfl⟩ := hfirst.bind_inv
  obtain ⟨_, m₂, s₂, t₂, r₂, hmap, hnode, rfl⟩ := hothers.bind_inv
  rw [List.append_assoc, List.append_assoc]
  exact hsign.bind (hmap.bind (hnode.bind hx))

/-- What the server tells is what the node knows, and nothing is read beyond it. -/
theorem initialNegotiations_read_back (client : Client) (hc : client.Fits) (a : Announcement) (ha : a.Fits)
    (memory : Memory) (rest : Bytes) : ∃ memory', Gets (doInitialNegotiations client) memory
      (accepted ++ (a.interfacesBytes ++ (a.customBytes ++ rest))) a.information memory'
      (client.requests ++ (numbers [0] ++ numbers [1])) rest := by
  obtain ⟨m₁, hfirst⟩ := (initialRecoveryNegotiations_iff hc memory _ _
    (a.interfacesBytes ++ (a.customBytes ++ rest))).mpr ⟨rfl, rfl⟩
  obtain ⟨m₂, hinterfaces⟩ := gets_interfacesInformation ha m₁ (a.customBytes ++ rest)
  obtain ⟨m₃, hcustom⟩ := gets_customInformation ha m₂ rest
  have hsync : Gets doInformationSynchronizationNegotiations m₁ (a.interfacesBytes ++ (a.customBytes ++ rest))
      a.information m₃ (numbers [0] ++ (numbers [1] ++ [])) rest :=
    hinterfaces.bind (hcustom.bind (gets_pure_iff.mpr ⟨rfl, rfl, rfl, rfl⟩))
  rw [List.append_nil] at hsync
  exact ⟨m₃, hfirst.onward hsync⟩

/-- What the server tells is what the node knows when the simulation starts, and nothing is
read beyond it. -/
theorem announcement_read_back (client : Client) (hc : client.Fits) (a : Announcement) (ha : a.Fits)
    (memory : Memory) (rest : Bytes) : ∃ memory', Gets (untilSimulation client) memory
      (accepted ++ (a.interfacesBytes ++ (a.customBytes ++ (numbers [3] ++ rest)))) a.information memory'
      (client.requests ++ (numbers [0] ++ numbers [1]) ++ numbers [2]) rest := by
  obtain ⟨m, hinitial⟩ := initialNegotiations_read_back client hc a ha memory (numbers [3] ++ rest)
  have hstart : Gets (do startSimulation; pure a.information) m (numbers [3] ++ rest) a.information _
      (numbers [2] ++ []) rest :=
    (gets_starting_iff.mpr ⟨rfl, rfl, rfl⟩).bind (gets_pure_iff.mpr ⟨rfl, rfl, rfl, rfl⟩)
  rw [List.append_nil] at hstart
  exact ⟨_, hinitial.bind hstart⟩

/-- In whatever pieces the announcement arrives. -/
theorem announcement_read_back_in_pieces {client : Client} (hc : client.Fits) {a : Announcement} (ha : a.Fits)
    {memory memory' : Memory} {answers : List (Answer UInt8)} {r : Except Stop Information} {sent : Bytes}
    (hcalls : (untilSimulation client memory).Calls answers (.done (r, memory')) sent)
    (hsucceed : ∀ a ∈ answers, a.succeeds = true) (harrived : answers.flatMap Answer.incoming =
      accepted ++ (a.interfacesBytes ++ (a.customBytes ++ numbers [3]))) :
    r = .ok a.information ∧ sent = client.requests ++ (numbers [0] ++ numbers [1]) ++ numbers [2] := by
  obtain ⟨m, hgets⟩ := announcement_read_back client hc a ha memory []
  have htalk := hcalls.talk_done hsucceed
  rw [List.append_nil, ← harrived] at hgets
  have he := Option.some.inj (htalk.symm.trans hgets)
  obtain ⟨hr, hsent, -⟩ := Dialogue.Talked.mk.inj he
  exact ⟨(Prod.mk.inj hr).1, hsent⟩

/-- Two interfaces and a gateway, as a node is told of them. -/
def sampleAnnouncement : Announcement where
  interfaces :=
    [{ physical := false, between := [], information := ⟨⟨2, 0, 0, 0, 0, 1⟩, 0xC0A80001, 0xFFFFFF00⟩, behindMac := 0 },
      { physical := true, between := [1], information := ⟨⟨2, 0, 0, 0, 0, 2⟩, 0x0A000002, 0xFF000000⟩, behindMac := 9 }]
  customInfo := { text := ⟨ascii "10.0.0.1", by decide⟩, behind := [] }

theorem sampleAnnouncement_fits : sampleAnnouncement.Fits := by
  constructor <;> decide +kernel

theorem announcement_read_back_of_sample : ∃ answers r memory' sent,
    (untilSimulation sampleClient fun _ => 0).Calls answers (.done (r, memory')) sent ∧
      r = .ok sampleAnnouncement.information := by
  let answers : List (Answer UInt8) :=
    [.took 10, .arrived (numbers [0, 1]), .took 14, .arrived (numbers [1, 2]), .took 4, .arrived (numbers [1, 4]),
      .took 4, .arrived (numbers [2, 1, 2])] ++
    sampleAnnouncement.interfaces.flatMap (fun i => [.arrived ((announce i.body).take 2), .arrived i.body]) ++
    [.took 4, .arrived (sampleAnnouncement.customBytes.take 10), .arrived sampleAnnouncement.customInfo.body,
      .took 4, .arrived (numbers [3])]
  have hsome : ((untilSimulation sampleClient fun _ => 0).finish answers).isSome = true := by
    decide +kernel
  obtain ⟨⟨⟨r, memory'⟩, sent⟩, hfinish⟩ := Option.isSome_iff_exists.mp hsome
  have hcalls := Dialogue.calls_of_finish hfinish
  exact ⟨answers, r, memory', sent, hcalls, (announcement_read_back_in_pieces sampleClient_fits sampleAnnouncement_fits
    hcalls (by decide +kernel) (by decide +kernel)).1⟩

end Overlay
