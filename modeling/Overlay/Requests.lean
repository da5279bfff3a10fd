import Overlay.Arguments
import Overlay.Framing
import Overlay.Windows

/-! The requests of the negotiations, written into the buffer piece by piece. A string goes
out with its terminating zero, behind its length; each guard has to leave room for both. -/

namespace Overlay

open ByteMemory Windows

/-- Memory from the start of the buffer on, the place of the next write, and the place and
length of each write so far. -/
structure Writer where
  memory : Nat → UInt8
  buf : Nat
  writes : List (Nat × Nat)

namespace Writer

variable (w : Writer)

def storeAt (place : Nat) (values : Bytes) : Writer :=
  { w with memory := overwrite w.memory place values, writes := w.writes ++ [(place, values.length)] }

def advance (n : Nat) : Writer := { w with buf := w.buf + n }

def storeSize (size : UInt16) : Writer := (w.storeAt w.buf (bytes16 (swap16 size))).advance 2

/-- `strcpy` copies the terminating zero. -/
def storeString (s : CString) (size : Nat) : Writer := (w.storeAt w.buf (s.text ++ [0])).advance size

def storeField (s : CString) : Writer :=
  let size := UInt16.ofNat (s.text.length + 1)
  (w.storeSize size).storeString s size.toNat

def storeInt (value : Int32) : Writer := (w.storeAt w.buf (bytes32 (swap32 value.toUInt32))).advance 4

def Inside : Prop := ∀ write ∈ w.writes, write.1 + write.2 ≤ frameBufferSize

end Writer

inductive Outcome
  | exit
  | refused (message : String)
  | sent (request : Bytes)

/-- The request starts with its size, for which room was left. -/
def sendRequest (w : Writer) : Outcome × Writer :=
  let size := UInt16.ofNat w.buf
  let w := w.storeAt 0 (bytes16 (swap16 (size - 2)))
  (.sent (window w.memory 0 size.toNat), w)

structure Client where
  userName : CString
  password : CString
  mapName : CString
  creatorId : CString
  nodeName : CString
  needNewMap : Int32

section Requests

variable (client : Client) (memory : Nat → UInt8)

/-! Each negotiation up to its request. -/

def signingInRequest : Outcome × Writer :=
  let w : Writer := { memory := memory, buf := 0, writes := [] }
  if 20 < client.userName.text.length ∨ 50 < client.password.text.length then
    (.refused "+++ Username/Password is too long!!", w)
  else sendRequest (((w.advance 2).storeField client.userName).storeField client.password)

def Client.chooseCreator : Client :=
  if client.needNewMap ≠ 0 then { client with creatorId := client.userName } else client

def mapSelectingRequest : Outcome × Writer :=
  let w : Writer := { memory := memory, buf := 0, writes := [] }
  let client := client.chooseCreator
  if frameBufferSize < 3 * 2 + client.mapName.text.length + client.creatorId.text.length + 4 then
    (.refused "+++ Map name is too long.", w)
  else sendRequest ((((w.advance 2).storeField client.mapName).storeField client.creatorId).storeInt
    client.needNewMap)

/-- The length is written before it is checked. -/
def nodeSelectingRequest : Outcome × Writer :=
  let w : Writer := { memory := memory, buf := 0, writes := [] }
  if client.nodeName.text = [] then (.exit, w)
  else
    let ms := UInt32.ofNat (client.nodeName.text.length + 1)
    let w := w.storeSize ms.toUInt16
    if ms.toNat > frameBufferSize - 2 then (.refused "+++ Node name is too long.", w)
    else
      let w := w.storeString client.nodeName ms.toNat
      (.sent (window w.memory 0 w.buf), w)

end Requests

/-! What the server reads. -/

/-- The number in front of some bytes is their number. -/
def Announces (body announced : Bytes) : Prop :=
  ∃ size : UInt16, size.toNat = body.length ∧ announced = bytes16 (swap16 size) ++ body

def AnnouncesString (s : CString) (announced : Bytes) : Prop := Announces (s.text ++ [0]) announced

def Client.SignsIn (client : Client) (request : Bytes) : Prop := ∃ userName password,
  AnnouncesString client.userName userName ∧ AnnouncesString client.password password ∧
    Announces (userName ++ password) request

def Client.SelectsMap (client : Client) (request : Bytes) : Prop := ∃ mapName creatorId,
  AnnouncesString client.mapName mapName ∧ AnnouncesString client.creatorId creatorId ∧
    Announces (mapName ++ creatorId ++ bytes32 (swap32 client.needNewMap.toUInt32)) request

structure WellWritten (layout : Bytes → Prop) (negotiation : Outcome × Writer) : Prop where
  inside : negotiation.2.Inside
  announced : ∀ request, negotiation.1 = .sent request → layout request

/-- A writer that has written nothing but `content`, one piece behind the other. -/
structure Filled (memory : Nat → UInt8) (place : Nat) (content : Bytes) (w : Writer) : Prop where
  memory_eq : w.memory = overwrite memory place content
  buf_eq : w.buf = place + content.length
  writes_le : ∀ write ∈ w.writes, write.1 + write.2 ≤ w.buf

namespace Filled

variable {memory : Nat → UInt8} {place : Nat} {content : Bytes} {w : Writer}

theorem start (memory : Nat → UInt8) (place : Nat) :
    Filled memory place [] (({ memory := memory, buf := 0, writes := [] } : Writer).advance place) :=
  ⟨by simp [Writer.advance], by simp [Writer.advance], by simp [Writer.advance]⟩

theorem store (h : Filled memory place content w) {values : Bytes} {n : Nat} (hn : values.length = n) :
    Filled memory place (content ++ values) ((w.storeAt w.buf values).advance n) := by
  subst hn
  constructor
  · simp only [Writer.advance, Writer.storeAt, h.memory_eq, h.buf_eq, overwrite_append]
  · simp only [Writer.advance, Writer.storeAt, h.buf_eq, List.length_append, Nat.add_assoc]
  · intro write hw
    rcases List.mem_append.mp hw with hw | hw
    · exact (h.writes_le write hw).trans (Nat.le_add_right _ _)
    · rw [List.mem_singleton.mp hw]
      exact Nat.le_refl _

theorem mem_store (h : Filled memory place content w) (values : Bytes) (n : Nat) :
    (place + content.length, values.length) ∈ ((w.storeAt w.buf values).advance n).writes := by
  simp [Writer.storeAt, Writer.advance, h.buf_eq]

theorem storeField (h : Filled memory place content w) {s : CString} (hs : s.text.length < 65535) :
    ∃ field, AnnouncesString s field ∧ field.length = s.text.length + 3 ∧
      Filled memory place (content ++ field) (w.storeField s) := by
  have hsize : (UInt16.ofNat (s.text.length + 1)).toNat = s.text.length + 1 := by
    rw [UInt16.toNat_ofNat']
    omega
  refine ⟨bytes16 (swap16 (UInt16.ofNat (s.text.length + 1))) ++ (s.text ++ [0]), ⟨_, by simpa using hsize, rfl⟩,
    by simp; omega, ?_⟩
  rw [← List.append_assoc]
  apply (h.store (length_bytes16 _)).store
  rw [hsize, List.length_append, List.length_singleton]

/-- The two bytes in front of the content are those of its size. -/
theorem sent (h : Filled memory 2 content w) (hc : content.length + 2 < 65536) :
    ∃ request, (sendRequest w).1 = .sent request ∧ Announces content request ∧
      ((sendRequest w).2.Inside ↔ w.Inside) := by
  have hsize : (UInt16.ofNat w.buf).toNat = 2 + content.length := by
    rw [UInt16.toNat_ofNat', h.buf_eq]
    omega
  have hbody : (UInt16.ofNat w.buf - 2).toNat = content.length := by
    have htwo : (2 : UInt16).toNat = 2 := rfl
    rw [UInt16.toNat_sub, hsize, htwo]
    omega
  refine ⟨_, rfl, ⟨UInt16.ofNat w.buf - 2, hbody, ?_⟩, ?_⟩
  · show window (overwrite w.memory 0 (bytes16 (swap16 (UInt16.ofNat w.buf - 2)))) 0 (UInt16.ofNat w.buf).toNat = _
    have hfront : window (overwrite w.memory 0 (bytes16 (swap16 (UInt16.ofNat w.buf - 2)))) 0 2 =
        bytes16 (swap16 (UInt16.ofNat w.buf - 2)) := window_overwrite 0 _
    rw [hsize, window_add, hfront, window_overwrite_of_disjoint (Or.inr (Nat.le_refl 2)), h.memory_eq,
      Nat.zero_add, window_overwrite]
  · simp only [sendRequest, Writer.Inside, Writer.storeAt, List.forall_mem_append, List.forall_mem_singleton]
    exact and_iff_left (by simp [frameBufferSize])

theorem window_eq (h : Filled memory 0 content w) : window w.memory 0 w.buf = content := by
  rw [h.memory_eq, h.buf_eq, Nat.zero_add, window_overwrite]

theorem inside (h : Filled memory place content w) (hc : place + content.length ≤ frameBufferSize) :
    w.Inside := by
  intro write hw
  have hle := h.writes_le write hw
  rw [h.buf_eq] at hle
  omega

end Filled

theorem signingIn_wellWritten (client : Client) (memory : Nat → UInt8) :
    WellWritten client.SignsIn (signingInRequest client memory) := by
  by_cases hlong : 20 < client.userName.text.length ∨ 50 < client.password.text.length
  · simp only [signingInRequest, hlong, if_true]
    exact ⟨by simp [Writer.Inside], by simp⟩
  · obtain ⟨user, huser, hul, hw⟩ := (Filled.start memory 2).storeField (s := client.userName) (by omega)
    obtain ⟨pass, hpass, hpl, hw⟩ := hw.storeField (s := client.password) (by omega)
    have hlen : ([] ++ user ++ pass).length ≤ 76 := by
      simp only [List.nil_append, List.length_append]
      omega
    obtain ⟨request, hsent, hrequest, hin⟩ := hw.sent (by omega)
    simp only [signingInRequest, hlong, if_false]
    constructor
    · exact hin.mpr (hw.inside (by rw [frameBufferSize]; omega))
    · intro request' h
      rw [hsent] at h
      cases h
      exact ⟨user, pass, huser, hpass, hrequest⟩

theorem mapSelecting_wellWritten_iff (client : Client) (memory : Nat → UInt8) :
    WellWritten client.chooseCreator.SelectsMap (mapSelectingRequest client memory) ↔
      ¬ (1512 < client.chooseCreator.mapName.text.length + client.chooseCreator.creatorId.text.length ∧
        client.chooseCreator.mapName.text.length + client.chooseCreator.creatorId.text.length ≤ 1514) := by
  simp only [mapSelectingRequest]
  generalize client.chooseCreator = client
  by_cases hlong : frameBufferSize < 3 * 2 + client.mapName.text.length + client.creatorId.text.length + 4
  · simp only [hlong, if_true]
    rw [frameBufferSize] at hlong
    exact iff_of_true ⟨by simp [Writer.Inside], by simp⟩ (by omega)
  · simp only [hlong, if_false]
    rw [frameBufferSize] at hlong
    obtain ⟨map, hmap, hml, hw⟩ := (Filled.start memory 2).storeField (s := client.mapName) (by omega)
    obtain ⟨creator, hcreator, hcl, hnames⟩ := hw.storeField (s := client.creatorId) (by omega)
    have hw := hnames.store (length_bytes32 (swap32 client.needNewMap.toUInt32))
    have hlen : ([] ++ map ++ creator ++ bytes32 (swap32 client.needNewMap.toUInt32)).length =
        client.mapName.text.length + client.creatorId.text.length + 10 := by
      simp only [List.nil_append, List.length_append, length_bytes32]
      omega
    obtain ⟨request, hsent, hrequest, hin⟩ := hw.sent (by omega)
    constructor
    · -- the last write is the flag behind both names
      rintro ⟨hinside, -⟩ ⟨hover, -⟩
      have hlast := hin.mp hinside _ (hnames.mem_store (bytes32 (swap32 client.needNewMap.toUInt32)) 4)
      simp only [List.nil_append, List.length_append, length_bytes32, frameBufferSize] at hlast
      omega
    · intro hfit
      constructor
      · exact hin.mpr (hw.inside (by rw [frameBufferSize]; omega))
      · intro request' h
        have he : Outcome.sent request = .sent request' := hsent.symm.trans h
        cases he
        exact ⟨map, creator, hmap, hcreator, hrequest⟩

theorem nodeSelecting_wellWritten_iff (client : Client) (memory : Nat → UInt8) :
    WellWritten (AnnouncesString client.nodeName) (nodeSelectingRequest client memory) ↔
      ¬ (2 ^ 32 ≤ client.nodeName.text.length + 1 ∧ (client.nodeName.text.length + 1) % 2 ^ 32 ≤ 1522) := by
  by_cases hempty : client.nodeName.text = []
  · simp only [nodeSelectingRequest, hempty, if_true]
    exact iff_of_true ⟨by simp [Writer.Inside], by simp⟩ (by simp)
  · have hms : (UInt32.ofNat (client.nodeName.text.length + 1)).toNat =
        (client.nodeName.text.length + 1) % 2 ^ 32 := UInt32.toNat_ofNat'
    by_cases hlong : (client.nodeName.text.length + 1) % 2 ^ 32 > frameBufferSize - 2
    · simp only [nodeSelectingRequest, hempty, if_false, hms, hlong, if_true]
      rw [frameBufferSize] at hlong
      exact iff_of_true ⟨by simp [Writer.Inside, Writer.storeSize, Writer.storeAt, Writer.advance, frameBufferSize],
        by simp⟩ (by omega)
    · simp only [nodeSelectingRequest, hempty, if_false, hms, hlong]
      rw [frameBufferSize] at hlong
      have hsize := (Filled.start memory 0).store
        (length_bytes16 (swap16 (UInt32.ofNat (client.nodeName.text.length + 1)).toUInt16))
      constructor
      · -- the name is copied whole, whatever its length was cut to
        rintro ⟨hinside, -⟩ ⟨hwrap, -⟩
        have hlast := hinside _ (hsize.mem_store (client.nodeName.text ++ [0]) _)
        simp only [List.nil_append, List.length_append, length_bytes16, frameBufferSize] at hlast
        omega
      · intro hfit
        have hlen : (client.nodeName.text ++ [0]).length = (client.nodeName.text.length + 1) % 2 ^ 32 := by
          rw [List.length_append, List.length_singleton]
          omega
        have hw := hsize.store hlen
        constructor
        · refine hw.inside ?_
          simp only [List.nil_append, List.length_append, length_bytes16, frameBufferSize, List.length_singleton]
          omega
        · intro request h
          refine ⟨(UInt32.ofNat (client.nodeName.text.length + 1)).toUInt16, ?_, ?_⟩
          · rw [UInt32.toNat_toUInt16, hms, hlen]
            omega
          · rw [← Outcome.sent.inj h]
            exact hw.window_eq

/-- The requests are right unless the names of the map and its creator fill the last two
bytes that the guard grants, or the length of the node's name wraps around. -/
theorem requests_wellWritten_iff (client : Client) (memory : Nat → UInt8) :
    (WellWritten client.SignsIn (signingInRequest client memory) ∧
      WellWritten client.chooseCreator.SelectsMap (mapSelectingRequest client memory) ∧
      WellWritten (AnnouncesString client.nodeName) (nodeSelectingRequest client memory)) ↔
    ¬ (1512 < client.chooseCreator.mapName.text.length + client.chooseCreator.creatorId.text.length ∧
        client.chooseCreator.mapName.text.length + client.chooseCreator.creatorId.text.length ≤ 1514) ∧
      ¬ (2 ^ 32 ≤ client.nodeName.text.length + 1 ∧ (client.nodeName.text.length + 1) % 2 ^ 32 ≤ 1522) := by
  rw [mapSelecting_wellWritten_iff, nodeSelecting_wellWritten_iff]
  exact and_iff_right (signingIn_wellWritten client memory)

def letters (n : Nat) : CString := ⟨List.replicate n 97, by simp⟩

def longNames : Client :=
  { userName := letters 6, password := letters 8, mapName := letters 1508, creatorId := letters 6,
    nodeName := letters 1, needNewMap := 0 }

/-- A map name of 1508 characters for a creator of six passes the check; half of the flag is
written over the end of the buffer. -/
theorem mapSelecting_overflows :
    (∃ request, (mapSelectingRequest longNames fun _ => 0).1 = .sent request) ∧
    (1522, 4) ∈ (mapSelectingRequest longNames fun _ => 0).2.writes ∧
    ¬ (WellWritten longNames.SignsIn (signingInRequest longNames fun _ => 0) ∧
      WellWritten longNames.chooseCreator.SelectsMap (mapSelectingRequest longNames fun _ => 0) ∧
      WellWritten (AnnouncesString longNames.nodeName) (nodeSelectingRequest longNames fun _ => 0)) := by
  have hguard : ¬ frameBufferSize < 3 * 2 + longNames.chooseCreator.mapName.text.length +
      longNames.chooseCreator.creatorId.text.length + 4 := by decide +kernel
  refine ⟨?_, by decide +kernel, fun h => ?_⟩
  · simp only [mapSelectingRequest, hguard, if_false]
    exact ⟨_, rfl⟩
  · exact (mapSelecting_wellWritten_iff longNames _).mp h.2.1 (by decide +kernel)

end Overlay
