import Overlay.Addresses
import Overlay.OnesComplement

/-! The headers of the frames the node builds, and the validator it puts every
received frame through. A header is a structure whose multi-byte fields hold the
memory words, so a field in network order is a swapped one. -/

namespace Overlay

open ByteMemory

/-- A node has interface 0 towards its clients and peers and interface 1 towards its gateway. -/
instance interfaces_neZero : NeZero 2 := ⟨two_ne_zero⟩

structure Interface where
  ip : UInt32
  mac : Mac

structure Eth where
  etherDhost : Mac
  etherShost : Mac
  etherType : UInt16

def Eth.bytes (eth : Eth) : Bytes := eth.etherDhost.bytes ++ eth.etherShost.bytes ++ bytes16 eth.etherType

structure Ip where
  ipHl : UInt8
  ipV : UInt8
  ipTos : UInt8
  ipLen : UInt16
  ipId : UInt16
  ipOff : UInt16
  ipTtl : UInt8
  ipP : UInt8
  ipSum : UInt16
  ipSrc : UInt32
  ipDst : UInt32

/-- The two bit fields share the first byte, the header length in its low half. -/
def Ip.bytes (ip : Ip) : Bytes :=
  [ip.ipV * 16 + ip.ipHl, ip.ipTos] ++ bytes16 ip.ipLen ++ bytes16 ip.ipId ++ bytes16 ip.ipOff ++
    [ip.ipTtl, ip.ipP] ++ bytes16 ip.ipSum ++ bytes32 ip.ipSrc ++ bytes32 ip.ipDst

structure Udp where
  portSrc : UInt16
  portDst : UInt16
  length : UInt16
  udpSum : UInt16

def Udp.bytes (udp : Udp) : Bytes :=
  bytes16 udp.portSrc ++ bytes16 udp.portDst ++ bytes16 udp.length ++ bytes16 udp.udpSum

structure Icmp where
  type : UInt8
  code : UInt8
  checksum : UInt16
  sequenceId : UInt16
  identifier : UInt16
  payloadData : UInt32

def Icmp.bytes (icmp : Icmp) : Bytes :=
  [icmp.type, icmp.code] ++ bytes16 icmp.checksum ++ bytes16 icmp.sequenceId ++
    bytes16 icmp.identifier ++ bytes32 icmp.payloadData

@[simp] theorem Eth.length_bytes (eth : Eth) : eth.bytes.length = 14 := rfl

@[simp] theorem Ip.length_bytes (ip : Ip) : ip.bytes.length = 20 := rfl

@[simp] theorem Udp.length_bytes (udp : Udp) : udp.bytes.length = 8 := rfl

@[simp] theorem Icmp.length_bytes (icmp : Icmp) : icmp.bytes.length = 12 := rfl

def sumWords (b : Bytes) (offset : Nat) : Nat → UInt32
  | 0 => 0
  | i + 1 => sumWords b offset i + (word16 b (offset + 2 * i)).toUInt32

def checkSumIp (b : Bytes) (offset headerLength : Nat) : UInt16 :=
  let sum := sumWords b offset (headerLength * 2)
  let reminder := (sum % 65536).toUInt16
  let q := (sum / 65536).toUInt16
  UInt16.ofNat ((q.toNat + reminder.toNat) ^^^ 65535)

/-- Twelve bytes are six words; the carry is added twice. -/
def checkSumIcmp (b : Bytes) : UInt16 :=
  let sum := sumWords b 0 6
  let sum := (sum >>> 16) + (sum &&& 0xFFFF)
  let sum := sum + (sum >>> 16)
  (~~~sum).toUInt16

/-- The protocols the callers pass; any other number is an error of the caller. -/
inductive Protocol
  | icmp
  | udp
  deriving DecidableEq

def Protocol.number : Protocol → UInt8
  | .icmp => 1
  | .udp => 17

def setIpHeader (iface : Fin 2 → Interface) (destIp : UInt32) (ipProtocol : Protocol)
    (advertiseDataSize : Nat) (isDsaLsa isSelf : Bool) : Ip :=
  let udpLen := swap16 (UInt16.ofNat (42 - 14 + advertiseDataSize))
  let srcLen : UInt32 × UInt16 :=
    if isDsaLsa then (swap32 (iface (if isSelf then 1 else 0)).ip, udpLen)
    else match ipProtocol with
      | .icmp => (swap32 (iface 1).ip, swap16 (20 + 12))
      | .udp => (swap32 (iface 0).ip, udpLen)
  let ip : Ip :=
    { ipV := 4, ipHl := 5, ipTos := 0, ipId := swap16 0, ipOff := swap16 0, ipTtl := 64,
      ipP := ipProtocol.number, ipDst := swap32 destIp, ipSrc := srcLen.1, ipLen := srcLen.2, ipSum := 0 }
  { ip with ipSum := checkSumIp ip.bytes 0 ip.ipHl.toNat }

def setIcmpHeaderInPingPacket (sequenceId : UInt16) : Icmp :=
  let icmp : Icmp :=
    { type := 8, code := 0, identifier := 0, sequenceId := swap16 sequenceId,
      payloadData := swap32 0x12345678, checksum := 0 }
  { icmp with checksum := checkSumIcmp icmp.bytes }

/-! Fields of a received frame, at the offsets the code overlays its structures on. -/

section Fields

variable (frame : Bytes)

def etherType : UInt16 := swap16 (word16 frame 12)

def etherShost : Mac := readMac frame 6

def ipHl : Nat := (word8 frame 14).toNat % 16

def ipV : Nat := (word8 frame 14).toNat / 16

def ipLen : Nat := (swap16 (word16 frame 16)).toNat

def ipP : UInt8 := word8 frame 23

def ipSrc : UInt32 := swap32 (word32 frame 26)

def ipDst : UInt32 := swap32 (word32 frame 30)

def portSrc : UInt16 := swap16 (word16 frame 34)

def portDst : UInt16 := swap16 (word16 frame 36)

def udpLength : Nat := (swap16 (word16 frame 38)).toNat

def sequenceId : UInt16 := swap16 (word16 frame 38)

end Fields

/-- `none` is a checksum over a header that reaches behind the frame. -/
def isValidPacket (frame : Bytes) : Option Bool :=
  let length := frame.length
  if length < 14 then some false
  else if etherType frame ≠ 0x0800 then some false
  else if length < 14 + 14 then some false
  else if length ≠ ipLen frame + 14 then some false
  else if ipV frame ≠ 4 then some false
  else if length < 14 + 4 * ipHl frame then none
  else if checkSumIp frame 14 (ipHl frame) ≠ 0 then some false
  else if ¬ (ipP frame = 17 ∨ ipP frame = 1) then some false
  else if ipP frame = 17 then
    if length < 42 then some false
    else if (udpLength frame : Int) ≠ ipLen frame - 4 * ipHl frame then some false
    else some true
  else
    if length < 46 then some false
    else if word8 frame 34 ≠ 0 ∨ word8 frame 35 ≠ 0 ∨ swap32 (word32 frame 42) ≠ 0x12345678 then some false
    else some true

structure ValidIp (frame : Bytes) : Prop where
  etherType_eq : etherType frame = 0x0800
  length_eq : frame.length = ipLen frame + 14
  ipV_eq : ipV frame = 4
  header_le : 14 + 4 * ipHl frame ≤ frame.length
  checkSum_eq : checkSumIp frame 14 (ipHl frame) = 0

structure ValidUdp (frame : Bytes) : Prop extends ValidIp frame where
  ipP_eq : ipP frame = 17
  length_le : 42 ≤ frame.length
  udpLength_eq : udpLength frame + 4 * ipHl frame = ipLen frame

structure ValidIcmp (frame : Bytes) : Prop extends ValidIp frame where
  ipP_eq : ipP frame = 1
  length_le : 46 ≤ frame.length
  type_eq : word8 frame 34 = 0
  code_eq : word8 frame 35 = 0
  payload_eq : swap32 (word32 frame 42) = 0x12345678

theorem reject_iff {c : Prop} [Decidable c] {x : Option Bool} :
    (if c then some false else x) = some true ↔ ¬ c ∧ x = some true := by
  by_cases h : c <;> simp [h]

theorem stuck_iff {c : Prop} [Decidable c] {x : Option Bool} :
    (if c then none else x) = some true ↔ ¬ c ∧ x = some true := by
  by_cases h : c <;> simp [h]

theorem isValidPacket_iff (frame : Bytes) :
    isValidPacket frame = some true ↔ ValidUdp frame ∨ ValidIcmp frame := by
  unfold isValidPacket
  rw [reject_iff, reject_iff, reject_iff, reject_iff, reject_iff, stuck_iff, reject_iff, reject_iff]
  constructor
  · rintro ⟨_, h₂, _, h₄, h₅, h₆, h₇, h₈, h⟩
    push Not at h₂ h₄ h₅ h₇
    have hip : ValidIp frame := ⟨h₂, h₄, h₅, by omega, h₇⟩
    by_cases hp : ipP frame = 17
    · rw [if_pos hp, reject_iff, reject_iff] at h
      exact Or.inl ⟨hip, hp, by omega, by omega⟩
    · rw [if_neg hp, reject_iff, reject_iff] at h
      obtain ⟨hl, hf, _⟩ := h
      push Not at hf
      exact Or.inr ⟨hip, by tauto, by omega, hf.1, hf.2.1, hf.2.2⟩
  · intro h
    have hip : ValidIp frame := h.elim (·.toValidIp) (·.toValidIp)
    have hlen : 42 ≤ frame.length := h.elim (·.length_le) fun h => by have := h.length_le; omega
    have hl := hip.length_eq
    have hh := hip.header_le
    refine ⟨by omega, not_not.mpr hip.etherType_eq, by omega, by omega, not_not.mpr hip.ipV_eq,
      by omega, not_not.mpr hip.checkSum_eq, not_not.mpr (h.imp (·.ipP_eq) (·.ipP_eq)), ?_⟩
    rcases h with h | h
    · have hu := h.udpLength_eq
      rw [if_pos h.ipP_eq, reject_iff, reject_iff]
      exact ⟨by omega, by omega, rfl⟩
    · have hm := h.length_le
      have hp : ¬ ipP frame = 17 := by rw [h.ipP_eq]; decide
      rw [if_neg hp, reject_iff, reject_iff]
      refine ⟨by omega, ?_, rfl⟩
      push Not
      exact ⟨h.type_eq, h.code_eq, h.payload_eq⟩

theorem validUdp_of_accepted {frame : Bytes} (hv : isValidPacket frame = some true) (hp : ipP frame = 17) :
    ValidUdp frame := by
  rcases (isValidPacket_iff frame).mp hv with hu | hi
  · exact hu
  · rw [hi.ipP_eq] at hp
    exact absurd hp (by decide)

theorem ValidIcmp.not_validUdp {frame : Bytes} (h : ValidIcmp frame) : ¬ ValidUdp frame := by
  intro hu
  have hp := h.ipP_eq
  rw [hu.ipP_eq] at hp
  exact absurd hp (by decide)

theorem not_validUdp_of_rejected {frame : Bytes} (h : isValidPacket frame = some false) : ¬ ValidUdp frame := by
  intro hu
  rw [(isValidPacket_iff frame).mpr (Or.inl hu)] at h
  cases h

theorem service_ports {port : UInt16} (h : 8000 ≤ port) : port ≠ 1000 ∧ port ≠ 2000 ∧ port ≠ 5000 := by
  refine ⟨?_, ?_, ?_⟩ <;> rintro rfl <;> exact absurd h (by decide)

end Overlay
