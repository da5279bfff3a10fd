import Overlay.MemoryReads
import Overlay.Entries
import Overlay.Capacity

/-! What the node reads of a received frame, index by index. Two loops take their range
from the frame itself: the checksum over the IP header and the records of an
advertisement. Neither is checked against the end of the frame. -/

namespace Overlay

open ByteMemory MemoryReads

def sumWordsReads (offset : Nat) : Nat → Reading UInt32
  | 0 => pure 0
  | i + 1 => do
    let sum ← sumWordsReads offset i
    let word ← read16 (offset + 2 * i)
    pure (sum + word.toUInt32)

def checkSumIpReads (offset headerLength : Nat) : Reading UInt16 := do
  let sum ← sumWordsReads offset (headerLength * 2)
  let reminder := (sum % 65536).toUInt16
  let q := (sum / 65536).toUInt16
  pure (UInt16.ofNat ((q.toNat + reminder.toNat) ^^^ 65535))

def isValidUdpReads (length : Nat) : Reading Bool :=
  if length < 42 then pure false
  else do
    let udpLength ← read16 38
    let ipLen ← read16 16
    let first ← read8 14
    pure (((swap16 udpLength).toNat : Int) = (swap16 ipLen).toNat - 4 * (first.toNat % 16 : Nat))

def isValidIcmpReads (length : Nat) : Reading Bool :=
  if length < 46 then pure false
  else do
    let type ← read8 34
    if type ≠ 0 then pure false
    else do
      let code ← read8 35
      if code ≠ 0 then pure false
      else do
        let payloadData ← read32 42
        pure (swap32 payloadData = 0x12345678)

/-- `is_valid_packet` on the memory a frame of this length stands in. The second guard is for
twice the size of an Ethernet header. -/
def isValidPacketReads (length : Nat) : Reading Bool :=
  if length < 14 then pure false
  else do
    let etherType ← read16 12
    if swap16 etherType ≠ 0x0800 then pure false
    else if length < 14 + 14 then pure false
    else do
      let ipLen ← read16 16
      if length ≠ (swap16 ipLen).toNat + 14 then pure false
      else do
        let first ← read8 14
        if first.toNat / 16 ≠ 4 then pure false
        else do
          let checkSum ← checkSumIpReads 14 (first.toNat % 16)
          if checkSum ≠ 0 then pure false
          else do
            let ipP ← read8 23
            if ¬ (ipP = 17 ∨ ipP = 1) then pure false
            else if ipP = 17 then isValidUdpReads length
            else isValidIcmpReads length

section Validator

variable {frame : Bytes} {behind : Memory}

theorem inside_sumWordsReads {offset n length : Nat} {m : Memory} :
    (sumWordsReads offset n).Inside length m ↔ n = 0 ∨ offset + 2 * n ≤ length := by
  induction n with
  | zero => simp [sumWordsReads]
  | succ n ih =>
    rw [sumWordsReads, inside_bind, inside_bind, inside_read16, ih]
    simp only [inside_pure, and_true]
    omega

theorem inside_checkSumIpReads {offset headerLength length : Nat} {m : Memory} (h : offset ≤ length) :
    (checkSumIpReads offset headerLength).Inside length m ↔ offset + 4 * headerLength ≤ length := by
  rw [checkSumIpReads, inside_bind, inside_sumWordsReads]
  simp only [inside_pure, and_true]
  omega

theorem inside_isValidUdpReads (length : Nat) (m : Memory) : (isValidUdpReads length).Inside length m := by
  rw [isValidUdpReads]
  split_ifs with h
  · exact inside_pure false
  · rw [inside_bind, inside_bind, inside_bind, inside_read16, inside_read16, inside_read8]
    exact ⟨by omega, by omega, by omega, inside_pure _⟩

theorem inside_isValidIcmpReads (length : Nat) (m : Memory) : (isValidIcmpReads length).Inside length m := by
  rw [isValidIcmpReads]
  split_ifs with h
  · exact inside_pure false
  · rw [inside_bind, inside_read8]
    refine ⟨by omega, ?_⟩
    split_ifs with ht
    · exact inside_pure false
    · rw [inside_bind, inside_read8]
      refine ⟨by omega, ?_⟩
      split_ifs with hc
      · exact inside_pure false
      · rw [inside_bind, inside_read32]
        exact ⟨by omega, inside_pure _⟩

theorem value_sumWordsReads {offset n : Nat} (h : offset + 2 * n ≤ frame.length) :
    (sumWordsReads offset n).value (placed frame behind) = sumWords frame offset n := by
  induction n with
  | zero => rfl
  | succ n ih =>
    rw [sumWordsReads, value_bind, value_bind, value_pure, ih (by omega), value_read16 (by omega), sumWords]

theorem value_isValidUdpReads : some ((isValidUdpReads frame.length).value (placed frame behind)) =
    if frame.length < 42 then some false
    else if (udpLength frame : Int) ≠ ipLen frame - 4 * ipHl frame then some false
    else some true := by
  rw [isValidUdpReads]
  by_cases h : frame.length < 42
  · rw [if_pos h, if_pos h, value_pure]
  · rw [if_neg h, if_neg h, value_bind, value_bind, value_bind, value_pure, value_read16 (by omega),
      value_read16 (by omega), value_read8 (by omega), ← udpLength, ← ipLen, ← ipHl]
    by_cases hl : (udpLength frame : Int) = ipLen frame - 4 * ipHl frame <;> simp [hl]

theorem value_isValidIcmpReads : some ((isValidIcmpReads frame.length).value (placed frame behind)) =
    if frame.length < 46 then some false
    else if word8 frame 34 ≠ 0 ∨ word8 frame 35 ≠ 0 ∨ swap32 (word32 frame 42) ≠ 0x12345678 then some false
    else some true := by
  rw [isValidIcmpReads]
  by_cases h : frame.length < 46
  · rw [if_pos h, if_pos h, value_pure]
  · rw [if_neg h, if_neg h, value_bind, value_read8 (by omega)]
    by_cases ht : word8 frame 34 = 0
    · rw [if_neg (not_not.mpr ht), value_bind, value_read8 (by omega)]
      by_cases hc : word8 frame 35 = 0
      · rw [if_neg (not_not.mpr hc), value_bind, value_pure, value_read32 (by omega)]
        by_cases hp : swap32 (word32 frame 42) = 0x12345678 <;> simp [ht, hc, hp]
      · simp [ht, hc]
    · simp [ht]

/-- The tests before the checksum. -/
structure ReachesChecksum (frame : Bytes) : Prop where
  length_le : 28 ≤ frame.length
  etherType_eq : etherType frame = 0x0800
  length_eq : frame.length = ipLen frame + 14
  ipV_eq : ipV frame = 4

/-- The reads of the validator stay inside the frame if and only if the header described by
a frame that gets to the checksum fits into its total length. -/
theorem packet_reads_inside_iff (frame : Bytes) (behind : Memory) :
    (isValidPacketReads frame.length).Inside frame.length (placed frame behind) ↔
      (ReachesChecksum frame → 4 * ipHl frame ≤ ipLen frame) := by
  rw [isValidPacketReads]
  refine inside_guard_iff (fun h₁ h => ?_) fun h₁ => ?_
  · have := h.length_le
    omega
  rw [inside_bind, inside_read16, value_read16 (by omega), ← etherType, and_iff_right (by omega)]
  refine inside_guard_iff (fun h₂ h => absurd h.etherType_eq h₂) fun h₂ => ?_
  refine inside_guard_iff (fun h₃ h => ?_) fun h₃ => ?_
  · have := h.length_le
    omega
  rw [inside_bind, inside_read16, value_read16 (by omega), ← ipLen, and_iff_right (by omega)]
  refine inside_guard_iff (fun h₄ h => absurd h.length_eq h₄) fun h₄ => ?_
  rw [inside_bind, inside_read8, value_read8 (by omega), ← ipV, ← ipHl, and_iff_right (by omega)]
  refine inside_guard_iff (fun h₅ h => absurd h.ipV_eq h₅) fun h₅ => ?_
  rw [inside_bind, inside_checkSumIpReads (by omega)]
  have hreaches : ReachesChecksum frame := ⟨by omega, not_not.mp h₂, not_not.mp h₄, not_not.mp h₅⟩
  have hlen := hreaches.length_eq
  constructor
  · intro h _
    have := h.1
    omega
  · intro h
    have hle := h hreaches
    refine ⟨by omega, ?_⟩
    split_ifs with hsum
    · exact inside_pure false
    · rw [inside_bind, inside_read8]
      refine ⟨by omega, ?_⟩
      split_ifs with hp hudp
      · exact inside_isValidUdpReads _ _
      · exact inside_isValidIcmpReads _ _
      · exact inside_pure false

/-- While it stays inside the frame, the validator says what `isValidPacket` says. -/
theorem value_isValidPacketReads {valid : Bool} (h : isValidPacket frame = some valid) :
    (isValidPacketReads frame.length).value (placed frame behind) = valid := by
  unfold isValidPacket at h
  rw [isValidPacketReads]
  refine value_guard h fun h₁ h => ?_
  rw [value_bind, value_read16 (by omega), ← etherType]
  refine value_guard h fun _ h => ?_
  refine value_guard h fun h₃ h => ?_
  rw [value_bind, value_read16 (by omega), ← ipLen]
  refine value_guard h fun _ h => ?_
  rw [value_bind, value_read8 (by omega), ← ipV, ← ipHl]
  refine value_guard h fun _ h => ?_
  -- `isValidPacket` has no value where the sum leaves the frame
  by_cases h₆ : frame.length < 14 + 4 * ipHl frame
  · rw [if_pos h₆] at h
    cases h
  rw [if_neg h₆] at h
  have hsum : (checkSumIpReads 14 (ipHl frame)).value (placed frame behind) = checkSumIp frame 14 (ipHl frame) := by
    rw [checkSumIpReads, value_bind, value_pure, value_sumWordsReads (by omega), checkSumIp]
  rw [value_bind, hsum]
  refine value_guard h fun _ h => ?_
  rw [value_bind, value_read8 (by omega), ← ipP]
  refine value_guard h fun _ h => ?_
  by_cases h₉ : ipP frame = 17
  · rw [if_pos h₉] at h ⊢
    exact Option.some.inj (value_isValidUdpReads.trans h)
  · rw [if_neg h₉] at h ⊢
    exact Option.some.inj (value_isValidIcmpReads.trans h)

/-- Twenty bytes of IP, in a header that says it has sixty. -/
def sampleOverlong : Bytes := List.replicate 12 0 ++ [8, 0, 0x4F, 0, 0, 20] ++ List.replicate 16 0

theorem overlong_read_behind : ¬ (isValidPacketReads sampleOverlong.length).Inside sampleOverlong.length
    (placed sampleOverlong fun _ => 0) := by
  decide +kernel

end Validator

/-! The loop over the records, whose condition looks at the first byte of a record only. -/

def readRecord (base i : Nat) : Reading ServerInformation := do
  let ipServer ← read32 (base + i)
  let rttToServer ← read32 (base + i + 4)
  let sentToServer ← read16 (base + i + 8)
  let receivedToServer ← read16 (base + i + 10)
  pure { ServerInformation.zero with
    rttTime := (swap32 rttToServer).toUInt16
    pingLostRate := lostRateOf receivedToServer sentToServer
    pingSent := swap16 sentToServer
    pingReceived := swap16 receivedToServer
    ip := ⟨swap32 ipServer, ipUintIntoStr (swap32 ipServer)⟩ }

def readRecords (base : Nat) : Nat → Reading (List ServerInformation)
  | 0 => pure []
  | n + 1 => do
    let records ← readRecords base n
    let record ← readRecord base (12 * n)
    pure (records ++ [record])

def advertiseSize (frame : Bytes) : Nat := frame.length - 42

/-- The passes of `receive_advertise_data` on the memory the frame stands in. -/
def receivedRecords (frame : Bytes) : Reading (List ServerInformation) :=
  readRecords 42 (recordCount (advertiseSize frame))

/-- The records that lie wholly in front of the four bytes at the end. -/
def wholeRecords (frame : Bytes) : List ServerInformation :=
  (List.range ((advertiseSize frame - 4) / 12)).map fun k => recordAt (frame.drop 42) (12 * k)

def callsOf (frame : Bytes) (records : List ServerInformation) : List (ServerInformation × IpInfo) :=
  records.map fun record => (record, ⟨ipSrc frame, ipUintIntoStr (ipSrc frame)⟩)

section Records

variable {frame : Bytes} {behind : Memory} {m : Memory} {n : Nat}

theorem inside_readRecord {base i length : Nat} : (readRecord base i).Inside length m ↔ base + i + 12 ≤ length := by
  rw [readRecord, inside_bind, inside_bind, inside_bind, inside_bind, inside_read32, inside_read32, inside_read16,
    inside_read16]
  simp only [inside_pure, and_true]
  omega

theorem inside_readRecords {base length : Nat} :
    (readRecords base n).Inside length m ↔ n = 0 ∨ base + 12 * n ≤ length := by
  induction n with
  | zero => simp [readRecords]
  | succ n ih =>
    rw [readRecords, inside_bind, inside_bind, inside_readRecord, ih]
    simp only [inside_pure, and_true]
    omega

theorem length_readRecords {base : Nat} : ((readRecords base n).value m).length = n := by
  induction n with
  | zero => rfl
  | succ n ih => rw [readRecords, value_bind, value_bind, value_pure, List.length_append, ih, List.length_singleton]

theorem value_readRecord {i : Nat} (h : 42 + i + 12 ≤ frame.length) :
    (readRecord 42 i).value (placed frame behind) = recordAt (frame.drop 42) i := by
  rw [readRecord, value_bind, value_bind, value_bind, value_bind, value_pure, value_read32 (by omega),
    value_read32 (by omega), value_read16 (by omega), value_read16 (by omega)]
  simp only [recordAt, word32_drop, word16_drop, Nat.add_assoc]

theorem value_readRecords (h : 42 + 12 * n ≤ frame.length) : (readRecords 42 n).value (placed frame behind) =
    (List.range n).map fun k => recordAt (frame.drop 42) (12 * k) := by
  induction n with
  | zero => rfl
  | succ n ih =>
    rw [readRecords, value_bind, value_bind, value_pure, ih (by omega), value_readRecord (by omega), List.range_succ,
      List.map_append, List.map_singleton]

/-- While it stays inside the frame, the loop does what `receiveAdvertiseData` does. -/
theorem learnAll_receivedRecords (h : (receivedRecords frame).Inside frame.length (placed frame behind))
    (t : ServerTable) : t.learnAll (callsOf frame ((receivedRecords frame).value (placed frame behind))) =
      t.receiveAdvertiseData (frame.drop 42) (ipSrc frame) := by
  rw [receivedRecords, inside_readRecords] at h
  have hlen : (frame.drop 42).length = advertiseSize frame := List.length_drop
  have hcount : 12 * recordCount (advertiseSize frame) ≤ advertiseSize frame := by
    rw [advertiseSize] at h ⊢
    omega
  have hvalue : (receivedRecords frame).value (placed frame behind) =
      (List.range (recordCount (advertiseSize frame))).map fun k => recordAt (frame.drop 42) (12 * k) := by
    rcases h with h | h
    · rw [receivedRecords, h]
      rfl
    · exact value_readRecords h
  have hd : decodeRecords (frame.drop 42) = some ((List.range (recordCount (frame.drop 42).length)).map fun k =>
      recordAt (frame.drop 42) (12 * k)) := decodeRecords_of_length (by rwa [hlen])
  rw [ServerTable.receiveAdvertiseData_eq, hd, Option.bind_some, hlen, hvalue, ServerTable.learnAll, callsOf,
    List.foldlM_map]

/-- Every byte read is one of the frame, the records processed are the whole ones, and no
address becomes known that is not in one of these. -/
structure WholeRecordsOnly (frame : Bytes) (behind : Memory) : Prop where
  inside : (receivedRecords frame).Inside frame.length (placed frame behind)
  records_eq : (receivedRecords frame).value (placed frame behind) = wholeRecords frame
  known : ∀ t u : ServerTable,
    t.learnAll (callsOf frame ((receivedRecords frame).value (placed frame behind))) = some u →
    ∀ uint ∈ u.keys, uint ∈ t.keys ∨ uint ∈ (wholeRecords frame).map (·.ip.uint)

theorem WholeRecordsOnly.recordCount_eq (h : WholeRecordsOnly frame behind) :
    recordCount (advertiseSize frame) = (advertiseSize frame - 4) / 12 := by
  have hlen := congrArg List.length h.records_eq
  rwa [receivedRecords, length_readRecords, wholeRecords, List.length_map, List.length_range] at hlen

/-- The loop keeps to the whole records if and only if the payload in front of its last
four bytes has no partial one. -/
theorem whole_records_only_iff (frame : Bytes) (behind : Memory) :
    WholeRecordsOnly frame behind ↔ advertiseSize frame ≤ 4 ∨ (advertiseSize frame - 4) % 12 = 0 := by
  constructor
  · intro h
    have hcount := h.recordCount_eq
    rw [recordCount] at hcount
    omega
  · intro h
    have hcount : recordCount (advertiseSize frame) = (advertiseSize frame - 4) / 12 := by
      rw [recordCount]
      omega
    have hroom : (advertiseSize frame - 4) / 12 = 0 ∨ 42 + 12 * ((advertiseSize frame - 4) / 12) ≤ frame.length := by
      rw [advertiseSize]
      omega
    have hrecords : (receivedRecords frame).value (placed frame behind) = wholeRecords frame := by
      rw [receivedRecords, hcount, wholeRecords]
      rcases hroom with hz | hle
      · rw [hz]
        rfl
      · exact value_readRecords hle
    refine ⟨?_, hrecords, fun t u hu uint hk => ?_⟩
    · rw [receivedRecords, hcount]
      exact inside_readRecords.mpr hroom
    · rw [hrecords] at hu
      rw [ServerTable.keys_learnAll hu, KeyIndex.mem_addAll, callsOf, List.map_map] at hk
      exact hk

/-- Five bytes of payload: the loop runs once and reads seven bytes behind the frame. -/
def sampleTrailing : Bytes :=
  (Machine.advertisePacket sampleIface 0xFFFFFFFF ⟨255, 255, 255, 255, 255, 255⟩ [9, 9, 9, 9, 0]).frame

theorem trailing_read_behind : isValidPacket sampleTrailing = some true ∧ ipP sampleTrailing = 17 ∧
    portDst sampleTrailing = 5000 ∧ ∀ behind, ¬ WholeRecordsOnly sampleTrailing behind := by
  refine ⟨by decide +kernel, by decide +kernel, by decide +kernel, fun behind h => ?_⟩
  have hcount : recordCount (advertiseSize sampleTrailing) = 1 ∧ (advertiseSize sampleTrailing - 4) / 12 = 0 := by
    decide +kernel
  rw [h.recordCount_eq, hcount.2] at hcount
  exact absurd hcount.1 (by decide)

end Records

end Overlay
