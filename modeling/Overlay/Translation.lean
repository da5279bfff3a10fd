import Overlay.Node
import Overlay.Checksums

/-! The address translation: what the stores of `rewrite` leave of a frame. The port is
stored at 34 or 36 and the address at 26 or 30, in the direction of the frame. -/

namespace Overlay

open ByteMemory OnesComplement

/-- `data` is `frame` with other MAC addresses, another port at `i` and another address
at `j`, and the checksum of its header. -/
structure Rewritten (frame data : Bytes) (shost dhost : Mac) (i : Nat) (port : UInt16) (j : Nat)
    (address : UInt32) : Prop where
  length_eq : data.length = frame.length
  shost_eq : readMac data 6 = shost
  dhost_eq : readMac data 0 = dhost
  port_eq : word16 data i = port
  address_eq : word32 data j = address
  word8_eq : ∀ k, 12 ≤ k → (k < 24 ∨ 26 ≤ k) → (k < i ∨ i + 2 ≤ k) → (k < j ∨ j + 4 ≤ k) →
    word8 data k = word8 frame k
  drop_eq : data.drop 42 = frame.drop 42
  sum_eq : ipHl frame = 5 → (word16 data 24).toNat =
    checksum (frontWords data + addressWords (word32 data 26) + addressWords (word32 data 30))

variable {frame data : Bytes} {shost dhost : Mac} {i j : Nat} {port : UInt16} {address : UInt32}

theorem ipHl_congr (h : word8 data 14 = word8 frame 14) : ipHl data = ipHl frame := by
  rw [ipHl, ipHl, h]

theorem checkSumIp_fill (h : ipHl data = 5) (hl : 26 ≤ data.length) (hz : word16 data 24 = 0) :
    let filled := patch data 24 (bytes16 (checkSumIp data 14 (ipHl data)))
    (word16 filled 24).toNat =
      checksum (frontWords filled + addressWords (word32 filled 26) + addressWords (word32 filled 30)) := by
  intro filled
  have hroom : 24 + (bytes16 (checkSumIp data 14 (ipHl data))).length ≤ data.length := by simpa using hl
  have hw (k : Nat) (hk : k + 2 ≤ 24 ∨ 26 ≤ k) : word16 filled k = word16 data k :=
    word16_patch_of_disjoint hroom hk
  have ha (k : Nat) (hk : k + 4 ≤ 24 ∨ 26 ≤ k) : word32 filled k = word32 data k :=
    word32_patch_of_disjoint hroom hk
  have hsum := headerSum_frame data
  rw [hz] at hsum
  have hfront : frontWords filled = frontWords data := by
    rw [frontWords, frontWords, hw 14 (by omega), hw 16 (by omega), hw 18 (by omega), hw 20 (by omega),
      hw 22 (by omega)]
  rw [word16_patch (by omega), toNat_checkSumIp data 14 (by omega), h, hfront, ha 26 (by omega), ha 30 (by omega)]
  congr 1

theorem rewrite_eq (shost dhost : Mac) (port : UInt16) (address : UInt32) (hl : 42 ≤ frame.length)
    (hi : i = 34 ∨ i = 36) (hj : j = 26 ∨ j = 30) :
    ∃ data, Machine.rewrite frame [(6, shost.bytes), (0, dhost.bytes), (i, bytes16 port), (j, bytes32 address)] =
      some data ∧ Rewritten frame data shost dhost i port j address := by
  have l₁ : 6 + shost.bytes.length ≤ frame.length := by show 12 ≤ _; omega
  set d₁ := patch frame 6 shost.bytes with hd₁
  have e₁ : d₁.length = frame.length := length_patch l₁
  have l₂ : 0 + dhost.bytes.length ≤ d₁.length := by show 6 ≤ _; omega
  set d₂ := patch d₁ 0 dhost.bytes with hd₂
  have e₂ : d₂.length = d₁.length := length_patch l₂
  have l₃ : i + (bytes16 port).length ≤ d₂.length := by simp; omega
  set d₃ := patch d₂ i (bytes16 port) with hd₃
  have e₃ : d₃.length = d₂.length := length_patch l₃
  have l₄ : j + (bytes32 address).length ≤ d₃.length := by simp; omega
  set d₄ := patch d₃ j (bytes32 address) with hd₄
  have e₄ : d₄.length = d₃.length := length_patch l₄
  have l₅ : 24 + (bytes16 0).length ≤ d₄.length := by simp; omega
  set d₅ := patch d₄ 24 (bytes16 0) with hd₅
  have e₅ : d₅.length = d₄.length := length_patch l₅
  have l₆ : 24 + (bytes16 (checkSumIp d₅ 14 (ipHl d₅))).length ≤ d₅.length := by simp; omega
  set data := patch d₅ 24 (bytes16 (checkSumIp d₅ 14 (ipHl d₅))) with hdata
  have hmac (mac : Mac) : mac.bytes.length = 6 := rfl
  have h16 (v : UInt16) : (bytes16 v).length = 2 := rfl
  have h32 (v : UInt32) : (bytes32 v).length = 4 := rfl
  have hkeep (k : Nat) (h₁ : 12 ≤ k) (h₂ : k < 24 ∨ 26 ≤ k) (h₃ : k < i ∨ i + 2 ≤ k)
      (h₄ : k < j ∨ j + 4 ≤ k) : word8 d₅ k = word8 frame k := by
    rw [hd₅, word8_patch_of_disjoint l₅ (by rw [h16]; omega), hd₄,
      word8_patch_of_disjoint l₄ (by rw [h32]; omega), hd₃, word8_patch_of_disjoint l₃ (by rw [h16]; omega),
      hd₂, word8_patch_of_disjoint l₂ (by rw [hmac]; omega), hd₁,
      word8_patch_of_disjoint l₁ (by rw [hmac]; omega)]
  refine ⟨data, ?_, ⟨?_, ?_, ?_, ?_, ?_, ?_, ?_, ?_⟩⟩
  · simp only [Machine.rewrite, List.cons_append, List.nil_append, List.foldlM_cons, List.foldlM_nil,
      Option.bind_eq_bind, store_eq l₁, ← hd₁, Option.bind_some, store_eq l₂, ← hd₂, store_eq l₃, ← hd₃,
      store_eq l₄, ← hd₄, store_eq l₅, ← hd₅, Option.pure_def, store_eq l₆, ← hdata]
  · rw [hdata, length_patch l₆, e₅, e₄, e₃, e₂, e₁]
  · rw [hdata, readMac_patch_of_disjoint l₆ (by omega), hd₅, readMac_patch_of_disjoint l₅ (by omega), hd₄,
      readMac_patch_of_disjoint l₄ (by omega), hd₃, readMac_patch_of_disjoint l₃ (by omega), hd₂,
      readMac_patch_of_disjoint l₂ (by rw [hmac]; omega), hd₁, readMac_patch (by omega)]
  · rw [hdata, readMac_patch_of_disjoint l₆ (by omega), hd₅, readMac_patch_of_disjoint l₅ (by omega), hd₄,
      readMac_patch_of_disjoint l₄ (by omega), hd₃, readMac_patch_of_disjoint l₃ (by omega), hd₂,
      readMac_patch (by omega)]
  · rw [hdata, word16_patch_of_disjoint l₆ (by rw [h16]; omega), hd₅,
      word16_patch_of_disjoint l₅ (by rw [h16]; omega), hd₄, word16_patch_of_disjoint l₄ (by rw [h32]; omega),
      hd₃, word16_patch (by omega)]
  · rw [hdata, word32_patch_of_disjoint l₆ (by rw [h16]; omega), hd₅,
      word32_patch_of_disjoint l₅ (by rw [h16]; omega), hd₄, word32_patch (by omega)]
  · intro k h₁ h₂ h₃ h₄
    rw [hdata, word8_patch_of_disjoint l₆ (by rw [h16]; omega)]
    exact hkeep k h₁ h₂ h₃ h₄
  · rw [hdata, drop_patch l₆ (by rw [h16]; omega), hd₅, drop_patch l₅ (by rw [h16]; omega), hd₄,
      drop_patch l₄ (by rw [h32]; omega), hd₃, drop_patch l₃ (by rw [h16]; omega), hd₂,
      drop_patch l₂ (by rw [hmac]; omega), hd₁, drop_patch l₁ (by rw [hmac]; omega)]
  · intro h
    have hhl : ipHl d₅ = 5 := (ipHl_congr (hkeep 14 (by omega) (by omega) (by omega) (by omega))).trans h
    exact checkSumIp_fill hhl (by omega) (word16_patch (by omega))

end Overlay
