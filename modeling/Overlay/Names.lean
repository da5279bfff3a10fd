import Overlay.Entries
import Overlay.Lookup

/-! The text of an address and its number. The printer stops at the highest octet that is
not zero, so what it prints always reads back, but it prints a dotted address only if the
first octet is not zero. -/

namespace Overlay

open ByteMemory Execution

theorem ipUintIntoStr_injective : Function.Injective ipUintIntoStr :=
  Function.LeftInverse.injective ipIntoUint_ipUintIntoStr

/-- Four octets, written in decimal without leading zeros. -/
structure DottedQuad where
  o₀ : UInt8
  o₁ : UInt8
  o₂ : UInt8
  o₃ : UInt8

def decimal (octet : UInt8) : Str := (Nat.toDigits 10 octet.toNat).map Char.toUInt8

namespace DottedQuad

def text (q : DottedQuad) : Str := [46].intercalate [decimal q.o₀, decimal q.o₁, decimal q.o₂, decimal q.o₃]

def uint (q : DottedQuad) : UInt32 :=
  ((q.o₀.toUInt32 * 256 + q.o₁.toUInt32) * 256 + q.o₂.toUInt32) * 256 + q.o₃.toUInt32

end DottedQuad

theorem octetStr_toUInt32 (octet : UInt8) : octetStr octet.toUInt32 = decimal octet := by
  have hall : ∀ n < 256, octetStr (UInt8.ofNat n).toUInt32 = decimal (UInt8.ofNat n) := by decide +kernel
  have h := hall octet.toNat octet.toNat_lt
  rwa [UInt8.ofNat_toNat] at h

theorem parses_decimal (octet : UInt8) : Parses (decimal octet) octet.toUInt32 := by
  rw [← octetStr_toUInt32]
  apply parses_octetStr
  rw [UInt32.lt_iff_toNat_lt, UInt8.toNat_toUInt32]
  exact octet.toNat_lt

theorem length_octetStrs (n : Nat) (ipUint : UInt32) : (octetStrs n ipUint).length = n := by
  induction n generalizing ipUint with
  | zero => rfl
  | succ n ih =>
    rw [octetStrs]
    by_cases hz : ipUint = 0
    · rw [if_pos hz, List.length_replicate]
    · rw [if_neg hz, List.length_append, ih, List.length_singleton]

/-- An address whose highest octets are zero leaves them empty. -/
theorem octetStrs_succ_of_lt {n : Nat} {ipUint : UInt32} (h : ipUint.toNat < 256 ^ n) :
    ∃ rest, octetStrs (n + 1) ipUint = [] :: rest := by
  induction n generalizing ipUint with
  | zero =>
    have hz : ipUint = 0 := UInt32.toNat_inj.mp (by simpa using h)
    exact ⟨[], by rw [octetStrs, if_pos hz, List.replicate_one]⟩
  | succ n ih =>
    rw [octetStrs]
    by_cases hz : ipUint = 0
    · exact ⟨List.replicate (n + 1) [], by rw [if_pos hz, List.replicate_succ]⟩
    · have hlt : (ipUint / 256).toNat < 256 ^ n := by
        rw [UInt32.toNat_div]
        exact Nat.div_lt_of_lt_mul (by rw [Nat.mul_comm]; exact h)
      obtain ⟨rest, hr⟩ := ih hlt
      exact ⟨rest ++ [octetStr (ipUint % 256)], by rw [if_neg hz, hr, List.cons_append]⟩

theorem octetStrs_succ_octet {n : Nat} {front : UInt32} (octet : UInt8) (hf : front.toNat < 2 ^ 24)
    (hz : front * 256 + octet.toUInt32 ≠ 0) :
    octetStrs (n + 1) (front * 256 + octet.toUInt32) = octetStrs n front ++ [decimal octet] := by
  have ho := octet.toNat_lt
  have hn : (front * 256 + octet.toUInt32).toNat = front.toNat * 256 + octet.toNat := by
    simp only [UInt32.toNat_add, UInt32.toNat_mul, UInt8.toNat_toUInt32, UInt32.reduceToNat]
    omega
  have hlow : (front * 256 + octet.toUInt32) % 256 = octet.toUInt32 := by
    apply UInt32.toNat_inj.mp
    simp only [UInt32.toNat_mod, hn, UInt8.toNat_toUInt32, UInt32.reduceToNat]
    omega
  have hhigh : (front * 256 + octet.toUInt32) / 256 = front := by
    apply UInt32.toNat_inj.mp
    simp only [UInt32.toNat_div, hn, UInt32.reduceToNat]
    omega
  rw [octetStrs, if_neg hz, hlow, hhigh, octetStr_toUInt32]

namespace DottedQuad

variable (q : DottedQuad)

theorem toNat_uint : q.uint.toNat =
    ((q.o₀.toNat * 256 + q.o₁.toNat) * 256 + q.o₂.toNat) * 256 + q.o₃.toNat := by
  have h₀ := q.o₀.toNat_lt
  have h₁ := q.o₁.toNat_lt
  have h₂ := q.o₂.toNat_lt
  have h₃ := q.o₃.toNat_lt
  simp only [uint, UInt32.toNat_add, UInt32.toNat_mul, UInt8.toNat_toUInt32, UInt32.reduceToNat]
  omega

theorem ipIntoUint_text : ipIntoUint q.text = q.uint := by
  have hdot (sum part : UInt32) : ipIntoUintStep (sum, part) 46 = ((sum + part) * 256, 0) := rfl
  have ht : q.text = decimal q.o₀ ++ [46] ++ decimal q.o₁ ++ [46] ++ decimal q.o₂ ++ [46] ++ decimal q.o₃ := by
    simp [text, List.intercalate]
  rw [ht, ipIntoUint]
  simp only [List.foldl_append, List.foldl_cons, List.foldl_nil, parses_decimal q.o₀ _, parses_decimal q.o₁ _,
    parses_decimal q.o₂ _, parses_decimal q.o₃ _, hdot, UInt32.zero_add, uint]

theorem ipUintIntoStr_uint (h : q.o₀ ≠ 0) : ipUintIntoStr q.uint = q.text := by
  have h₀ : q.o₀.toNat ≠ 0 := fun hz => h (UInt8.toNat_inj.mp hz)
  have hlt₀ := q.o₀.toNat_lt
  have hlt₁ := q.o₁.toNat_lt
  have hlt₂ := q.o₂.toNat_lt
  set a := q.o₀.toUInt32
  set b := a * 256 + q.o₁.toUInt32
  set c := b * 256 + q.o₂.toUInt32
  have ha : a.toNat = q.o₀.toNat := UInt8.toNat_toUInt32 _
  have hb : b.toNat = q.o₀.toNat * 256 + q.o₁.toNat := by
    simp only [b, UInt32.toNat_add, UInt32.toNat_mul, UInt8.toNat_toUInt32, ha, UInt32.reduceToNat]
    omega
  have hc : c.toNat = (q.o₀.toNat * 256 + q.o₁.toNat) * 256 + q.o₂.toNat := by
    simp only [c, UInt32.toNat_add, UInt32.toNat_mul, UInt8.toNat_toUInt32, hb, UInt32.reduceToNat]
    omega
  have hne {x : UInt32} (hx : x.toNat ≠ 0) : x ≠ 0 := fun hz => hx (by rw [hz]; rfl)
  have hd := q.toNat_uint
  have hroom : c.toNat < 2 ^ 24 := by omega
  have hlast : octetStrs 4 q.uint = octetStrs 3 c ++ [decimal q.o₃] :=
    octetStrs_succ_octet q.o₃ hroom (hne (x := q.uint) (by omega))
  have hthird : octetStrs 3 c = octetStrs 2 b ++ [decimal q.o₂] :=
    octetStrs_succ_octet q.o₂ (by omega) (hne (x := c) (by omega))
  have hsecond : octetStrs 2 b = octetStrs 1 a ++ [decimal q.o₁] :=
    octetStrs_succ_octet q.o₁ (by omega) (hne (x := b) (by omega))
  have hfirst : octetStrs 1 a = [decimal q.o₀] := by
    have hm : a % 256 = a := by
      apply UInt32.toNat_inj.mp
      simp only [UInt32.toNat_mod, ha, UInt32.reduceToNat]
      omega
    rw [octetStrs, if_neg (hne (x := a) (by omega)), hm, octetStr_toUInt32]
    rfl
  rw [ipUintIntoStr, hlast, hthird, hsecond, hfirst]
  rfl

theorem ipUintIntoStr_uint_ne (h : q.o₀ = 0) : ipUintIntoStr q.uint ≠ q.text := by
  have h₁ := q.o₁.toNat_lt
  have h₂ := q.o₂.toNat_lt
  have h₃ := q.o₃.toNat_lt
  have hlt : q.uint.toNat < 256 ^ 3 := by
    rw [toNat_uint, h]
    show ((0 * 256 + q.o₁.toNat) * 256 + q.o₂.toNat) * 256 + q.o₃.toNat < 16777216
    omega
  obtain ⟨rest, hr⟩ := octetStrs_succ_of_lt hlt
  have hlen := length_octetStrs 4 q.uint
  rw [hr, List.length_cons] at hlen
  obtain ⟨s, rest, rfl⟩ := List.exists_cons_of_length_pos (show 0 < rest.length by omega)
  -- the printer starts with a dot, the address with its first zero
  have hzero : decimal 0 = [48] := by decide
  rw [ipUintIntoStr, hr, text, h, hzero]
  simp [List.intercalate]

theorem ipUintIntoStr_iff : ipUintIntoStr (ipIntoUint q.text) = q.text ↔ q.o₀ ≠ 0 := by
  rw [ipIntoUint_text]
  exact ⟨fun h hz => q.ipUintIntoStr_uint_ne hz h, q.ipUintIntoStr_uint⟩

end DottedQuad

namespace ServerTable

variable {t u : ServerTable}

/-- The row of a learned server holds the printed address. -/
def Printed (t : ServerTable) : Prop := ∀ i, t.configured ≤ i → i < t.known →
  (t.serverInfoes i).ip.str = ipUintIntoStr (t.serverInfoes i).ip.uint

theorem Initial.printed (h : t.Initial) : t.Printed := by
  intro i hc hk
  rw [known, h.counts] at hk
  exact absurd hk (Nat.not_lt.mpr hc)

theorem Printed.of_known_eq (h : t.Printed) (hx : t.Extends u) (hk : u.known = t.known) : u.Printed := by
  intro i hc hi
  rw [hx.configured] at hc
  rw [hk] at hi
  rw [hx.ip_eq i hi]
  exact h i hc hi

theorem Printed.updateLearningTable {serverInfo : ServerInformation} {ip : IpInfo} (h : t.Printed)
    (hs : t.getIndexByIp serverInfo.ip.uint = none → serverInfo.ip.str = ipUintIntoStr serverInfo.ip.uint)
    (he : t.updateLearningTable serverInfo ip = some u) : u.Printed := by
  have hx := extends_updateLearningTable he
  rcases updateLearningTable_cases he with ⟨id, _, rfl⟩ | ⟨hnone, h₀, _, rfl⟩
  · exact h.of_known_eq hx rfl
  · intro i hc hi
    have hk : ((t.inserted serverInfo).learnAt t.known serverInfo ip).known = t.known + 1 :=
      @known_inserted t serverInfo h₀
    rcases Nat.lt_succ_iff_lt_or_eq.mp (hk ▸ hi) with hi | rfl
    · rw [hx.configured] at hc
      rw [hx.ip_eq i hi]
      exact h i hc hi
    · rw [learnAt_serverInfoes_self]
      simpa only [inserted, setRow_serverInfoes, Function.update_self] using hs hnone

theorem Printed.step {te : TableEvent} (h : t.Printed) (hw : t.WellFormed) (he : t.step te = some u) :
    u.Printed := by
  have hx := extends_step he
  cases te with
  | ping clock =>
    obtain rfl := Option.some.inj he
    exact h.of_known_eq hx rfl
  | advertise =>
    obtain ⟨_, _, rfl⟩ := Option.map_eq_some_iff.mp he
    exact h.of_known_eq hx rfl
  | echo ip now sequenceId =>
    have hp : t.Extends u ∧ u.Printed := by
      refine receivePingPacket_induction (P := fun v => t.Extends v ∧ v.Printed) he ⟨.refl t, h⟩
        fun {i v w} hi hv _ hu => ?_
      have hset := extends_pingReceivedAt v i now
      have hk : i < v.known := (hi.trans_le hw.configured_le_known).trans_le hv.1.known
      refine ⟨(hv.1.trans hset).trans (extends_updateLearningTable hu), ?_⟩
      refine (hv.2.of_known_eq hset rfl).updateLearningTable (fun hnone => ?_) hu
      have hself := getIndexByIp_eq_none.mp hnone i hk
      rw [hset.ip_eq i hk, pingReceivedAt_ip] at hself
      exact absurd rfl hself
    exact hp.2
  | advertisement advertiseData ipSrc =>
    refine receiveAdvertiseData_induction (P := Printed) he h fun hd hr hv hu => hv.updateLearningTable (fun _ => ?_) hu
    rw [decodeRecords_eq hd] at hr
    obtain ⟨k, _, rfl⟩ := List.mem_map.mp hr
    rfl

end ServerTable

namespace Threads

variable {t u : Threads} {e : ThreadEvent} {out : List Sent}

/-- Every known row has a text that reads as its address, a learned one the printed address. -/
structure NamesRight (t : Threads) : Prop where
  named : t.machine.table.Named
  printed : t.machine.table.Printed

theorem NamesRight.step {t₀ : ServerTable} (hn : NamesRight t) (hs : Sound t₀ t)
    (h : t.step e = some (u, out)) : NamesRight u := by
  rcases frame_or_kept h with ⟨data, now, rfl, hf⟩ | ⟨_, hx, hk⟩
  · rcases frame_table hf with he | ⟨te, he⟩
    · exact ⟨he ▸ hn.named, he ▸ hn.printed⟩
    · exact ⟨hn.named.step hs.wellFormed he, hn.printed.step hs.wellFormed he⟩
  · exact ⟨hn.named.of_known_eq hx hk, hn.printed.of_known_eq hx hk⟩

theorem run_names {iface : Fin 2 → Interface} {info : Str} {m₀ : Machine} {h : List Moment}
    (hi : Machine.initializeMachine iface info = some m₀) (hr : Run step ⟨m₀, .idle⟩ h t) : NamesRight t := by
  have h₀ := (Machine.run_table hi .start).1
  have hp : Sound m₀.table t ∧ NamesRight t :=
    hr.invariant (P := fun t => Sound m₀.table t ∧ NamesRight t) ⟨run_sound hi .start, h₀.named, h₀.printed⟩
      fun hv he => ⟨hv.1.step he, hv.2.step hv.1 he⟩
  exact hp.2

/-- A printed address reads back, so no two addresses share a text, and no two learned
servers share the one they are shown under. -/
theorem printed_names_distinct : (∀ ipUint, ipIntoUint (ipUintIntoStr ipUint) = ipUint) ∧
    Function.Injective ipUintIntoStr ∧
    ∀ (iface : Fin 2 → Interface) (info : Str) (m₀ : Machine) (h : List Moment) (t : Threads),
      Machine.initializeMachine iface info = some m₀ → Run step ⟨m₀, .idle⟩ h t →
      ∀ i j, t.machine.table.configured ≤ i → i < t.machine.table.known → t.machine.table.configured ≤ j →
        j < t.machine.table.known → (t.row i).ip.uint ≠ (t.row j).ip.uint → (t.row i).ip.str ≠ (t.row j).ip.str := by
  refine ⟨ipIntoUint_ipUintIntoStr, ipUintIntoStr_injective, fun iface info m₀ h t hi hr i j hci hi' hcj hj hne he => ?_⟩
  have hp := (run_names hi hr).printed
  have hi : (t.row i).ip.str = ipUintIntoStr (t.row i).ip.uint := hp i hci hi'
  have hj : (t.row j).ip.str = ipUintIntoStr (t.row j).ip.uint := hp j hcj hj
  rw [hi, hj] at he
  exact hne (ipUintIntoStr_injective he)

section Learned

variable {iface : Fin 2 → Interface} {info : Str} {m₀ : Machine} {h : List Moment}

theorem learned_not_configured (hi : Machine.initializeMachine iface info = some m₀)
    (hr : Run step ⟨m₀, .idle⟩ h t) {i : Nat} (hc : m₀.table.configured ≤ i) (hk : i < t.machine.table.known) :
    ∀ j < m₀.table.configured, (m₀.table.serverInfoes j).ip.uint ≠ (t.row i).ip.uint := by
  intro j hj he
  have hknown := known_at_start hi
  obtain ⟨added, hadded, hnew⟩ := KeyIndex.addAll_eq m₀.table.keys (h.flatMap listedIn)
  rw [← run_keys hi hr] at hadded
  have hself : t.machine.table.keys[i]? = some (t.row i).ip.uint := by
    rw [ServerTable.keys, List.getElem?_map, List.getElem?_range hk]
    rfl
  have hlen : m₀.table.keys.length = m₀.table.configured := by
    rw [ServerTable.keys, List.length_map, List.length_range, hknown]
  rw [hadded, List.getElem?_append_right (by omega)] at hself
  exact hnew _ (List.mem_of_getElem? hself) (ServerTable.mem_keys.mpr ⟨j, hknown ▸ hj, he⟩)

/-- The printer gives back a dotted address if and only if its first octet is not zero. So
after an advertisement that lists it, the lookup by text finds it if and only if it is
configured under this text, or not configured at all and its first octet is not zero. -/
theorem dotted_address_kept_iff (q : DottedQuad) :
    (ipUintIntoStr (ipIntoUint q.text) = q.text ↔ q.o₀ ≠ 0) ∧
    ∀ (iface : Fin 2 → Interface) (info : Str) (m₀ : Machine) (h : List Moment) (t : Threads),
      Machine.initializeMachine iface info = some m₀ → Run step ⟨m₀, .idle⟩ h t →
      ipIntoUint q.text ∈ h.flatMap listedIn →
      ((∃ i, t.machine.table.getIndexByIp (ipIntoUint q.text) = some i) ∧
        (t.machine.table.isServerValid q.text = true ↔
          (∃ i < m₀.table.configured, (m₀.table.serverInfoes i).ip.str = q.text) ∨
          q.o₀ ≠ 0 ∧ ∀ i < m₀.table.configured, (m₀.table.serverInfoes i).ip.uint ≠ ipIntoUint q.text)) := by
  refine ⟨q.ipUintIntoStr_iff, fun iface info m₀ h t hi hr hl => ?_⟩
  have hx := (run_sound hi hr).extends_start
  have hn := run_names hi hr
  have hknown := known_at_start hi
  have hmem : ipIntoUint q.text ∈ t.machine.table.keys := by
    rw [run_keys hi hr]
    exact KeyIndex.mem_addAll.mpr (Or.inr hl)
  refine ⟨?_, ?_⟩
  · apply Option.ne_none_iff_exists'.mp
    exact fun hnone => ServerTable.getIndexByIp_eq_none_iff.mp hnone hmem
  · rw [ServerTable.isServerValid_iff]
    constructor
    · rintro ⟨i, hk, hs⟩
      by_cases hc : i < m₀.table.configured
      · exact Or.inl ⟨i, hc, by rw [← hs, hx.ip_eq i (hknown ▸ hc)]⟩
      · have hu := hn.named i hk
        have hp := hn.printed i (by rw [hx.configured]; omega) hk
        rw [hs] at hu hp
        rw [← hu] at hp
        refine Or.inr ⟨q.ipUintIntoStr_iff.mp hp.symm, ?_⟩
        rw [hu]
        exact learned_not_configured hi hr (Nat.not_lt.mp hc) hk
    · rintro (⟨i, hc, hs⟩ | ⟨hz, hnot⟩)
      · have hk : i < m₀.table.known := hknown ▸ hc
        exact ⟨i, hk.trans_le hx.known, by rw [hx.ip_eq i hk, hs]⟩
      · obtain ⟨i, hk, hu⟩ := ServerTable.mem_keys.mp hmem
        have hc : m₀.table.configured ≤ i := by
          by_contra hlt
          refine hnot i (by omega) ?_
          rw [← hx.ip_eq i (by omega), hu]
        have hp := hn.printed i (by rw [hx.configured]; omega) hk
        exact ⟨i, hk, by rw [hp, hu, q.ipUintIntoStr_iff.mpr hz]⟩

/-- A peer lists the address of `0.1.2.3`, which is then known as `.1.2.3`. -/
theorem dotted_address_lost : ∃ (q : DottedQuad) (m₀ : Machine) (h : List Moment) (t : Threads),
    q.text = ascii "0.1.2.3" ∧ ipUintIntoStr (ipIntoUint q.text) ≠ q.text ∧
    Machine.initializeMachine sampleIface sampleInfo = some m₀ ∧ Run step ⟨m₀, .idle⟩ h t ∧
    ipIntoUint q.text ∈ h.flatMap listedIn ∧ t.machine.table.isServerValid q.text = false := by
  obtain ⟨m₀, h, t, hi, hr, _, hl, hv⟩ := reaches sampleIface sampleInfo
    [.frame (sampleAdvertisement 0xC0A80002 [sampleRow 0x00010203 10 1 1]).data 0]
    (fun t h => ipIntoUint (DottedQuad.text ⟨0, 1, 2, 3⟩) ∈ h.flatMap listedIn ∧
      t.machine.table.isServerValid (DottedQuad.text ⟨0, 1, 2, 3⟩) = false) (by decide +kernel)
  exact ⟨⟨0, 1, 2, 3⟩, m₀, h, t, by decide, by decide +kernel, hi, hr, hl, hv⟩

end Learned

end Threads

end Overlay
