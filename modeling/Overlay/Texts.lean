import Overlay.CommandLine
import Overlay.Negotiations

/-! What the client prints of addresses, and what its own readers make of such a text. -/

namespace Overlay

open ByteMemory

/-- A number as a stream prints it. -/
def printNumber (n : Nat) : Str := (Nat.toDigits 10 n).map Char.toUInt8

def printIP (ip : UInt32) : Str :=
  printNumber (ip >>> 24).toNat ++ ascii "." ++ printNumber ((ip >>> 16) &&& 0xFF).toNat ++ ascii "." ++
    printNumber ((ip >>> 8) &&& 0xFF).toNat ++ ascii "." ++ printNumber (ip &&& 0xFF).toNat

/-- `TO_HEX`. -/
def toHex (decNum : UInt8) : UInt8 := if decNum < 10 then decNum + 48 else decNum - 10 + 65

/-- The buffer `str`, whose last character is overwritten, up to its zero. -/
def printMac (mac : Mac) : Str :=
  let str := mac.bytes.flatMap fun (b : UInt8) => [toHex ((b >>> 4) &&& 0x0F), toHex (b &&& 0x0F), 58]
  (str.set 17 0).takeWhile (· ≠ 0)

/-- The lines for an interface. -/
def printInterfaceInformation (i : InterfaceInformation) : List Str :=
  [ascii "-- Type: Ethernet interface", ascii "-- MAC address: " ++ printMac i.mac,
    ascii "-- IP address: " ++ printIP i.ip, ascii "-- Network mask: " ++ printIP i.mask]

def printInterface (i : Nat) (information : InterfaceInformation) : List Str :=
  (if 0 < i then [ascii "---------------------"] else []) ++
    (ascii "Interface " ++ printNumber i ++ ascii ":") :: printInterfaceInformation information

def printInterfaces : Nat → List InterfaceInformation → List Str
  | _, [] => []
  | i, information :: interfaces => printInterface i information ++ printInterfaces (i + 1) interfaces

def printInterfacesInformation (interfaces : List InterfaceInformation) : List Str :=
  ascii "==========================================" :: (printInterfaces 0 interfaces ++
    [ascii "=========================================="])

def printNodeName (nodeName : Str) : Str :=
  if nodeName = [] then ascii "Node name not specified." else ascii "Node name: " ++ nodeName

/-- The lines of `printArguments` between its bars. -/
def printArguments (c : Configuration) : List Str :=
  [ascii "Server ip: " ++ printIP c.ip, ascii "Server port: " ++ printNumber c.port.toNat,
    ascii "Map name: " ++ c.client.mapName.text, printNodeName c.client.nodeName.text]

/-! Numbers. -/

theorem printNumber_of_lt {n : Nat} (h : n < 10) : printNumber n = [UInt8.ofNat (48 + n)] := by
  have hall : ∀ n < 10, printNumber n = [UInt8.ofNat (48 + n)] := by decide +kernel
  exact hall n h

theorem printNumber_snoc {n : Nat} (h : 10 ≤ n) : printNumber n = printNumber (n / 10) ++ [UInt8.ofNat (48 + n % 10)] := by
  have hlast := printNumber_of_lt (Nat.mod_lt n (by decide))
  rw [printNumber, Nat.toDigits_of_lt_base (Nat.mod_lt n (by decide))] at hlast
  rw [printNumber, Nat.toDigits_of_base_le (by decide) h, List.map_append, ← printNumber, hlast]

theorem printNumber_read (n : Nat) : IsDigits (printNumber n) ∧ decimalValue (printNumber n) = n ∧ printNumber n ≠ [] := by
  have hdigit {d : Nat} (hd : d < 10) : 48 ≤ UInt8.ofNat (48 + d) ∧ UInt8.ofNat (48 + d) ≤ 57 ∧
      (UInt8.ofNat (48 + d)).toNat = 48 + d := by
    have hall : ∀ d < 10, 48 ≤ UInt8.ofNat (48 + d) ∧ UInt8.ofNat (48 + d) ≤ 57 ∧
        (UInt8.ofNat (48 + d)).toNat = 48 + d := by decide
    exact hall d hd
  induction n using Nat.strong_induction_on with
  | _ n ih =>
    by_cases hn : n < 10
    · have hall : ∀ n < 10, IsDigits (printNumber n) ∧ decimalValue (printNumber n) = n ∧ printNumber n ≠ [] := by
        decide +kernel
      exact hall n hn
    · obtain ⟨hdigits, hvalue, -⟩ := ih (n / 10) (by omega)
      obtain ⟨hl, hu, hv⟩ := hdigit (Nat.mod_lt n (by decide))
      rw [printNumber_snoc (by omega)]
      refine ⟨?_, ?_, by simp⟩
      · intro c hc
        rcases List.mem_append.mp hc with hc | hc
        · exact hdigits c hc
        · rw [List.mem_singleton.mp hc]
          exact ⟨hl, hu⟩
      · rw [decimalValue, List.foldl_append, ← decimalValue, hvalue]
        simp only [List.foldl_cons, List.foldl_nil, hv]
        omega

theorem isOctet_printNumber {n : Nat} (h : n < 256) :
    IsOctet (printNumber n) ∧ decimalValue (printNumber n) = n ∧ printNumber n ≠ [] := by
  have hone {d : Nat} (hd : d < 10) : (printNumber d).length = 1 := by rw [printNumber_of_lt hd]; rfl
  have hmore {m k : Nat} (hm : (printNumber (m / 10)).length ≤ k) (hk : 1 ≤ k) : (printNumber m).length ≤ k + 1 := by
    by_cases hd : m < 10
    · rw [hone hd]
      omega
    · rw [printNumber_snoc (by omega), List.length_append, List.length_singleton]
      omega
  have hlength : (printNumber n).length ≤ 3 := hmore (hmore (hone (by omega)).le le_rfl) (by decide)
  obtain ⟨hdigits, hvalue, hne⟩ := printNumber_read n
  exact ⟨⟨hdigits, hlength, by omega⟩, hvalue, hne⟩

/-! Addresses. -/

def octetTexts (ip : UInt32) : List Str :=
  [ip.toNat / 2 ^ 24, ip.toNat / 2 ^ 16 % 256, ip.toNat / 2 ^ 8 % 256, ip.toNat % 256].map printNumber

theorem printIP_eq (ip : UInt32) : printIP ip = [46].intercalate (octetTexts ip) := by
  have hshift (k : Nat) (hk : k < 32) : (ip >>> UInt32.ofNat k).toNat = ip.toNat / 2 ^ k := by
    rw [UInt32.toNat_shiftRight, UInt32.toNat_ofNat', Nat.shiftRight_eq_div_pow]
    congr 2
    omega
  have hand (x : UInt32) : (x &&& 0xFF).toNat = x.toNat % 256 := by
    rw [UInt32.toNat_and]
    exact Nat.and_two_pow_sub_one_eq_mod x.toNat 8
  have h24 : (ip >>> 24).toNat = _ := hshift 24 (by decide)
  have h16 : (ip >>> 16).toNat = _ := hshift 16 (by decide)
  have h8 : (ip >>> 8).toNat = _ := hshift 8 (by decide)
  have hdot : ascii "." = [46] := by decide +kernel
  simp only [printIP, hand, h24, h16, h8, hdot, octetTexts]
  simp [List.intercalate]

theorem octetTexts_octets (ip : UInt32) : ∀ part ∈ octetTexts ip, IsOctet part ∧ part ≠ [] := by
  have hlt := ip.toNat_lt
  have hall : ∀ n ∈ [ip.toNat / 2 ^ 24, ip.toNat / 2 ^ 16 % 256, ip.toNat / 2 ^ 8 % 256, ip.toNat % 256], n < 256 := by
    simp only [List.forall_mem_cons]
    refine ⟨by omega, by omega, by omega, by omega, by simp⟩
  intro part hp
  obtain ⟨n, hn, rfl⟩ := List.mem_map.mp hp
  obtain ⟨hoctet, -, hne⟩ := isOctet_printNumber (hall n hn)
  exact ⟨hoctet, hne⟩

theorem octets_printIP (ip : UInt32) : octets (printIP ip) = octetTexts ip := by
  rw [printIP_eq, octets_intercalate (by simp [octetTexts]) fun part hp => (octetTexts_octets ip part hp).1]

theorem isAddress_printIP (ip : UInt32) : IsAddress (printIP ip) := by
  refine ⟨⟨?_, ?_⟩, ?_⟩
  · rw [octets_printIP]
    rfl
  · rw [octets_printIP]
    exact fun part hp => (octetTexts_octets ip part hp).1
  · rw [octets_printIP]
    exact fun hm => (octetTexts_octets ip [] hm).2 rfl

theorem address_printIP (ip : UInt32) : address (printIP ip) = ip.toNat := by
  have hlt := ip.toNat_lt
  have hvalue {n : Nat} (hn : n < 256) : decimalValue (printNumber n) = n := (isOctet_printNumber hn).2.1
  rw [address, octets_printIP, octetTexts]
  simp only [List.map_cons, List.map_nil, List.foldl_cons, List.foldl_nil]
  rw [hvalue (by omega), hvalue (by omega), hvalue (by omega), hvalue (by omega)]
  omega

/-! MAC addresses. -/

/-- The two digits of a byte. -/
structure HexDigits (b c d : UInt8) : Prop where
  not_sign : c ≠ 45 ∧ c ≠ 43
  not_space : isSpace c = false
  not_x : d ≠ 120 ∧ d ≠ 88
  not_zero : c ≠ 0 ∧ d ≠ 0
  value : ∃ v w, hexValue c = some v ∧ hexValue d = some w ∧ 16 * v + w = b

theorem hexDigits (b : UInt8) : HexDigits b (toHex ((b >>> 4) &&& 0x0F)) (toHex (b &&& 0x0F)) := by
  have hall : ∀ n < 256, let b := UInt8.ofNat n
      let c := toHex ((b >>> 4) &&& 0x0F)
      let d := toHex (b &&& 0x0F)
      (c ≠ 45 ∧ c ≠ 43) ∧ isSpace c = false ∧ (d ≠ 120 ∧ d ≠ 88) ∧ (c ≠ 0 ∧ d ≠ 0) ∧
        (hexValue c).bind (fun v => (hexValue d).map fun w => 16 * v + w) = some b := by decide +kernel
  obtain ⟨hsign, hspace, hx, hzero, hvalue⟩ := hall b.toNat b.toNat_lt
  rw [UInt8.ofNat_toNat] at hsign hspace hx hzero hvalue
  obtain ⟨v, hv, hvalue⟩ := Option.bind_eq_some_iff.mp hvalue
  obtain ⟨w, hw, hb⟩ := Option.map_eq_some_iff.mp hvalue
  exact ⟨hsign, hspace, hx, hzero, v, w, hv, hw, hb⟩

theorem HexDigits.scan {b c d : UInt8} (h : HexDigits b c d) (rest : Str) : scanHex (c :: d :: rest) = some (b.toUInt32, rest) := by
  obtain ⟨v, w, hv, hw, hb⟩ := h.value
  have hdrop : (c :: d :: rest).dropWhile isSpace = c :: d :: rest := by
    rw [List.dropWhile_cons, h.not_space]
    rfl
  unfold scanHex
  rw [hdrop]
  split
  next he => cases he
  next he => exact absurd (List.cons.inj he).1 h.not_sign.1
  next he => exact absurd (List.cons.inj he).1 h.not_sign.2
  next he =>
    obtain ⟨rfl, rfl⟩ := List.cons.inj he
    simp only [hv, hw, hb, h.not_x.1, h.not_x.2, decide_false, Bool.or_self, Bool.and_false, Bool.false_eq_true,
      if_false, Option.map_some]

theorem scanFields_cons (b : UInt8) (n : Nat) (rest : Str) :
    scanFields (n + 1) (toHex ((b >>> 4) &&& 0x0F) :: toHex (b &&& 0x0F) :: 58 :: rest) =
      b.toUInt32 :: scanFields n rest := by
  rw [scanFields, (hexDigits b).scan]
  rfl

theorem scanFields_last (b : UInt8) (n : Nat) :
    scanFields (n + 1) [toHex ((b >>> 4) &&& 0x0F), toHex (b &&& 0x0F)] = [b.toUInt32] := by
  rw [scanFields, (hexDigits b).scan]

theorem printMac_eq (b₀ b₁ b₂ b₃ b₄ b₅ : UInt8) : printMac ⟨b₀, b₁, b₂, b₃, b₄, b₅⟩ =
    [b₀, b₁, b₂, b₃, b₄].flatMap (fun b : UInt8 => [toHex ((b >>> 4) &&& 0x0F), toHex (b &&& 0x0F), 58]) ++
      [toHex ((b₅ >>> 4) &&& 0x0F), toHex (b₅ &&& 0x0F)] := by
  have hne (b : UInt8) : toHex ((b >>> 4) &&& 0x0F) ≠ 0 ∧ toHex (b &&& 0x0F) ≠ 0 := (hexDigits b).not_zero
  simp [printMac, Mac.bytes, hne]

theorem bytes32_toUInt32 (b : UInt8) : bytes32 b.toUInt32 = [b, 0, 0, 0] := by
  have hb := b.toNat_lt
  rw [bytes32, UInt8.toNat_toUInt32, Nat.div_eq_of_lt (by omega), Nat.div_eq_of_lt (by omega),
    Nat.div_eq_of_lt (by omega), UInt8.ofNat_toNat]
  rfl

/-- The zeros that a field of two digits puts behind its byte are overwritten by the next ones. -/
theorem macIntoByte_printMac (mac : Mac) : macIntoByte (printMac mac) = mac := by
  obtain ⟨b₀, b₁, b₂, b₃, b₄, b₅⟩ := mac
  have hne (b : UInt8) : toHex ((b >>> 4) &&& 0x0F) ≠ 0 ∧ toHex (b &&& 0x0F) ≠ 0 := (hexDigits b).not_zero
  have htext : (printMac ⟨b₀, b₁, b₂, b₃, b₄, b₅⟩).takeWhile (· ≠ 0) = printMac ⟨b₀, b₁, b₂, b₃, b₄, b₅⟩ := by
    simp [printMac_eq, hne]
  rw [macIntoByte, htext, printMac_eq]
  simp only [List.flatMap_cons, List.flatMap_nil, List.cons_append, List.nil_append, List.append_nil, scanFields_cons,
    scanFields_last, storeFields, bytes32_toUInt32]
  rfl

/-! What a printed text tells. -/

theorem parseIP_printIP (ip res : UInt32) : (parseIP (printIP ip) res).accepted = true ∧ (parseIP (printIP ip) res).res = ip := by
  have hfour := (isAddress_printIP ip).toFourOctets
  refine ⟨(parseIP_accepted_iff _ _).mpr hfour, UInt32.toNat_inj.mp ?_⟩
  rw [toNat_parseIP hfour, address_printIP]

theorem no_zero_printNumber (n : Nat) : 0 ∉ printNumber n := fun hm =>
  absurd ((printNumber_read n).1 0 hm).1 (by decide)

theorem parsePort_printNumber (port res : UInt16) :
    (parsePort ⟨printNumber port.toNat, no_zero_printNumber _⟩ res).accepted = true ∧
      (parsePort ⟨printNumber port.toNat, no_zero_printNumber _⟩ res).res = port := by
  obtain ⟨hdigits, hvalue, -⟩ := printNumber_read port.toNat
  have hlt := port.toNat_lt
  refine ⟨(parsePort_accepted_iff _ _).mpr ⟨hdigits, Or.inl ?_⟩, UInt16.toNat_inj.mp ?_⟩
  · show decimalValue (printNumber port.toNat) % _ < _
    omega
  · exact (toNat_parsePort hdigits (by show decimalValue (printNumber port.toNat) ≤ _; omega) res).trans hvalue

theorem printIP_inj {ip ip' : UInt32} (h : printIP ip = printIP ip') : ip = ip' := by
  apply UInt32.toNat_inj.mp
  rw [← address_printIP, h, address_printIP]

theorem printNumber_inj {n m : Nat} (h : printNumber n = printNumber m) : n = m := by
  rw [← (printNumber_read n).2.1, h, (printNumber_read m).2.1]

theorem printInterfaceInformation_inj {i j : InterfaceInformation}
    (h : printInterfaceInformation i = printInterfaceInformation j) : i = j := by
  obtain ⟨mac, ip, mask⟩ := i
  obtain ⟨mac', ip', mask'⟩ := j
  simp only [printInterfaceInformation, List.cons.injEq, List.append_cancel_left_eq, and_true, true_and] at h
  obtain ⟨hmac, hip, hmask⟩ := h
  obtain rfl : mac = mac' := by rw [← macIntoByte_printMac mac, hmac, macIntoByte_printMac]
  obtain rfl := printIP_inj hip
  obtain rfl := printIP_inj hmask
  rfl

theorem printInterface_inj {k : Nat} {i j : InterfaceInformation} {rest rest' : List Str}
    (h : printInterface k i ++ rest = printInterface k j ++ rest') : i = j ∧ rest = rest' := by
  obtain ⟨hlines, hrest⟩ := List.append_inj h (by simp [printInterface, printInterfaceInformation])
  have hlines := List.append_cancel_left hlines
  exact ⟨printInterfaceInformation_inj (List.cons.inj hlines).2, hrest⟩

theorem printInterfaces_inj {k : Nat} {l l' : List InterfaceInformation} {bar : Str}
    (h : printInterfaces k l ++ [bar] = printInterfaces k l' ++ [bar]) : l = l' := by
  have hlong (k : Nat) (i : InterfaceInformation) (rest : List Str) : [bar] ≠ printInterface k i ++ rest := by
    intro he
    have hlen := congrArg List.length he
    simp [printInterface, printInterfaceInformation] at hlen
    omega
  induction l generalizing k l' with
  | nil =>
    cases l' with
    | nil => rfl
    | cons j l' =>
      rw [printInterfaces, printInterfaces, List.append_assoc] at h
      exact absurd h (hlong k j _)
  | cons i l ih =>
    cases l' with
    | nil =>
      rw [printInterfaces, printInterfaces, List.append_assoc] at h
      exact absurd h.symm (hlong k i _)
    | cons j l' =>
      rw [printInterfaces, printInterfaces, List.append_assoc, List.append_assoc] at h
      obtain ⟨rfl, hrest⟩ := printInterface_inj h
      rw [ih hrest]

/-- The client's own readers take back what it prints of addresses and ports, and read the same. -/
theorem printed_addresses_read_back (mac : Mac) (ip res : UInt32) (port portRes : UInt16) :
    macIntoByte (printMac mac) = mac ∧
    (IsAddress (printIP ip) ∧ (parseIP (printIP ip) res).accepted = true ∧ (parseIP (printIP ip) res).res = ip ∧
      ipIntoUint (printIP ip) = ip) ∧
    IsPort (printNumber port.toNat) ∧
      (parsePort ⟨printNumber port.toNat, no_zero_printNumber _⟩ portRes).accepted = true ∧
      (parsePort ⟨printNumber port.toNat, no_zero_printNumber _⟩ portRes).res = port := by
  have haddress := isAddress_printIP ip
  obtain ⟨hdigits, hvalue, hne⟩ := printNumber_read port.toNat
  have hlt := port.toNat_lt
  obtain ⟨haccepted, hip⟩ := parseIP_printIP ip res
  refine ⟨macIntoByte_printMac mac, ⟨haddress, haccepted, hip, ?_⟩, ⟨hne, hdigits, by omega⟩, parsePort_printNumber port portRes⟩
  apply UInt32.toNat_inj.mp
  rw [toNat_ipIntoUint haddress.toFourOctets, address_printIP]

theorem printNodeName_inj {s t : Str} (h : printNodeName s = printNodeName t) : s = t := by
  have hother (t : Str) : ascii "Node name not specified." ≠ ascii "Node name: " ++ t := by
    intro he
    have hprefix := congrArg (List.take 11) he
    rw [List.take_append_of_le_length (by decide +kernel)] at hprefix
    exact absurd hprefix (by decide +kernel)
  unfold printNodeName at h
  split_ifs at h with hs ht ht
  · exact hs.trans ht.symm
  · exact absurd h (hother t)
  · exact absurd h.symm (hother s)
  · exact List.append_cancel_left h

/-- What is printed when the simulation starts tells the interfaces apart, and what is printed
before the connection tells the server, the map and the node. -/
theorem printed_information_iff (l l' : List InterfaceInformation) (c c' : Configuration) :
    (printInterfacesInformation l = printInterfacesInformation l' ↔ l = l') ∧
    (printArguments c = printArguments c' ↔ c.ip = c'.ip ∧ c.port = c'.port ∧
      c.client.mapName.text = c'.client.mapName.text ∧ c.client.nodeName.text = c'.client.nodeName.text) := by
  constructor
  · exact ⟨fun h => printInterfaces_inj (List.cons.inj h).2, fun h => h ▸ rfl⟩
  · simp only [printArguments, List.cons.injEq, List.append_cancel_left_eq, and_true]
    constructor
    · rintro ⟨hip, hport, hmap, hnode⟩
      exact ⟨printIP_inj hip, UInt16.toNat_inj.mp (printNumber_inj hport), hmap, printNodeName_inj hnode⟩
    · rintro ⟨hip, hport, hmap, hnode⟩
      rw [hip, hport, hmap, hnode]
      exact ⟨rfl, rfl, rfl, rfl⟩

end Overlay
