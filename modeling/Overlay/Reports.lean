import Overlay.Node
import Overlay.Binary64

/-! What an advertisement tells the node that receives it: the records are the live rows
of the sender, but the lost rate is the sender's only where exchanging the bytes of both
counters does not change their ratio. -/

namespace Overlay

open ByteMemory BestSlot

def high (n : UInt16) : Nat := n.toNat / 256

def low (n : UInt16) : Nat := n.toNat % 256

theorem toNat_swap16 (n : UInt16) : (swap16 n).toNat = 256 * low n + high n := toNat_swap16_eq n

/-- The bytes of two counters are in one ratio, so that exchanging them changes nothing. -/
def ByteProportional (received sent : UInt16) : Prop := low received * high sent = high received * low sent

instance (received sent : UInt16) : Decidable (ByteProportional received sent) :=
  inferInstanceAs (Decidable (_ = _))

theorem swapped_ratio_iff (received sent : UInt16) : (swap16 received).toNat * sent.toNat =
    received.toNat * (swap16 sent).toNat ↔ ByteProportional received sent := by
  have hr : received.toNat = 256 * high received + low received := by rw [high, low]; omega
  have hs : sent.toNat = 256 * high sent + low sent := by rw [high, low]; omega
  rw [toNat_swap16, toNat_swap16, ByteProportional, hr, hs]
  constructor <;> intro h <;> nlinarith

theorem lostRateOf_eq (received sent : UInt16) :
    lostRateOf received sent = UInt16.toFloat 1 - received.toFloat / sent.toFloat := by
  have h : (1 : Float) = UInt16.toFloat 1 := by decide
  rw [lostRateOf, h]

theorem swap16_pos {n : UInt16} (h : 0 < n.toNat) : 0 < (swap16 n).toNat := by
  rw [toNat_swap16, low, high]
  omega

/-- `record` is what a receiver of the table's advertisement reads for the live row `row`. -/
def Reports (t : ServerTable) (row record : ServerInformation) : Prop :=
  ∃ (data : Bytes) (records : List ServerInformation) (k : Nat), t.advertiseData = some data ∧
    decodeRecords data = some records ∧ (t.advertised t.configured)[k]? = some row ∧ records[k]? = some record

theorem Reports.eq {t : ServerTable} {row record : ServerInformation} (h : Reports t row record) :
    record = row.received := by
  obtain ⟨data, records, k, hd, hr, hrow, hrec⟩ := h
  rw [ServerTable.decodeRecords_advertiseData hd] at hr
  obtain rfl := Option.some.inj hr
  rw [List.getElem?_map, hrow] at hrec
  exact (Option.some.inj hrec).symm

theorem reports_row {t : ServerTable} {i : Nat} (h : 0 ≤ t.numberOfServers) (hi : i < t.configured)
    (hl : (t.serverInfoes i).rttTime ≠ 65535) : Reports t (t.serverInfoes i) (t.serverInfoes i).received := by
  have hd := ServerTable.advertiseData_eq h
  have hm : t.serverInfoes i ∈ t.advertised t.configured := by
    rw [ServerTable.advertised, List.mem_filter]
    exact ⟨List.mem_map.mpr ⟨i, List.mem_range.mpr hi, rfl⟩, by simpa using hl⟩
  obtain ⟨k, hk⟩ := List.mem_iff_getElem?.mp hm
  refine ⟨_, _, k, hd, ServerTable.decodeRecords_advertiseData hd, hk, ?_⟩
  rw [List.getElem?_map, hk]
  rfl

/-- One record for each live configured row, in table order and with its fields, or no
payload at all where the configured count is negative. -/
theorem advertisement_read_back (m : Machine) (ipDst : UInt32) (macDst : Mac) :
    m.table.numberOfServers < 0 ∧ m.table.advertiseData = none ∨
    ∃ data records, m.table.advertiseData = some data ∧
      (Machine.advertisePacket m.iface ipDst macDst data).frame.drop 42 = data ∧
      decodeRecords data = some records ∧
      (∀ (t : ServerTable) (ipSrc : UInt32), t.receiveAdvertiseData data ipSrc = records.foldlM
        (fun t serverInfo => t.updateLearningTable serverInfo ⟨ipSrc, ipUintIntoStr ipSrc⟩) t) ∧
      records.map (fun row => (row.ip.uint, row.rttTime, row.pingSent, row.pingReceived)) =
        (((List.range m.table.configured).filter fun i => (m.table.serverInfoes i).rttTime ≠ 65535).map
          m.table.serverInfoes).map fun row => (row.ip.uint, row.rttTime, row.pingSent, row.pingReceived) := by
  by_cases hn : m.table.numberOfServers < 0
  · exact Or.inl ⟨hn, by rw [ServerTable.advertiseData, if_pos hn]⟩
  · have hd := ServerTable.advertiseData_eq (t := m.table) (by omega)
    have hr := ServerTable.decodeRecords_advertiseData hd
    refine Or.inr ⟨_, _, hd, rfl, hr, fun t ipSrc => ?_, ?_⟩
    · rw [ServerTable.receiveAdvertiseData_eq, hr, Option.bind_some]
    · rw [List.map_map, ServerTable.advertised, List.filter_map]
      rfl

/-- The rate a receiver takes over is the sender's exactly for proportional counters, and
among such rates the order is that of the loss. -/
theorem received_lost_rate_iff {t u : ServerTable} {row row' record record' : ServerInformation}
    (h : Reports t row record) (h' : Reports u row' record')
    (hs : 1 ≤ row.pingSent.toNat) (hs' : 1 ≤ row'.pingSent.toNat)
    (hr : row.pingReceived.toNat ≤ row.pingSent.toNat) :
    (record.pingLostRate = lostRateOf row.pingReceived row.pingSent ↔
      ByteProportional row.pingReceived row.pingSent) ∧
    (ByteProportional row.pingReceived row.pingSent → 0 ≤ record.pingLostRate ∧ record.pingLostRate ≤ 1) ∧
    (ByteProportional row.pingReceived row.pingSent → ByteProportional row'.pingReceived row'.pingSent →
      (record.pingLostRate < record'.pingLostRate ↔
        row'.pingReceived.toNat * row.pingSent.toNat < row.pingReceived.toNat * row'.pingSent.toNat)) := by
  have hrate {t : ServerTable} {row record : ServerInformation} (h : Reports t row record)
      (hs : 1 ≤ row.pingSent.toNat) : record.pingLostRate = lostRateOf row.pingReceived row.pingSent ↔
        ByteProportional row.pingReceived row.pingSent := by
    rw [h.eq, ← swapped_ratio_iff]
    show lostRateOf (swap16 row.pingReceived) (swap16 row.pingSent) = _ ↔ _
    rw [lostRateOf_eq, lostRateOf_eq]
    exact Binary64.complement_eq_iff (swap16_pos hs) hs
  refine ⟨hrate h hs, fun hb => ?_, fun hb hb' => ?_⟩
  · have h0 : (0 : Float) = UInt16.toFloat 0 := by decide
    have h1 : (1 : Float) = UInt16.toFloat 1 := by decide
    rw [(hrate h hs).mpr hb, lostRateOf_eq, h0, h1]
    exact Binary64.complement_mem hs hr
  · rw [(hrate h hs).mpr hb, (hrate h' hs').mpr hb', lostRateOf_eq, lostRateOf_eq]
    exact Binary64.complement_lt_iff hs hs'

def countedTable (received sent : UInt16) : ServerTable :=
  { numberOfServers := 1, numberOfAllServers := 1, ipGateway := .zero, ipToId := fun _ => 0,
    serverInfoes := fun _ =>
      { ServerInformation.zero with rttTime := 10, pingSent := sent, pingReceived := received } }

theorem countedTable_reports (received sent : UInt16) : Reports (countedTable received sent)
    ((countedTable received sent).serverInfoes 0) ((countedTable received sent).serverInfoes 0).received :=
  reports_row (show (0 : Int) ≤ 1 by decide) (show 0 < 1 by decide) (show (10 : UInt16) ≠ 65535 by decide)

theorem received_lost_rate_small_counters :
    ((countedTable 1 2).serverInfoes 0).received.pingLostRate = lostRateOf 1 2 ∧
      ((countedTable 1 2).serverInfoes 0).received.pingLostRate <
        ((countedTable 1 4).serverInfoes 0).received.pingLostRate := by
  have h := received_lost_rate_iff (countedTable_reports 1 2) (countedTable_reports 1 4) (by decide)
    (by decide) (by decide)
  exact ⟨h.1.mpr (by decide), (h.2.2 (by decide) (by decide)).mpr (by decide)⟩

/-- One reply missing out of 256 makes the rate -65279. -/
theorem received_lost_rate_of_255_of_256 : ∃ t row record, Reports t row record ∧
    1 ≤ row.pingSent.toNat ∧ row.pingReceived.toNat ≤ row.pingSent.toNat ∧
    record.pingLostRate ≠ lostRateOf row.pingReceived row.pingSent ∧ ¬ 0 ≤ record.pingLostRate :=
  ⟨_, _, _, countedTable_reports 255 256, by decide, by decide, by decide, by decide⟩

end Overlay
