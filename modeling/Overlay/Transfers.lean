import Overlay.Dialogues
import Overlay.SendOrReceive

/-! The transfer loop makes the calls of a program that asks for whole pieces: what it
receives into memory is what the program is given, and what it sends is what the program says. -/

namespace Overlay

open ByteMemory Windows Dialogues

variable {α : Type} {errorCode : Int} {size buf : Nat} {memory : Nat → UInt8} {socket : Socket}

theorem calls_receive_part (next : Option Bytes → Dialogue UInt8 α) {data : Bytes} (h : data.length < size) :
    (Dialogue.receive size next).call (.arrived data) =
      some (.receive (size - data.length) fun more => next (more.map (data ++ ·)), []) := if_pos h

/-- Pieces that make up the size, the last one cut. -/
theorem calls_receive (next : Option Bytes → Dialogue UInt8 α) {l : List Bytes} (hne : l ≠ [])
    (h : size ≤ l.flatten.length) : ∃ pieces : List Bytes, pieces.flatten = l.flatten.take size ∧
      (Dialogue.receive size next).Calls (pieces.map .arrived) (next (some (l.flatten.take size))) [] := by
  induction l generalizing size next with
  | nil => exact absurd rfl hne
  | cons data l ih =>
    by_cases hd : size ≤ data.length
    · have htake : (data.take size).length = size := List.length_take_of_le hd
      have hcall : (Dialogue.receive size next).call (.arrived (data.take size)) = some (next (some (data.take size)), []) := by
        simp [Dialogue.call, htake]
      refine ⟨[data.take size], ?_, ?_⟩
      · simp [List.take_append_of_le_length hd]
      · rw [List.flatten_cons, List.take_append_of_le_length hd]
        exact .single hcall
    · have hlt : data.length < size := by omega
      rw [List.flatten_cons, List.length_append] at h
      have hl : l ≠ [] := by
        rintro rfl
        simp at h
        omega
      obtain ⟨pieces, hpieces, hcalls⟩ := @ih (size - data.length) (fun more => next (more.map (data ++ ·))) hl
        (by omega)
      have htake : (data :: l).flatten.take size = data ++ l.flatten.take (size - data.length) := by
        rw [List.flatten_cons, List.take_append, List.take_of_length_le hlt.le]
      refine ⟨data :: pieces, by rw [List.flatten_cons, hpieces, htake], ?_⟩
      rw [htake]
      exact (Dialogue.Calls.single (calls_receive_part next hlt)).trans hcalls

theorem calls_receive_failed (next : Option Bytes → Dialogue UInt8 α) {l : List Bytes} (h : l.flatten.length < size) :
    (Dialogue.receive size next).Calls (l.map .arrived ++ [.failed]) (next none) [] := by
  induction l generalizing size next with
  | nil => exact .single rfl
  | cons data l ih =>
    rw [List.flatten_cons, List.length_append] at h
    have hrest := @ih (size - data.length) (fun more => next (more.map (data ++ ·))) (by omega)
    exact (Dialogue.Calls.single (calls_receive_part next (by omega))).trans hrest

theorem calls_send_part (next : Bool → Dialogue UInt8 α) {data : Bytes} {n : Nat} (h : n < data.length) :
    (Dialogue.send data next).call (.took n) = some (.send (data.drop n) next, data.take n) := if_pos h

theorem calls_send (next : Bool → Dialogue UInt8 α) {data : Bytes} {l : List Nat} (hne : l ≠ []) (h : data.length ≤ l.sum) :
    ∃ parts : List Nat, (Dialogue.send data next).Calls (parts.map .took) (next true) data := by
  induction l generalizing data with
  | nil => exact absurd rfl hne
  | cons n l ih =>
    by_cases hn : data.length ≤ n
    · have hcall : (Dialogue.send data next).call (.took data.length) = some (next true, data) := by
        simp [Dialogue.call]
      exact ⟨[data.length], .single hcall⟩
    · rw [List.sum_cons] at h
      have hl : l ≠ [] := by
        rintro rfl
        simp at h
        omega
      obtain ⟨parts, hcalls⟩ := @ih (data.drop n) hl (by rw [List.length_drop]; omega)
      refine ⟨n :: parts, ?_⟩
      have hall := (Dialogue.Calls.single (calls_send_part next (by omega : n < data.length))).trans hcalls
      rwa [List.take_append_drop] at hall

theorem calls_send_failed (next : Bool → Dialogue UInt8 α) {data : Bytes} {l : List Nat} (h : l.sum < data.length) :
    (Dialogue.send data next).Calls (l.map .took ++ [.failed]) (next false) (data.take l.sum) := by
  induction l generalizing data with
  | nil => exact .single rfl
  | cons n l ih =>
    rw [List.sum_cons] at h
    have hrest := @ih (data.drop n) (by rw [List.length_drop]; omega)
    have hall := (Dialogue.Calls.single (calls_send_part next (by omega : n < data.length))).trans hrest
    rwa [← List.take_add, ← List.sum_cons] at hall

/-- What is received is what the program is given. -/
theorem receive_calls (next : Option Bytes → Dialogue UInt8 α) :
    let transfer := sendOrReceive false errorCode size buf memory socket
    (transfer.returned = some true → ∃ pieces : List Bytes, (Dialogue.receive size next).Calls (pieces.map .arrived)
      (next (some (window transfer.memory buf size))) []) ∧
    (transfer.returned = some false → ∃ pieces : List Bytes, (Dialogue.receive size next).Calls
      (pieces.map .arrived ++ [.failed]) (next none) []) := by
  obtain ⟨l, t, ht, htail⟩ : ∃ (l : List Bytes) (t : List (Option Bytes)), socket.incoming = l.map some ++ t ∧
      (t = [] ∨ ∃ rest, t = none :: rest) := by
    rcases failure_or_pieces socket.incoming with ⟨l, hl⟩ | ⟨l, rest, hl⟩
    · exact ⟨l, [], by rw [hl, List.append_nil], Or.inl rfl⟩
    · exact ⟨l, none :: rest, hl, Or.inr ⟨rest, rfl⟩⟩
  have hsocket : socket = { socket with incoming := l.map some ++ t } := by rw [← ht]
  rw [hsocket, sendOrReceive]
  by_cases hshort : l.flatten.length < size
  · rw [receive_parts hshort]
    rcases htail with rfl | ⟨rest, rfl⟩
    · rw [receive_blocked]
      exact ⟨(fun h => nomatch h), fun h => nomatch h⟩
    · rw [receive_failed]
      exact ⟨(fun h => nomatch h), fun _ => ⟨l, calls_receive_failed next hshort⟩⟩
  · by_cases hne : l = []
    · subst hne
      rw [List.map_nil, List.nil_append]
      rcases htail with rfl | ⟨rest, rfl⟩
      · rw [receive_blocked]
        exact ⟨(fun h => nomatch h), fun h => nomatch h⟩
      · rw [receive_failed]
        exact ⟨(fun h => nomatch h), fun _ => ⟨[], .single rfl⟩⟩
    · obtain ⟨left, -, hwhole⟩ := @receive_whole errorCode size buf memory socket l hne (by omega)
      rw [hwhole]
      have hlen : (l.flatten.take size).length = size := List.length_take_of_le (by omega)
      have hwindow : window (overwrite memory buf (l.flatten.take size)) buf size = l.flatten.take size := by
        have h := @window_overwrite _ memory buf (l.flatten.take size)
        rwa [hlen] at h
      refine ⟨fun _ => ?_, fun h => nomatch h⟩
      obtain ⟨pieces, -, hcalls⟩ := calls_receive next hne (by omega : size ≤ l.flatten.length)
      rw [hwindow]
      exact ⟨pieces, hcalls⟩

/-- What the program says is what is sent. -/
theorem send_calls (next : Bool → Dialogue UInt8 α) {data : Bytes} (hd : window memory buf data.length = data) :
    let transfer := sendOrReceive true errorCode data.length buf memory socket
    (transfer.returned = some true → ∃ answers, (Dialogue.send data next).Calls answers (next true) data ∧
      transfer.socket.outgoing = socket.outgoing ++ data) ∧
    (transfer.returned = some false → ∃ answers sent, (Dialogue.send data next).Calls answers (next false) sent ∧
      transfer.socket.outgoing = socket.outgoing ++ sent) := by
  obtain ⟨l, t, ht, htail⟩ : ∃ (l : List Nat) (t : List (Option Nat)), socket.accepting = l.map some ++ t ∧
      (t = [] ∨ ∃ rest, t = none :: rest) := by
    rcases failure_or_pieces socket.accepting with ⟨l, hl⟩ | ⟨l, rest, hl⟩
    · exact ⟨l, [], by rw [hl, List.append_nil], Or.inl rfl⟩
    · exact ⟨l, none :: rest, hl, Or.inr ⟨rest, rfl⟩⟩
  have hsocket : socket = { socket with accepting := l.map some ++ t } := by rw [← ht]
  have hpart (n : Nat) (hn : n ≤ data.length) : window memory buf n = data.take n := by
    obtain ⟨k, hk⟩ := Nat.exists_eq_add_of_le hn
    rw [hk, window_add] at hd
    rw [← hd, List.take_left' (length_window buf n)]
  rw [hsocket, sendOrReceive]
  by_cases hshort : l.sum < data.length
  · rw [send_parts hshort]
    rcases htail with rfl | ⟨rest, rfl⟩
    · rw [transferLoop_blocked rfl]
      exact ⟨(fun h => nomatch h), fun h => nomatch h⟩
    · have hfailed := @send_failed errorCode (data.length - l.sum) (buf + l.sum) memory
        { socket with outgoing := socket.outgoing ++ window memory buf l.sum } rest
      rw [hfailed, hpart l.sum hshort.le]
      exact ⟨(fun h => nomatch h), fun _ => ⟨_, _, calls_send_failed next hshort, rfl⟩⟩
  · by_cases hne : l = []
    · subst hne
      rw [List.map_nil, List.nil_append]
      rcases htail with rfl | ⟨rest, rfl⟩
      · rw [transferLoop_blocked rfl]
        exact ⟨(fun h => nomatch h), fun h => nomatch h⟩
      · rw [send_failed]
        exact ⟨(fun h => nomatch h), fun _ => ⟨[.failed], [], .single rfl, (List.append_nil _).symm⟩⟩
    · obtain ⟨k, hwhole⟩ := @send_whole errorCode data.length buf memory socket l hne (by omega)
      rw [hwhole, hd]
      obtain ⟨parts, hcalls⟩ := calls_send next hne (by omega : data.length ≤ l.sum)
      exact ⟨fun _ => ⟨_, hcalls, rfl⟩, fun h => nomatch h⟩

end Overlay
