import Overlay.Resumption

/-! The commands that a node sends once the simulation runs, as calls on the socket and as
bytes, and what the server reads: a stream of whole commands determines them. -/

namespace Overlay

open ByteMemory Dialogues

/-- A frame, or a new address or mask of an interface. -/
inductive SimulationCommand
  | sendFrame (frame : Bytes) (ifaceIndex : UInt32)
  | changeIPAddress (newIP ifaceIndex : UInt32)
  | changeNetmask (newNetmask ifaceIndex : UInt32)
  deriving DecidableEq

/-- What a command returns, and what it adds to `sentBytes`. -/
structure Returned where
  res : Bool
  counted : Nat
  deriving DecidableEq

def realSendFrameCalls (frame : Bytes) (ifaceIndex : UInt32) : Dialogue UInt8 Returned :=
  if frame.length < 14 ∨ 65536 - 4 ≤ frame.length then .done ⟨false, 0⟩
  else .send (bytes32 (swap32 sendFrameCommand) ++ bytes16 (swap16 (UInt16.ofNat (4 + frame.length))) ++
      bytes32 (swap32 ifaceIndex)) fun
    | false => .done ⟨false, 0⟩
    | true => .send frame fun
      | false => .done ⟨false, 0⟩
      | true => .done ⟨true, frame.length⟩

/-- `realNotifyChangeOfIPAddress` and `realNotifyChangeOfNetmask`, with their command. -/
def notifyChange (type ifaceIndex value : UInt32) : Dialogue UInt8 Returned :=
  .send (numbers [type, ifaceIndex, value]) fun res => .done ⟨res, 0⟩

def realNotifyChangeOfIPAddress (newIP ifaceIndex : UInt32) : Dialogue UInt8 Returned := notifyChange 2 ifaceIndex newIP

def realNotifyChangeOfNetmask (newNetmask ifaceIndex : UInt32) : Dialogue UInt8 Returned :=
  notifyChange 3 ifaceIndex newNetmask

namespace SimulationCommand

def calls : SimulationCommand → Dialogue UInt8 Returned
  | .sendFrame frame ifaceIndex => realSendFrameCalls frame ifaceIndex
  | .changeIPAddress newIP ifaceIndex => realNotifyChangeOfIPAddress newIP ifaceIndex
  | .changeNetmask newNetmask ifaceIndex => realNotifyChangeOfNetmask newNetmask ifaceIndex

/-- Nothing is sent for a frame that is too short or too long. -/
def bytes : SimulationCommand → Bytes
  | .sendFrame frame ifaceIndex => (realSendFrame frame ifaceIndex).getD []
  | .changeIPAddress newIP ifaceIndex => numbers [2, ifaceIndex, newIP]
  | .changeNetmask newNetmask ifaceIndex => numbers [3, ifaceIndex, newNetmask]

/-- The frame is refused with error 31. -/
def Refused : SimulationCommand → Prop
  | .sendFrame frame _ => frame.length < 14 ∨ 65536 - 4 ≤ frame.length
  | _ => False

instance : (c : SimulationCommand) → Decidable c.Refused
  | .sendFrame frame _ => inferInstanceAs (Decidable (frame.length < 14 ∨ 65536 - 4 ≤ frame.length))
  | .changeIPAddress _ _ => inferInstanceAs (Decidable False)
  | .changeNetmask _ _ => inferInstanceAs (Decidable False)

/-- What a command that was sent adds to `sentBytes`. -/
def counted : SimulationCommand → Nat
  | .sendFrame frame _ => frame.length
  | _ => 0

/-- What a command can return. -/
def Result (c : SimulationCommand) (r : Returned) : Prop := r = ⟨true, c.counted⟩ ∧ ¬ c.Refused ∨ r = ⟨false, 0⟩

variable {c : SimulationCommand}

theorem calls_of_refused (h : c.Refused) : c.calls = .done ⟨false, 0⟩ := by
  cases c with
  | sendFrame frame ifaceIndex => exact if_pos h
  | changeIPAddress newIP ifaceIndex => exact absurd h id
  | changeNetmask newNetmask ifaceIndex => exact absurd h id

/-- A command goes out byte by byte in its calls. -/
theorem calls_speak (c : SimulationCommand) : c.calls.Says (fun r => r.res = true) c.bytes := by
  cases c with
  | sendFrame frame ifaceIndex =>
    by_cases hlong : frame.length < 14 ∨ 65536 - 4 ≤ frame.length
    · have hrefused : (sendFrame frame ifaceIndex).Refused := hlong
      rw [calls_of_refused hrefused]
      exact fun h => nomatch h
    · simp only [calls, realSendFrameCalls, bytes, realSendFrame, if_neg hlong, Option.getD_some]
      exact ⟨⟨frame, rfl, ⟨[], (List.append_nil _).symm, fun _ => rfl⟩, fun h => nomatch h⟩, fun h => nomatch h⟩
  | changeIPAddress newIP ifaceIndex =>
    exact ⟨⟨[], (List.append_nil _).symm, fun _ => rfl⟩, fun h => nomatch h⟩
  | changeNetmask newNetmask ifaceIndex =>
    exact ⟨⟨[], (List.append_nil _).symm, fun _ => rfl⟩, fun h => nomatch h⟩

theorem calls_end (c : SimulationCommand) : c.calls.Ends c.Result := by
  have hnotify (type ifaceIndex value : UInt32) : (notifyChange type ifaceIndex value).Ends fun r =>
      r = ⟨true, 0⟩ ∧ ¬ False ∨ r = ⟨false, 0⟩ := by
    intro res
    cases res with
    | true => exact Or.inl ⟨rfl, id⟩
    | false => exact Or.inr rfl
  cases c with
  | sendFrame frame ifaceIndex =>
    by_cases hlong : frame.length < 14 ∨ 65536 - 4 ≤ frame.length
    · have hrefused : (sendFrame frame ifaceIndex).Refused := hlong
      rw [calls_of_refused hrefused]
      exact Or.inr rfl
    · simp only [calls, realSendFrameCalls, if_neg hlong]
      intro res
      cases res with
      | false => exact Or.inr rfl
      | true =>
        intro res
        cases res with
        | false => exact Or.inr rfl
        | true => exact Or.inl ⟨rfl, hlong⟩
  | changeIPAddress newIP ifaceIndex => exact hnotify 2 ifaceIndex newIP
  | changeNetmask newNetmask ifaceIndex => exact hnotify 3 ifaceIndex newNetmask

end SimulationCommand

/-! What the server reads. -/

/-- The next command of a stream, if all of it is there. -/
def readCommand (stream : Bytes) : Option (SimulationCommand × Bytes) :=
  let type := swap32 (word32 stream 0)
  let size := (swap16 (word16 stream 4)).toNat
  if type = 1 ∧ 10 ≤ stream.length ∧ 4 ≤ size ∧ 6 + size ≤ stream.length then
    some (.sendFrame ((stream.drop 10).take (size - 4)) (swap32 (word32 stream 6)), stream.drop (6 + size))
  else if type = 2 ∧ 12 ≤ stream.length then
    some (.changeIPAddress (swap32 (word32 stream 8)) (swap32 (word32 stream 4)), stream.drop 12)
  else if type = 3 ∧ 12 ≤ stream.length then
    some (.changeNetmask (swap32 (word32 stream 8)) (swap32 (word32 stream 4)), stream.drop 12)
  else none

theorem readCommand_length {stream rest : Bytes} {c : SimulationCommand} (h : readCommand stream = some (c, rest)) :
    rest.length < stream.length := by
  unfold readCommand at h
  simp only at h
  split_ifs at h with hframe hip hmask
  all_goals
    obtain ⟨-, rfl⟩ := Prod.mk.inj (Option.some.inj h)
    rw [List.length_drop]
    omega

/-- All commands of a stream, and what is left behind them. -/
def readCommands (stream : Bytes) : List SimulationCommand × Bytes :=
  match _ : readCommand stream with
  | none => ([], stream)
  | some (c, rest) =>
    let r := readCommands rest
    (c :: r.1, r.2)
termination_by stream.length
decreasing_by exact readCommand_length ‹_›

theorem readCommands_none {stream : Bytes} (h : readCommand stream = none) : readCommands stream = ([], stream) := by
  rw [readCommands]
  split <;> rename_i he <;> cases h.symm.trans he
  rfl

theorem readCommands_some {stream rest : Bytes} {c : SimulationCommand} (h : readCommand stream = some (c, rest)) :
    readCommands stream = (c :: (readCommands rest).1, (readCommands rest).2) := by
  rw [readCommands]
  split <;> rename_i he <;> cases h.symm.trans he
  rfl

/-- What stands behind a command does not matter to its reader. -/
theorem readCommand_more {stream rest : Bytes} {c : SimulationCommand} (more : Bytes)
    (h : readCommand stream = some (c, rest)) : readCommand (stream ++ more) = some (c, rest ++ more) := by
  have hword32 (k : Nat) (hk : k + 4 ≤ stream.length) : word32 (stream ++ more) k = word32 stream k :=
    word32_append_left more hk
  have hword16 (hk : 6 ≤ stream.length) : word16 (stream ++ more) 4 = word16 stream 4 := word16_append_left more hk
  have hlen : (stream ++ more).length = stream.length + more.length := List.length_append
  unfold readCommand at h ⊢
  simp only at h ⊢
  split_ifs at h with hframe hip hmask
  · obtain ⟨rfl, rfl⟩ := Prod.mk.inj (Option.some.inj h)
    obtain ⟨htype, h10, hsize, hall⟩ := hframe
    rw [hword32 0 (by omega), hword16 (by omega), hword32 6 (by omega), if_pos ⟨htype, by omega, hsize, by omega⟩,
      List.drop_append_of_le_length (by omega), List.drop_append_of_le_length (by omega),
      List.take_append_of_le_length (by rw [List.length_drop]; omega)]
  · obtain ⟨rfl, rfl⟩ := Prod.mk.inj (Option.some.inj h)
    rw [hword32 0 (by omega), hword32 4 (by omega), hword32 8 (by omega), if_neg (by rw [hip.1]; rintro ⟨h1, -⟩; cases h1),
      if_pos ⟨hip.1, by omega⟩, List.drop_append_of_le_length hip.2]
  · obtain ⟨rfl, rfl⟩ := Prod.mk.inj (Option.some.inj h)
    rw [hword32 0 (by omega), hword32 4 (by omega), hword32 8 (by omega), if_neg (by rw [hmask.1]; rintro ⟨h1, -⟩; cases h1),
      if_neg (by rw [hmask.1]; rintro ⟨h2, -⟩; cases h2), if_pos ⟨hmask.1, by omega⟩,
      List.drop_append_of_le_length hmask.2]

theorem words_of_three (x y z : UInt32) : swap32 (word32 (numbers [x, y, z]) 0) = x ∧
    swap32 (word32 (numbers [x, y, z]) 4) = y ∧ swap32 (word32 (numbers [x, y, z]) 8) = z ∧
      (numbers [x, y, z]).length = 12 := by
  have hword (k : Nat) (hk : k < [x, y, z].length) : swap32 (word32 (numbers [x, y, z]) (4 * k)) = [x, y, z][k] := by
    have h := word32_numbers_append [] hk
    rw [List.append_nil] at h
    rw [h, swap32_swap32]
  exact ⟨hword 0 (by simp), hword 1 (by simp), hword 2 (by simp), length_numbers _⟩

theorem readCommand_bytes {c : SimulationCommand} (hc : ¬ c.Refused) : readCommand c.bytes = some (c, []) := by
  cases c with
  | sendFrame frame ifaceIndex =>
    have hfit : ¬ (frame.length < 14 ∨ 65536 - 4 ≤ frame.length) := hc
    have hbytes : (SimulationCommand.sendFrame frame ifaceIndex).bytes = bytes32 (swap32 sendFrameCommand) ++
        bytes16 (swap16 (UInt16.ofNat (4 + frame.length))) ++ bytes32 (swap32 ifaceIndex) ++ frame := by
      simp only [SimulationCommand.bytes, realSendFrame, if_neg hfit, Option.getD_some]
    rw [hbytes]
    set stream := bytes32 (swap32 sendFrameCommand) ++ bytes16 (swap16 (UInt16.ofNat (4 + frame.length))) ++
      bytes32 (swap32 ifaceIndex) ++ frame with hstream
    have hlen : stream.length = 10 + frame.length := by
      simp only [hstream, List.length_append, length_bytes32, length_bytes16]
    have htype : swap32 (word32 stream 0) = 1 := by
      have hj : word32 stream 0 = swap32 sendFrameCommand := join32_bytes _
      rw [hj, swap32_swap32]
      rfl
    have hsize : (swap16 (word16 stream 4)).toNat = 4 + frame.length := by
      have hj : word16 stream 4 = swap16 (UInt16.ofNat (4 + frame.length)) := join16_bytes _
      rw [hj, swap16_swap16, UInt16.toNat_ofNat']
      exact Nat.mod_eq_of_lt (by omega)
    have hindex : swap32 (word32 stream 6) = ifaceIndex := by
      have hj : word32 stream 6 = swap32 ifaceIndex := join32_bytes _
      rw [hj, swap32_swap32]
    have hdrop : stream.drop 10 = frame := rfl
    simp only [readCommand, htype, hsize, hindex, hdrop]
    rw [if_pos ⟨trivial, by omega, by omega, by omega⟩, Nat.add_sub_cancel_left, List.take_length,
      List.drop_of_length_le (by omega)]
  | changeIPAddress newIP ifaceIndex =>
    obtain ⟨h0, h4, h8, hlen⟩ := words_of_three 2 ifaceIndex newIP
    have hdrop : (numbers [2, ifaceIndex, newIP]).drop 12 = [] := List.drop_of_length_le hlen.le
    simp only [SimulationCommand.bytes, readCommand, h0, h4, h8, hlen, hdrop]
    rw [if_neg (by rintro ⟨h1, -⟩; cases h1), if_pos ⟨trivial, Nat.le_refl 12⟩]
  | changeNetmask newNetmask ifaceIndex =>
    obtain ⟨h0, h4, h8, hlen⟩ := words_of_three 3 ifaceIndex newNetmask
    have hdrop : (numbers [3, ifaceIndex, newNetmask]).drop 12 = [] := List.drop_of_length_le hlen.le
    simp only [SimulationCommand.bytes, readCommand, h0, h4, h8, hlen, hdrop]
    rw [if_neg (by rintro ⟨h1, -⟩; cases h1), if_neg (by rintro ⟨h2, -⟩; cases h2), if_pos ⟨trivial, Nat.le_refl 12⟩]

theorem bytes_of_refused {c : SimulationCommand} (hc : c.Refused) : c.bytes = [] := by
  cases c with
  | sendFrame frame ifaceIndex =>
    have hlong : frame.length < 14 ∨ 65536 - 4 ≤ frame.length := hc
    simp only [SimulationCommand.bytes, realSendFrame, if_pos hlong, Option.getD_none]
  | changeIPAddress newIP ifaceIndex => exact absurd hc id
  | changeNetmask newNetmask ifaceIndex => exact absurd hc id

/-- Less than a whole command is not read. -/
theorem readCommand_part {c : SimulationCommand} {part : Bytes} (hp : part <+: c.bytes) (hne : part ≠ c.bytes) :
    readCommand part = none := by
  obtain ⟨more, hmore⟩ := hp
  by_contra hread
  obtain ⟨⟨d, rest⟩, hread⟩ := Option.ne_none_iff_exists'.mp hread
  have hc : ¬ c.Refused := by
    intro hc
    rw [bytes_of_refused hc, List.append_eq_nil_iff] at hmore
    rw [bytes_of_refused hc] at hne
    exact hne hmore.1
  have hall := readCommand_more more hread
  rw [hmore, readCommand_bytes hc] at hall
  have hnil := (Prod.mk.inj (Option.some.inj hall)).2
  rw [(List.append_eq_nil_iff.mp hnil.symm).2, List.append_nil] at hmore
  exact hne hmore

theorem readCommands_append {l : List SimulationCommand} (hl : ∀ c ∈ l, ¬ c.Refused) (rest : Bytes) :
    readCommands (l.flatMap SimulationCommand.bytes ++ rest) = (l ++ (readCommands rest).1, (readCommands rest).2) := by
  induction l with
  | nil => rfl
  | cons c l ih =>
    have hfirst : readCommand (c.bytes ++ (l.flatMap SimulationCommand.bytes ++ rest)) =
        some (c, [] ++ (l.flatMap SimulationCommand.bytes ++ rest)) :=
      readCommand_more _ (readCommand_bytes (hl c List.mem_cons_self))
    rw [List.flatMap_cons, List.append_assoc, readCommands_some hfirst, List.nil_append, ih fun d hd => hl d (List.mem_cons_of_mem c hd)]
    rfl

end Overlay
