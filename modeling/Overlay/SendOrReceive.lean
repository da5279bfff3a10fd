import Overlay.ByteMemory
import Overlay.Windows

/-! The loop that transfers a given number of bytes over a stream socket, call by call. It
ends when the last call made up for what was missing, or failed; a call that transfers
nothing is repeated. -/

namespace Overlay

open ByteMemory Windows

/-- The results of the calls to come: for `recv` the bytes as they arrive, for `send` how many
it takes. None is a failure; a call without a result blocks. -/
structure Socket where
  incoming : List (Option Bytes)
  accepting : List (Option Nat)
  outgoing : Bytes

structure Called where
  count : Int
  memory : Nat → UInt8
  socket : Socket

namespace Socket

variable (socket : Socket) (memory : Nat → UInt8) (buf size : Nat)

/-- What arrived in one piece beyond the requested size is left to the next call. -/
def recv : Option Called :=
  match socket.incoming with
  | [] => none
  | none :: incoming => some { count := -1, memory := memory, socket := { socket with incoming := incoming } }
  | some data :: incoming => some
    { count := min size data.length
      memory := overwrite memory buf (data.take size)
      socket := { socket with
        incoming := if data.length ≤ size then incoming else some (data.drop size) :: incoming } }

def send : Option Called :=
  match socket.accepting with
  | [] => none
  | none :: accepting => some { count := -1, memory := memory, socket := { socket with accepting := accepting } }
  | some n :: accepting => some
    { count := min size n
      memory := memory
      socket := { socket with
        accepting := accepting, outgoing := socket.outgoing ++ window memory buf (min size n) } }

def call (sendIt : Bool) : Option Called :=
  if sendIt then socket.send memory buf size else socket.recv memory buf size

def results : Nat := socket.incoming.length + socket.accepting.length

variable {socket memory buf size}

/-- A call that leaves something to do has used its result up. -/
theorem results_lt {sendIt : Bool} {called : Called} (h : socket.call memory buf size sendIt = some called)
    (hc : called.count < size) : called.socket.results < socket.results := by
  cases sendIt with
  | true =>
    match hs : socket.accepting with
    | [] => simp [call, send, hs] at h
    | none :: accepting =>
      simp only [call, send, hs, if_true, Option.some.injEq] at h
      simp [← h, results, hs]
    | some n :: accepting =>
      simp only [call, send, hs, if_true, Option.some.injEq] at h
      simp [← h, results, hs]
  | false =>
    match hs : socket.incoming with
    | [] => simp [call, recv, hs] at h
    | none :: incoming =>
      simp only [call, recv, hs, Bool.false_eq_true, if_false, Option.some.injEq] at h
      simp [← h, results, hs]
    | some data :: incoming =>
      simp only [call, recv, hs, Bool.false_eq_true, if_false, Option.some.injEq] at h
      subst h
      have hle : data.length ≤ size := by
        simp only at hc
        omega
      simp [results, hs, hle]

end Socket

/-- What the loop returns, if it does, and the error code it prints. -/
structure Transfer where
  returned : Option Bool
  printed : Option Int
  memory : Nat → UInt8
  socket : Socket

/-- `size` and `buf` are brought up to date with the last count when a round begins. -/
def transferLoop (sendIt : Bool) (errorCode : Int) (size count buf : Nat) (memory : Nat → UInt8)
    (socket : Socket) : Transfer :=
  match _ : socket.call memory (buf + count) (size - count) sendIt with
  | none => { returned := none, printed := none, memory := memory, socket := socket }
  | some called =>
    if called.count < 0 then
      { returned := some false
        printed := if errorCode = -1 then none else some errorCode
        memory := called.memory
        socket := called.socket }
    else if _ : called.count < ((size - count : Nat) : Int) then
      transferLoop sendIt errorCode (size - count) called.count.toNat (buf + count) called.memory called.socket
    else { returned := some true, printed := none, memory := called.memory, socket := called.socket }
termination_by socket.results
decreasing_by exact Socket.results_lt ‹_› ‹_›

def sendOrReceive (sendIt : Bool) (errorCode : Int) (size buf : Nat) (memory : Nat → UInt8) (socket : Socket) :
    Transfer :=
  transferLoop sendIt errorCode size 0 buf memory socket

section Rounds

variable {sendIt : Bool} {errorCode : Int} {size buf : Nat} {memory : Nat → UInt8} {socket : Socket}

theorem transferLoop_count (count : Nat) : transferLoop sendIt errorCode size count buf memory socket =
    transferLoop sendIt errorCode (size - count) 0 (buf + count) memory socket := by
  rw [transferLoop, transferLoop]
  rfl

theorem transferLoop_blocked (h : socket.call memory buf size sendIt = none) :
    transferLoop sendIt errorCode size 0 buf memory socket =
      { returned := none, printed := none, memory := memory, socket := socket } := by
  rw [transferLoop]
  split
  · rfl
  · rename_i he
    cases h.symm.trans he

theorem transferLoop_called {called : Called} (h : socket.call memory buf size sendIt = some called) :
    transferLoop sendIt errorCode size 0 buf memory socket =
      if called.count < 0 then
        { returned := some false, printed := if errorCode = -1 then none else some errorCode,
          memory := called.memory, socket := called.socket }
      else if called.count < size then
        transferLoop sendIt errorCode (size - called.count.toNat) 0 (buf + called.count.toNat) called.memory
          called.socket
      else { returned := some true, printed := none, memory := called.memory, socket := called.socket } := by
  rw [transferLoop]
  split
  · rename_i he
    cases h.symm.trans he
  · rename_i called' he
    obtain rfl : called = called' := Option.some.inj (h.symm.trans he)
    by_cases hneg : called.count < 0
    · simp only [hneg, if_true]
    · by_cases hless : called.count < size
      · simp only [hneg, if_false, hless, if_true, Nat.sub_zero, dite_true]
        exact transferLoop_count _
      · simp [hneg, hless]

end Rounds

section Receiving

variable {errorCode : Int} {size buf : Nat} {memory : Nat → UInt8} {socket : Socket} {data : Bytes}
  {rest : List (Option Bytes)}

theorem receive_blocked : transferLoop false errorCode size 0 buf memory { socket with incoming := [] } =
    { returned := none, printed := none, memory := memory, socket := { socket with incoming := [] } } :=
  transferLoop_blocked rfl

theorem receive_failed : transferLoop false errorCode size 0 buf memory { socket with incoming := none :: rest } =
    { returned := some false, printed := if errorCode = -1 then none else some errorCode, memory := memory,
      socket := { socket with incoming := rest } } := by
  rw [transferLoop_called rfl]
  rfl

theorem receive_part (h : data.length < size) :
    transferLoop false errorCode size 0 buf memory { socket with incoming := some data :: rest } =
      transferLoop false errorCode (size - data.length) 0 (buf + data.length) (overwrite memory buf data)
        { socket with incoming := rest } := by
  rw [transferLoop_called rfl]
  simp [h, h.le, List.take_of_length_le h.le]

theorem receive_done (h : size ≤ data.length) :
    transferLoop false errorCode size 0 buf memory { socket with incoming := some data :: rest } =
      { returned := some true, printed := none, memory := overwrite memory buf (data.take size),
        socket := { socket with incoming := if data.length ≤ size then rest else some (data.drop size) :: rest } } := by
  have hmin : min (size : Int) data.length = size := by omega
  rw [transferLoop_called rfl]
  simp [hmin]

/-- Pieces that do not make up the size are stored one behind the other. -/
theorem receive_parts {l : List Bytes} (h : l.flatten.length < size) :
    transferLoop false errorCode size 0 buf memory { socket with incoming := l.map some ++ rest } =
      transferLoop false errorCode (size - l.flatten.length) 0 (buf + l.flatten.length)
        (overwrite memory buf l.flatten) { socket with incoming := rest } := by
  induction l generalizing size buf memory with
  | nil => simp
  | cons data l ih =>
    simp only [List.flatten_cons, List.length_append] at h
    rw [List.map_cons, List.cons_append, receive_part (by omega), ih (by omega), overwrite_append,
      List.flatten_cons, List.length_append, Nat.sub_sub, Nat.add_assoc]

/-- Pieces that do are stored up to it; what is left of them stays on the socket. -/
theorem receive_whole {l : List Bytes} (hne : l ≠ []) (h : size ≤ l.flatten.length) : ∃ left : List Bytes,
    left.flatten = l.flatten.drop size ∧ ∀ rest : List (Option Bytes),
      transferLoop false errorCode size 0 buf memory { socket with incoming := l.map some ++ rest } =
        { returned := some true, printed := none, memory := overwrite memory buf (l.flatten.take size),
          socket := { socket with incoming := left.map some ++ rest } } := by
  induction l generalizing size buf memory with
  | nil => exact absurd rfl hne
  | cons data l ih =>
    by_cases hd : size ≤ data.length
    · refine ⟨if data.length ≤ size then l else data.drop size :: l, ?_, fun rest => ?_⟩
      · rw [List.flatten_cons, List.drop_append_of_le_length hd]
        by_cases he : data.length ≤ size
        · simp [he]
        · simp [he]
      · rw [List.map_cons, List.cons_append, receive_done hd, List.flatten_cons, List.take_append_of_le_length hd]
        by_cases he : data.length ≤ size
        · simp [he]
        · simp [he]
    · have hle : data.length ≤ size := by omega
      have hl : l ≠ [] := by
        rintro rfl
        simp at h
        omega
      rw [List.flatten_cons, List.length_append] at h
      obtain ⟨left, hleft, hrest⟩ := @ih (size - data.length) (buf + data.length) (overwrite memory buf data) hl
        (by omega)
      refine ⟨left, ?_, fun rest => ?_⟩
      · rw [hleft, List.flatten_cons, List.drop_append, List.drop_of_length_le hle, List.nil_append]
      · rw [List.map_cons, List.cons_append, receive_part (by omega), hrest, overwrite_append, List.flatten_cons,
          List.take_append, List.take_of_length_le hle]

theorem failure_or_pieces {α : Type} (incoming : List (Option α)) : (∃ l : List α, incoming = l.map some) ∨
    ∃ (l : List α) (rest : List (Option α)), incoming = l.map some ++ none :: rest := by
  induction incoming with
  | nil => exact Or.inl ⟨[], rfl⟩
  | cons first incoming ih =>
    cases first with
    | none => exact Or.inr ⟨[], incoming, rfl⟩
    | some data =>
      rcases ih with ⟨l, rfl⟩ | ⟨l, rest, rfl⟩
      · exact Or.inl ⟨data :: l, rfl⟩
      · exact Or.inr ⟨data :: l, rest, rfl⟩

/-- What arrived so far keeps the loop waiting, or it has been left for good. -/
theorem receive_waits_iff {incoming : List (Option Bytes)} :
    (transferLoop false errorCode size 0 buf memory { socket with incoming := incoming }).returned = none ↔
      incoming = [] ∨ ∃ l : List Bytes, incoming = l.map some ∧ l.flatten.length < size := by
  rcases failure_or_pieces incoming with ⟨l, rfl⟩ | ⟨l, rest, rfl⟩
  · have hinj (l' : List Bytes) (h : l.map some = l'.map some) : l' = l :=
      (List.map_injective_iff.mpr (Option.some_injective _) h).symm
    by_cases hshort : l.flatten.length < size
    · have hparts := @receive_parts errorCode size buf memory socket [] l hshort
      rw [List.append_nil, receive_blocked] at hparts
      rw [hparts]
      exact iff_of_true rfl (Or.inr ⟨l, rfl, hshort⟩)
    · by_cases hne : l = []
      · subst hne
        exact iff_of_true (congrArg Transfer.returned receive_blocked) (Or.inl rfl)
      · obtain ⟨left, -, hwhole⟩ := @receive_whole errorCode size buf memory socket l hne (by omega)
        have h := hwhole []
        rw [List.append_nil] at h
        rw [h]
        refine iff_of_false (by simp) ?_
        rintro (he | ⟨l', he, hl⟩)
        · exact hne (List.map_eq_nil_iff.mp he)
        · exact hshort (hinj l' he ▸ hl)
  · refine iff_of_false ?_ ?_
    · by_cases hshort : l.flatten.length < size
      · rw [receive_parts hshort, receive_failed]
        simp
      · by_cases hne : l = []
        · subst hne
          rw [List.map_nil, List.nil_append, receive_failed]
          simp
        · obtain ⟨left, -, hwhole⟩ := @receive_whole errorCode size buf memory socket l hne (by omega)
          rw [hwhole]
          simp
    · rintro (he | ⟨l', he, -⟩)
      · simp at he
      · have hmem : none ∈ l'.map some := by simp [← he]
        simp at hmem

end Receiving

section Sending

variable {errorCode : Int} {size buf n : Nat} {memory : Nat → UInt8} {socket : Socket} {rest : List (Option Nat)}

theorem send_failed : transferLoop true errorCode size 0 buf memory { socket with accepting := none :: rest } =
    { returned := some false, printed := if errorCode = -1 then none else some errorCode, memory := memory,
      socket := { socket with accepting := rest } } := by
  rw [transferLoop_called rfl]
  rfl

theorem send_part (h : n < size) :
    transferLoop true errorCode size 0 buf memory { socket with accepting := some n :: rest } =
      transferLoop true errorCode (size - n) 0 (buf + n) memory
        { socket with accepting := rest, outgoing := socket.outgoing ++ window memory buf n } := by
  rw [transferLoop_called rfl]
  simp [h, h.le]

theorem send_done (h : size ≤ n) :
    transferLoop true errorCode size 0 buf memory { socket with accepting := some n :: rest } =
      { returned := some true, printed := none, memory := memory,
        socket := { socket with accepting := rest, outgoing := socket.outgoing ++ window memory buf size } } := by
  rw [transferLoop_called rfl]
  simp [h]

theorem send_parts {l : List Nat} (h : l.sum < size) :
    transferLoop true errorCode size 0 buf memory { socket with accepting := l.map some ++ rest } =
      transferLoop true errorCode (size - l.sum) 0 (buf + l.sum) memory
        { socket with accepting := rest, outgoing := socket.outgoing ++ window memory buf l.sum } := by
  induction l generalizing size buf socket with
  | nil => simp [window]
  | cons n l ih =>
    rw [List.sum_cons] at h
    have hl := @ih (size - n) (buf + n) { socket with outgoing := socket.outgoing ++ window memory buf n } (by omega)
    rw [List.map_cons, List.cons_append, send_part (by omega), hl, List.sum_cons, Nat.sub_sub, Nat.add_assoc,
      window_add, List.append_assoc]

theorem send_whole {l : List Nat} (hne : l ≠ []) (h : size ≤ l.sum) : ∃ k, ∀ rest : List (Option Nat),
    transferLoop true errorCode size 0 buf memory { socket with accepting := l.map some ++ rest } =
      { returned := some true, printed := none, memory := memory,
        socket := { socket with
          accepting := (l.drop k).map some ++ rest, outgoing := socket.outgoing ++ window memory buf size } } := by
  induction l generalizing size buf socket with
  | nil => exact absurd rfl hne
  | cons n l ih =>
    by_cases hn : size ≤ n
    · refine ⟨1, fun rest => ?_⟩
      rw [List.map_cons, List.cons_append, send_done hn]
      rfl
    · rw [List.sum_cons] at h
      have hl : l ≠ [] := by
        rintro rfl
        simp at h
        omega
      obtain ⟨k, hk⟩ := @ih (size - n) (buf + n) { socket with outgoing := socket.outgoing ++ window memory buf n } hl
        (by omega)
      have hsize : n + (size - n) = size := by omega
      refine ⟨k + 1, fun rest => ?_⟩
      rw [List.map_cons, List.cons_append, send_part (by omega), hk, List.append_assoc, ← window_add, hsize,
        List.drop_succ_cons]

end Sending

end Overlay
