import Overlay.EventLoop

/-! What the transfer loop makes of a peer that closes the connection. From then on every
call returns 0, which the loop takes for a piece of the stream and asks again. -/

namespace Overlay

open ByteMemory Windows

/-- The results of `recv`, call by call; once it returned 0, it does so ever after. -/
structure RecvResults where
  result : Nat → Option Bytes
  closed : ∀ i j, result i = some [] → i ≤ j → result j = some []

namespace RecvResults

variable (r : RecvResults)

def before (n : Nat) : List (Option Bytes) := (List.range n).map r.result

def pieces (n : Nat) : List Bytes := (r.before n).filterMap id

def received (n : Nat) : Bytes := (r.pieces n).flatten

def NoFailure (n : Nat) : Prop := ∀ i < n, r.result i ≠ none

/-- The connection is closed, and fewer bytes than the size arrived before. -/
def EndsEarly (size : Nat) : Prop :=
  ∃ n, r.result n = some [] ∧ r.NoFailure n ∧ (r.received n).length < size

/-- The first call that fails or finds the connection closed. -/
def StopsAt (n : Nat) : Prop := r.NoFailure n ∧ (r.result n = none ∨ r.result n = some [])

variable {r}

theorem before_succ (n : Nat) : r.before (n + 1) = r.before n ++ [r.result n] := by
  simp [before, List.range_succ]

theorem received_succ {n : Nat} {data : Bytes} (h : r.result n = some data) :
    r.received (n + 1) = r.received n ++ data := by
  simp [received, pieces, before_succ, h]

theorem NoFailure.before_eq {n : Nat} (h : r.NoFailure n) : r.before n = (r.pieces n).map some := by
  induction n with
  | zero => rfl
  | succ n ih =>
    obtain ⟨data, hdata⟩ := Option.ne_none_iff_exists'.mp (h n (Nat.lt_succ_self n))
    have hbefore := ih fun i hi => h i (Nat.lt_succ_of_lt hi)
    rw [pieces, before_succ, List.filterMap_append, List.map_append, ← pieces, ← hbefore, hdata]
    rfl

theorem noFailure_of_closed {n : Nat} (h : r.NoFailure n) (hn : r.result n = some []) (m : Nat) : r.NoFailure m := by
  intro i hi
  by_cases hlt : i < n
  · exact h i hlt
  · rw [r.closed n i hn (by omega)]
    simp

theorem received_of_closed {n : Nat} (hn : r.result n = some []) (k : Nat) : r.received (n + k) = r.received n := by
  induction k with
  | zero => rfl
  | succ k ih =>
    rw [← Nat.add_assoc, received_succ (r.closed n (n + k) hn (by omega)), ih, List.append_nil]

theorem length_received_mono {m n : Nat} (h : r.NoFailure n) (hmn : m ≤ n) :
    (r.received m).length ≤ (r.received n).length := by
  induction n with
  | zero =>
    obtain rfl : m = 0 := by omega
    exact Nat.le_refl _
  | succ n ih =>
    by_cases he : m = n + 1
    · rw [he]
    · obtain ⟨data, hdata⟩ := Option.ne_none_iff_exists'.mp (h n (Nat.lt_succ_self n))
      have hle := ih (fun i hi => h i (Nat.lt_succ_of_lt hi)) (by omega)
      rw [received_succ hdata, List.length_append]
      omega

end RecvResults

/-- The loop ends, with a failure if the stream ended before it had enough. -/
structure NoticesClosing (errorCode : Int) (size buf : Nat) (memory : Nat → UInt8) (socket : Socket)
    (r : RecvResults) : Prop where
  ends : ∃ n, (sendOrReceive false errorCode size buf memory { socket with incoming := r.before n }).returned ≠ none
  fails : r.EndsEarly size → ∃ n,
    (sendOrReceive false errorCode size buf memory { socket with incoming := r.before n }).returned = some false

section Closing

variable {errorCode : Int} {size buf : Nat} {memory : Nat → UInt8} {socket : Socket} {r : RecvResults}

theorem RecvResults.EndsEarly.waits (h : r.EndsEarly size) (m : Nat) :
    (sendOrReceive false errorCode size buf memory { socket with incoming := r.before m }).returned = none := by
  obtain ⟨n, hn, hno, hshort⟩ := h
  have hnom := RecvResults.noFailure_of_closed hno hn m
  refine receive_waits_iff.mpr (Or.inr ⟨r.pieces m, hnom.before_eq, ?_⟩)
  show (r.received m).length < size
  by_cases hle : m ≤ n
  · exact (RecvResults.length_received_mono hno hle).trans_lt hshort
  · obtain ⟨k, rfl⟩ := Nat.exists_eq_add_of_le (Nat.le_of_not_le hle)
    rw [RecvResults.received_of_closed hn]
    exact hshort

/-- While the connection is open, each call brings a byte. -/
theorem ends_of_not_endsEarly (h : ¬ r.EndsEarly size) : ∃ n,
    (sendOrReceive false errorCode size buf memory { socket with incoming := r.before n }).returned ≠ none := by
  by_contra hno
  simp only [not_exists, not_not] at hno
  have hwaits (n : Nat) : r.NoFailure n ∧ (0 < n → (r.received n).length < size) := by
    rcases receive_waits_iff.mp (hno n) with he | ⟨l, he, hl⟩
    · have hz : n = 0 := by simpa [RecvResults.before] using he
      subst hz
      exact ⟨fun i hi => absurd hi (Nat.not_lt_zero i), fun h => absurd h (Nat.lt_irrefl 0)⟩
    · have hpieces : r.pieces n = l := by simp [RecvResults.pieces, he]
      refine ⟨fun i hi hnone => ?_, fun _ => by rwa [RecvResults.received, hpieces]⟩
      have hmem : r.result i ∈ r.before n := List.mem_map_of_mem (List.mem_range.mpr hi)
      rw [he, hnone] at hmem
      simp at hmem
  have hgrows (n : Nat) : n ≤ (r.received n).length := by
    induction n with
    | zero => exact Nat.zero_le _
    | succ n ih =>
      obtain ⟨hfine, hshort⟩ := hwaits (n + 1)
      obtain ⟨data, hdata⟩ := Option.ne_none_iff_exists'.mp (hfine n (Nat.lt_succ_self n))
      have hlt := hshort (Nat.succ_pos n)
      rw [RecvResults.received_succ hdata, List.length_append] at hlt ⊢
      have hne : data ≠ [] := by
        rintro rfl
        exact h ⟨n, hdata, fun i hi => hfine i (Nat.lt_succ_of_lt hi), by omega⟩
      have hpos := List.length_pos_iff.mpr hne
      omega
  have hlt := (hwaits (size + 1)).2 (Nat.succ_pos size)
  have hle := hgrows (size + 1)
  omega

theorem noticesClosing_iff : NoticesClosing errorCode size buf memory socket r ↔ ¬ r.EndsEarly size := by
  constructor
  · intro h he
    obtain ⟨n, hn⟩ := h.ends
    exact hn (he.waits n)
  · exact fun h => ⟨ends_of_not_endsEarly h, fun he => absurd he h⟩

/-! `simulateMachine` goes on to `recoverSimulation` when the event loop is left. -/

def ReachesRecovery (countOfInterfaces : Int) (memory : Nat → UInt8) (socket : Socket) (r : RecvResults) : Prop :=
  ∃ n errorCode, (socketLoop countOfInterfaces memory { socket with incoming := r.before n }).2 = some (some errorCode)

theorem socketLoop_append {countOfInterfaces : Int} {incoming : List (Option Bytes)} {ended : Option Nat}
    (h : (socketLoop countOfInterfaces memory { socket with incoming := incoming }).2 = some ended)
    (t : List (Option Bytes)) :
    (socketLoop countOfInterfaces memory { socket with incoming := incoming ++ t }).2 = some ended := by
  rcases failure_or_pieces incoming with ⟨l, rfl⟩ | ⟨l, rest, rfl⟩
  · obtain ⟨hleft, hwaits, -⟩ := @socketLoop_stream countOfInterfaces socket l.flatten memory l rfl
    by_cases hu : Unfinished countOfInterfaces l.flatten
    · rw [← List.append_nil (l.map some), hwaits hu] at h
      cases h
    · have hsame := hleft hu []
      rw [List.append_nil] at hsame
      rw [hsame] at h
      rw [hleft hu t]
      exact h
  · have hfails := (@socketLoop_stream countOfInterfaces socket l.flatten memory l rfl).2.2
    rw [hfails] at h
    rw [List.append_assoc, List.cons_append, hfails]
    exact h

theorem before_add (n k : Nat) : ∃ t, r.before (n + k) = r.before n ++ t := by
  refine ⟨(List.range k).map fun i => r.result (n + i), ?_⟩
  simp [RecvResults.before, List.range_add, Function.comp_def]

/-- How the loop stands once a call failed or found the connection closed. -/
theorem ended_of_stopsAt {countOfInterfaces : Int} {n : Nat} (h : r.StopsAt n) (k : Nat) :
    ((r.result n = none ∨ ¬ Unfinished countOfInterfaces (r.received n)) →
      (socketLoop countOfInterfaces memory { socket with incoming := r.before (n + 1 + k) }).2 =
        some (simulationEventLoop countOfInterfaces (r.received n)).2) ∧
    (¬ (r.result n = none ∨ ¬ Unfinished countOfInterfaces (r.received n)) →
      (socketLoop countOfInterfaces memory { socket with incoming := r.before (n + 1 + k) }).2 = none) := by
  obtain ⟨hno, hresult⟩ := h
  rcases hresult with hfail | hclose
  · obtain ⟨t, ht⟩ := @before_add r (n + 1) k
    rw [ht, RecvResults.before_succ, hfail, hno.before_eq, List.append_assoc, List.cons_append, List.nil_append]
    refine ⟨fun _ => ?_, fun hn => absurd (Or.inl rfl) hn⟩
    rw [(@socketLoop_stream countOfInterfaces socket (r.received n) memory (r.pieces n) rfl).2.2]
  · have hall := RecvResults.noFailure_of_closed hno hclose (n + 1 + k)
    have hstream : (r.pieces (n + 1 + k)).flatten = r.received n := by
      rw [Nat.add_assoc]
      exact RecvResults.received_of_closed hclose (1 + k)
    have hnotfail : r.result n ≠ none := by simp [hclose]
    obtain ⟨hleft, hwaits, -⟩ := @socketLoop_stream countOfInterfaces socket (r.received n) memory _ hstream
    rw [hall.before_eq, ← List.append_nil ((r.pieces (n + 1 + k)).map some)]
    constructor
    · intro hu
      rw [hleft (hu.resolve_left hnotfail) []]
    · intro hu
      have hunfinished : Unfinished countOfInterfaces (r.received n) := by
        by_contra hne
        exact hu (Or.inr hne)
      rw [hwaits hunfinished]

theorem reachesRecovery_iff {countOfInterfaces : Int} {n : Nat} (h : r.StopsAt n) :
    ReachesRecovery countOfInterfaces memory socket r ↔ ¬ Overlong countOfInterfaces (r.received n) ∧
      (r.result n = none ∨ ¬ Unfinished countOfInterfaces (r.received n)) := by
  rw [overlong_iff]
  constructor
  · rintro ⟨m, errorCode, hm⟩
    obtain ⟨t, ht⟩ := @before_add r m (n + 1)
    have hlate := socketLoop_append hm t
    obtain ⟨hleft, hwaits⟩ := @ended_of_stopsAt memory socket r countOfInterfaces n h m
    rw [← ht, Nat.add_comm m] at hlate
    by_cases hends : r.result n = none ∨ ¬ Unfinished countOfInterfaces (r.received n)
    · rw [hleft hends] at hlate
      refine ⟨fun hnone => ?_, hends⟩
      rw [hnone] at hlate
      cases hlate
    · rw [hwaits hends] at hlate
      cases hlate
  · rintro ⟨hcode, hends⟩
    obtain ⟨errorCode, he⟩ := Option.ne_none_iff_exists'.mp hcode
    refine ⟨n + 1, errorCode, ?_⟩
    rw [← he]
    exact (ended_of_stopsAt h 0).1 hends

/-- The transfer loop ends if and only if the connection is not closed before it has enough;
the recovery is reached, from a stream that breaks off, through a failed call only. -/
theorem closing_noticed_iff (errorCode : Int) (size buf : Nat) (memory : Nat → UInt8) (socket : Socket)
    (countOfInterfaces : Int) (r : RecvResults) :
    (NoticesClosing errorCode size buf memory socket r ↔ ¬ r.EndsEarly size) ∧
    ∀ n, r.StopsAt n → (ReachesRecovery countOfInterfaces memory socket r ↔
      ¬ Overlong countOfInterfaces (r.received n) ∧
        (r.result n = none ∨ ¬ Unfinished countOfInterfaces (r.received n))) :=
  ⟨noticesClosing_iff, fun _ h => reachesRecovery_iff h⟩

/-- A frame for the interface 1, and the next one as far as the third byte of its body. -/
def brokenOffFrame : Bytes := [0, 0, 0, 4, 0, 6, 0, 0, 0, 1, 7, 8, 0, 0, 0, 4, 0, 6, 0, 0, 0]

def failedInFrame : RecvResults where
  result n := if n = 0 then some brokenOffFrame else none
  closed i j hi := by
    split_ifs at hi
    cases hi

def closedInFrame : RecvResults where
  result n := if n = 0 then some brokenOffFrame else some []
  closed i j hi hij := by
    split_ifs at hi with h
    · cases hi
    · rw [if_neg (by omega)]

theorem brokenOffFrame_pass : simulationEventPass 2 brokenOffFrame =
    .onward (some ([7, 8], 1)) [0, 0, 0, 4, 0, 6, 0, 0, 0] := rfl

/-- The failure is noticed inside the body of the second frame, the closing is not. -/
theorem closing_noticed_in_frame : ReachesRecovery 2 (fun _ => 0) idleSocket failedInFrame ∧
    ¬ ReachesRecovery 2 (fun _ => 0) idleSocket closedInFrame ∧
    NoticesClosing (-1) 27 0 (fun _ => 0) idleSocket failedInFrame ∧
    ¬ NoticesClosing (-1) 27 0 (fun _ => 0) idleSocket closedInFrame := by
  obtain ⟨hfailed, hrecovers⟩ := closing_noticed_iff (-1) 27 0 (fun _ => 0) idleSocket 2 failedInFrame
  obtain ⟨hclosed, hrecovers'⟩ := closing_noticed_iff (-1) 27 0 (fun _ => 0) idleSocket 2 closedInFrame
  refine ⟨(hrecovers 1 ⟨?_, Or.inl rfl⟩).mpr ⟨?_, Or.inl rfl⟩, ?_, hfailed.mpr ?_, fun h => hclosed.mp h ?_⟩
  · intro i hi
    obtain rfl : i = 0 := by omega
    simp [failedInFrame]
  · have hend : simulationEventPass 2 [0, 0, 0, 4, 0, 6, 0, 0, 0] = .abort (some 29) := rfl
    have hreceived : failedInFrame.received 1 = brokenOffFrame := rfl
    rw [overlong_iff, hreceived, simulationEventLoop_onward brokenOffFrame_pass, simulationEventLoop_abort hend]
    simp
  · intro h
    have hstops : closedInFrame.StopsAt 1 := by
      refine ⟨fun i hi => ?_, Or.inr rfl⟩
      obtain rfl : i = 0 := by omega
      simp [closedInFrame]
    rcases ((hrecovers' 1 hstops).mp h).2 with hfail | hfinished
    · cases hfail
    · exact hfinished (.onward brokenOffFrame_pass
        (.breaksOff (Or.inr ⟨by decide, by decide, Or.inr ⟨by decide, by decide⟩⟩)))
  · rintro ⟨n, hn, _⟩
    simp only [failedInFrame] at hn
    split_ifs at hn
    cases hn
  · refine ⟨1, rfl, fun i hi => ?_, by decide⟩
    obtain rfl : i = 0 := by omega
    simp [closedInFrame]

/-- The peer closes the connection before it sends anything. -/
def closedAtOnce : RecvResults := { result := fun _ => some [], closed := fun _ _ _ _ => rfl }

theorem stopsAt_zero (h : r.result 0 = none ∨ r.result 0 = some []) : r.StopsAt 0 :=
  ⟨fun i hi => absurd hi (Nat.not_lt_zero i), h⟩

/-- Then the loop asks again for ever, and the recovery is never reached. -/
theorem closing_unnoticed : (∀ n, (sendOrReceive false (-1) 6 0 (fun _ => 0)
      { idleSocket with incoming := closedAtOnce.before n }).returned = none) ∧
    ¬ NoticesClosing (-1) 6 0 (fun _ => 0) idleSocket closedAtOnce ∧
    ¬ ReachesRecovery 2 (fun _ => 0) idleSocket closedAtOnce := by
  have hstops : closedAtOnce.StopsAt 0 := stopsAt_zero (Or.inr rfl)
  have hearly : closedAtOnce.EndsEarly 6 := ⟨0, rfl, hstops.1, by decide⟩
  refine ⟨hearly.waits, fun h => noticesClosing_iff.mp h hearly, fun h => ?_⟩
  rcases ((reachesRecovery_iff hstops).mp h).2 with hfail | hfinished
  · cases hfail
  · exact hfinished (.breaksOff (Or.inl (by decide)))

end Closing

end Overlay
