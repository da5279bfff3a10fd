import Overlay.Execution
import Mathlib.Logic.Function.Basic

/-! Parties that run one transition function each and exchange messages through a pool: a
message once sent stays there, so it may arrive late, twice, in any order or not at all.
Nothing here is about a particular protocol. -/

namespace Interleaving

open Execution

variable {ι S E O M T : Type*}

/-- The transition function of a party, the events it may take on its own, the messages an
event sends, and the event that the arrival of a message at a time is. -/
structure Parties (S E O M T : Type*) where
  step : S → E → Option (S × O)
  own : E → Bool
  sends : E → O → List M
  arrival : M → T → E

/-- The states of the parties and the messages sent so far, each with its sender. -/
structure World (ι S M : Type*) where
  party : ι → S
  pool : List (ι × M)

inductive Move (ι E T : Type*)
  | own (i : ι) (e : E)
  | deliver (i : ι) (k : Nat) (time : T)

/-- The message that a move hands to the party, by its place in the pool. -/
def Move.deliveredTo [DecidableEq ι] (a : ι) : Move ι E T → Option Nat
  | .own _ _ => none
  | .deliver i k _ => if i = a then some k else none

namespace Parties

variable [DecidableEq ι] (P : Parties S E O M T)

def turn (w : World ι S M) : Move ι E T → Option (ι × E)
  | .own i e => if P.own e then some (i, e) else none
  | .deliver i k time => w.pool[k]?.map fun message => (i, P.arrival message.2 time)

def move (w : World ι S M) (mv : Move ι E T) : Option (World ι S M × O) :=
  (P.turn w mv).bind fun r => (P.step (w.party r.1) r.2).map fun q =>
    (⟨Function.update w.party r.1 q.1, w.pool ++ (P.sends r.2 q.2).map fun message => (r.1, message)⟩, q.2)

def history (i : ι) (h : List (Taken (World ι S M) (Move ι E T) O)) : List (Taken S E O) :=
  h.filterMap fun x => (P.turn x.before x.event).bind fun r =>
    if r.1 = i then some ⟨x.before.party i, r.2, x.output⟩ else none

variable {P} {w w' : World ι S M} {mv : Move ι E T} {o : O} {i : ι}
  {h h' : List (Taken (World ι S M) (Move ι E T) O)}

omit [DecidableEq ι] in
theorem turn_cases {e : E} (ht : P.turn w mv = some (i, e)) : mv = .own i e ∧ P.own e = true ∨
    ∃ k time j message, mv = .deliver i k time ∧ w.pool[k]? = some (j, message) ∧ e = P.arrival message time := by
  cases mv with
  | own j e' =>
    simp only [turn, Option.ite_none_right_eq_some, Option.some.injEq, Prod.mk.injEq] at ht
    obtain ⟨ho, rfl, rfl⟩ := ht
    exact Or.inl ⟨rfl, ho⟩
  | deliver j k time =>
    obtain ⟨⟨q, message⟩, hk, ht⟩ := Option.map_eq_some_iff.mp ht
    obtain ⟨rfl, rfl⟩ := Prod.mk.inj ht
    exact Or.inr ⟨k, time, q, message, rfl, hk, rfl⟩

theorem move_cases (he : P.move w mv = some (w', o)) : ∃ j e s, P.turn w mv = some (j, e) ∧
    P.step (w.party j) e = some (s, o) ∧
    w' = ⟨Function.update w.party j s, w.pool ++ (P.sends e o).map fun message => (j, message)⟩ := by
  obtain ⟨⟨j, e⟩, hturn, he⟩ := Option.bind_eq_some_iff.mp he
  obtain ⟨⟨s, o'⟩, hstep, he⟩ := Option.map_eq_some_iff.mp he
  obtain ⟨rfl, rfl⟩ := Prod.mk.inj he
  exact ⟨j, e, s, hturn, hstep, rfl⟩

theorem history_append : P.history i (h ++ h') = P.history i h ++ P.history i h' := List.filterMap_append

theorem run_party (hr : Run P.move w h w') (i : ι) : Run P.step (w.party i) (P.history i h) (w'.party i) := by
  induction hr with
  | start => exact .start
  | @snoc h t u mv o hr he ih =>
    obtain ⟨j, e, s, hturn, hstep, rfl⟩ := move_cases he
    rw [history_append]
    by_cases hj : j = i
    · subst hj
      have hlast : P.history j [⟨t, mv, o⟩] = [⟨t.party j, e, o⟩] := by
        simp [history, hturn]
      rw [hlast]
      simpa using ih.snoc hstep
    · have hlast : P.history i [⟨t, mv, o⟩] = [] := by
        simp [history, hturn, hj]
      rw [hlast, List.append_nil]
      simpa [Function.update_of_ne (Ne.symm hj)] using ih

theorem history_split {k₁ k₂ : List (Taken S E O)} {y : Taken S E O}
    (hk : P.history i h = k₁ ++ y :: k₂) : ∃ h₁ x h₂, h = h₁ ++ x :: h₂ ∧ P.history i h₁ = k₁ ∧
      P.history i h₂ = k₂ ∧ P.turn x.before x.event = some (i, y.event) ∧ y.before = x.before.party i ∧
      y.output = x.output := by
  obtain ⟨h₁, l, rfl, h₁', hl⟩ := List.filterMap_eq_append_iff.mp hk
  obtain ⟨l₀, x, h₂, rfl, hnone, hx, hh₂⟩ := List.filterMap_eq_cons_iff.mp hl
  obtain ⟨⟨j, e⟩, hturn, hx⟩ := Option.bind_eq_some_iff.mp hx
  obtain ⟨rfl, rfl⟩ : j = i ∧ y = ⟨x.before.party i, e, x.output⟩ := by
    by_cases hj : j = i
    · simp only [hj, if_true, Option.some.injEq] at hx
      exact ⟨hj, hx.symm⟩
    · simp [hj] at hx
  refine ⟨h₁ ++ l₀, x, h₂, by simp, ?_, hh₂, hturn, rfl, rfl⟩
  have hl₀ : P.history j l₀ = [] := List.filterMap_eq_nil_iff.mpr hnone
  rw [history_append, hl₀, List.append_nil]
  exact h₁'

theorem mem_history {x : Taken (World ι S M) (Move ι E T) O} {e : E} (hx : x ∈ h)
    (hturn : P.turn x.before x.event = some (i, e)) : ⟨x.before.party i, e, x.output⟩ ∈ P.history i h := by
  refine List.mem_filterMap.mpr ⟨x, hx, ?_⟩
  rw [hturn, Option.bind_some, if_pos rfl]

theorem origin (hr : Run P.move w h w') (h0 : w.pool = []) {message : M} (hm : (i, message) ∈ w'.pool) :
    ∃ h₁ x h₂ e, h = h₁ ++ x :: h₂ ∧ P.turn x.before x.event = some (i, e) ∧
      message ∈ P.sends e x.output := by
  induction hr with
  | start =>
    rw [h0] at hm
    exact absurd hm (by simp)
  | @snoc h t u mv o hr he ih =>
    obtain ⟨j, e, s, hturn, hstep, rfl⟩ := move_cases he
    rcases List.mem_append.mp hm with hm | hm
    · obtain ⟨h₁, x, h₂, e', rfl, hx⟩ := ih hm
      exact ⟨h₁, x, h₂ ++ [⟨t, mv, o⟩], e', by simp, hx⟩
    · obtain ⟨message', hs, heq⟩ := List.mem_map.mp hm
      obtain ⟨rfl, rfl⟩ := Prod.mk.inj heq
      exact ⟨h, ⟨t, mv, o⟩, [], e, rfl, hturn, hs⟩

/-- A message that was not there at first was sent in the run. -/
theorem origin_from (hr : Run P.move w h w') {k : Nat} (hk : w.pool.length ≤ k) {message : M}
    (hm : w'.pool[k]? = some (i, message)) : ∃ h₁ x h₂ e, h = h₁ ++ x :: h₂ ∧
      P.turn x.before x.event = some (i, e) ∧ message ∈ P.sends e x.output := by
  induction hr with
  | start =>
    rw [List.getElem?_eq_none hk] at hm
    cases hm
  | @snoc h t u mv o hr he ih =>
    obtain ⟨j, e, s, hturn, hstep, rfl⟩ := move_cases he
    by_cases hlt : k < t.pool.length
    · rw [List.getElem?_append_left hlt] at hm
      obtain ⟨h₁, x, h₂, e', rfl, hx⟩ := ih hm
      exact ⟨h₁, x, h₂ ++ [⟨t, mv, o⟩], e', by simp, hx⟩
    · rw [List.getElem?_append_right (by omega)] at hm
      obtain ⟨message', hs, heq⟩ := List.mem_map.mp (List.mem_of_getElem? hm)
      obtain ⟨rfl, rfl⟩ := Prod.mk.inj heq
      exact ⟨h, ⟨t, mv, o⟩, [], e, rfl, hturn, hs⟩

end Parties

end Interleaving
