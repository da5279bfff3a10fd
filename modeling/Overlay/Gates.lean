import Overlay.Execution

/-! A thread that starts another one and waits for it behind a condition variable: the other
one prepares a state, sets a flag under the lock and signals; from then on both of them work
on the state. The wait may end without a signal. Nothing here is about a particular state. -/

namespace Gates

open Execution

variable {S E O : Type*}

/-- `waits` tells the work of the thread that waits from that of the one it waits for. -/
structure Gated (S E O : Type*) where
  prepare : Option S
  step : S → E → Option (S × O)
  waits : E → Bool

/-- Where the thread is that prepares the state. -/
inductive Opener
  | absent
  | prepare
  | lock
  | set
  | unlock
  | signal
  | work
  deriving DecidableEq

/-- Where the thread is that waits; `gone` if it could not start the other one. -/
inductive Waiter
  | spawn
  | lock
  | test
  | asleep
  | woken
  | unlock
  | work
  | gone
  deriving DecidableEq

inductive Side
  | opener
  | waiter
  deriving DecidableEq

structure World (S : Type*) where
  opener : Opener
  waiter : Waiter
  holder : Option Side
  isOpen : Bool
  shared : Option S

/-- `refuse` is a failure to start the thread, `spurious` the end of a wait without a signal. -/
inductive Move (E : Type*)
  | opener
  | waiter
  | refuse
  | spurious
  | work (e : E)

/-- The output of a move is the step that it takes of the work. -/
abbrev Moment (S E O : Type*) := Taken (World S) (Move E) (List (Taken S E O))

namespace Gated

variable (G : Gated S E O)

def openerStep (w : World S) : Option (World S) :=
  match w.opener with
  | .absent => none
  | .prepare => G.prepare.map fun s => { w with opener := .lock, shared := some s }
  | .lock => if w.holder = none then some { w with opener := .set, holder := some .opener } else none
  | .set => some { w with opener := .unlock, isOpen := true }
  | .unlock => some { w with opener := .signal, holder := none }
  | .signal => some { w with opener := .work, waiter := if w.waiter = .asleep then .woken else w.waiter }
  | .work => none

/-- The test is made under the lock, and falling asleep gives the lock back at once. -/
def waiterStep (w : World S) : Option (World S) :=
  match w.waiter with
  | .spawn => some { w with opener := .prepare, waiter := .lock }
  | .lock => if w.holder = none then some { w with waiter := .test, holder := some .waiter } else none
  | .test => some (if w.isOpen then { w with waiter := .unlock } else { w with waiter := .asleep, holder := none })
  | .asleep => none
  | .woken => if w.holder = none then some { w with waiter := .test, holder := some .waiter } else none
  | .unlock => some { w with waiter := .work, holder := none }
  | .work => none
  | .gone => none

def atWork (w : World S) (e : E) : Bool :=
  if G.waits e then w.waiter = .work else w.opener = .work

def move (w : World S) : Move E → Option (World S × List (Taken S E O))
  | .opener => (G.openerStep w).map fun w' => (w', [])
  | .waiter => (waiterStep w).map fun w' => (w', [])
  | .refuse => if w.waiter = .spawn then some ({ w with waiter := .gone }, []) else none
  | .spurious => if w.waiter = .asleep then some ({ w with waiter := .woken }, []) else none
  | .work e =>
    if G.atWork w e then w.shared.bind fun s => (G.step s e).map fun r => ({ w with shared := some r.1 }, [⟨s, e, r.2⟩])
    else none

end Gated

def start : World S := { opener := .absent, waiter := .spawn, holder := none, isOpen := false, shared := none }

def worked (h : List (Moment S E O)) : List (Taken S E O) := h.flatMap Taken.output

theorem worked_snoc (h : List (Moment S E O)) (x : Moment S E O) : worked (h ++ [x]) = worked h ++ x.output := by
  simp [worked]

/-- What the lock, the flag and the signal are for. -/
structure World.Guarded (w : World S) : Prop where
  opener_holds : w.holder = some .opener ↔ w.opener = .set ∨ w.opener = .unlock
  waiter_holds : w.holder = some .waiter ↔ w.waiter = .test ∨ w.waiter = .unlock
  opened : w.isOpen = true ↔ w.opener = .unlock ∨ w.opener = .signal ∨ w.opener = .work
  passed : w.waiter = .unlock ∨ w.waiter = .work → w.isOpen = true
  signalled : w.waiter = .asleep → w.opener ≠ .work
  spawned : w.opener = .absent ↔ w.waiter = .spawn ∨ w.waiter = .gone
  prepared : w.shared = none ↔ w.opener = .absent ∨ w.opener = .prepare

/-- The state is the one that was prepared, after the work done on it. -/
def Progressed (G : Gated S E O) (steps : List (Taken S E O)) (shared : Option S) : Prop :=
  match shared with
  | none => steps = []
  | some t => ∃ s, G.prepare = some s ∧ Run G.step s steps t

variable {G : Gated S E O} {w w' : World S} {h : List (Moment S E O)} {out : List (Taken S E O)}

theorem guarded_start : (start : World S).Guarded := by
  constructor <;> simp [start]

theorem openerStep_guarded (hs : G.openerStep w = some w') (hw : w.Guarded) : w'.Guarded := by
  obtain ⟨hopener, hwaiter, hopened, hpassed, hsignalled, hspawned, hprepared⟩ := hw
  unfold Gated.openerStep at hs
  split at hs
  next => cases hs
  next hat =>
    obtain ⟨s, _, rfl⟩ := Option.map_eq_some_iff.mp hs
    constructor <;> simp_all
  next hat =>
    split at hs
    next hfree =>
      obtain rfl := Option.some.inj hs
      constructor <;> simp_all
    next => cases hs
  next hat =>
    obtain rfl := Option.some.inj hs
    constructor <;> simp_all
  next hat =>
    obtain rfl := Option.some.inj hs
    constructor <;> simp_all
  next hat =>
    obtain rfl := Option.some.inj hs
    by_cases hsleep : w.waiter = .asleep
    · constructor <;> simp_all
    · constructor <;> simp_all
  next => cases hs

theorem waiterStep_guarded (hs : Gated.waiterStep w = some w') (hw : w.Guarded) : w'.Guarded := by
  obtain ⟨hopener, hwaiter, hopened, hpassed, hsignalled, hspawned, hprepared⟩ := hw
  unfold Gated.waiterStep at hs
  split at hs
  next hat =>
    obtain rfl := Option.some.inj hs
    constructor <;> simp_all
  next hat =>
    split at hs
    next hfree =>
      obtain rfl := Option.some.inj hs
      constructor <;> simp_all
    next => cases hs
  next hat =>
    obtain rfl := Option.some.inj hs
    by_cases hopen : w.isOpen = true
    · constructor <;> simp_all
    · constructor <;> simp_all
  next => cases hs
  next hat =>
    split at hs
    next hfree =>
      obtain rfl := Option.some.inj hs
      constructor <;> simp_all
    next => cases hs
  next hat =>
    obtain rfl := Option.some.inj hs
    constructor <;> simp_all
  next => cases hs
  next => cases hs

/-- What a move leads to: the work goes by the threads that are through, all else is on the way there. -/
theorem move_cases {mv : Move E} (hm : G.move w mv = some (w', out)) :
    (mv = .opener ∧ G.openerStep w = some w' ∧ out = []) ∨
    (mv = .waiter ∧ Gated.waiterStep w = some w' ∧ out = []) ∨
    (mv = .refuse ∧ w.waiter = .spawn ∧ w' = { w with waiter := .gone } ∧ out = []) ∨
    (mv = .spurious ∧ w.waiter = .asleep ∧ w' = { w with waiter := .woken } ∧ out = []) ∨
    ∃ e s s' o, mv = .work e ∧ G.atWork w e = true ∧ w.shared = some s ∧ G.step s e = some (s', o) ∧
      w' = { w with shared := some s' } ∧ out = [⟨s, e, o⟩] := by
  cases mv with
  | opener =>
    obtain ⟨v, hv, he⟩ := Option.map_eq_some_iff.mp hm
    obtain ⟨rfl, rfl⟩ := Prod.mk.inj he
    exact Or.inl ⟨rfl, hv, rfl⟩
  | waiter =>
    obtain ⟨v, hv, he⟩ := Option.map_eq_some_iff.mp hm
    obtain ⟨rfl, rfl⟩ := Prod.mk.inj he
    exact Or.inr (Or.inl ⟨rfl, hv, rfl⟩)
  | refuse =>
    obtain ⟨hat, he⟩ := Option.ite_none_right_eq_some.mp hm
    obtain ⟨rfl, rfl⟩ := Prod.mk.inj (Option.some.inj he)
    exact Or.inr (Or.inr (Or.inl ⟨rfl, hat, rfl, rfl⟩))
  | spurious =>
    obtain ⟨hat, he⟩ := Option.ite_none_right_eq_some.mp hm
    obtain ⟨rfl, rfl⟩ := Prod.mk.inj (Option.some.inj he)
    exact Or.inr (Or.inr (Or.inr (Or.inl ⟨rfl, hat, rfl, rfl⟩)))
  | work e =>
    obtain ⟨hat, he⟩ := Option.ite_none_right_eq_some.mp hm
    obtain ⟨s, hs, he⟩ := Option.bind_eq_some_iff.mp he
    obtain ⟨⟨s', o⟩, hstep, he⟩ := Option.map_eq_some_iff.mp he
    obtain ⟨rfl, rfl⟩ := Prod.mk.inj he
    exact Or.inr (Or.inr (Or.inr (Or.inr ⟨e, s, s', o, rfl, hat, hs, hstep, rfl, rfl⟩)))

theorem move_guarded {mv : Move E} (hm : G.move w mv = some (w', out)) (hw : w.Guarded) : w'.Guarded := by
  obtain ⟨-, hs, -⟩ | ⟨-, hs, -⟩ | ⟨-, hat, rfl, -⟩ | ⟨-, hat, rfl, -⟩ | ⟨e, s, s', o, -, -, hs, -, rfl, -⟩ := move_cases hm
  · exact openerStep_guarded hs hw
  · exact waiterStep_guarded hs hw
  · obtain ⟨hopener, hwaiter, hopened, hpassed, hsignalled, hspawned, hprepared⟩ := hw
    constructor <;> simp_all
  · obtain ⟨hopener, hwaiter, hopened, hpassed, hsignalled, hspawned, hprepared⟩ := hw
    constructor <;> simp_all
  · obtain ⟨hopener, hwaiter, hopened, hpassed, hsignalled, hspawned, hprepared⟩ := hw
    constructor <;> simp_all

theorem openerStep_shared (hs : G.openerStep w = some w') :
    (w.opener = .prepare ∧ ∃ s, G.prepare = some s ∧ w'.shared = some s) ∨ w'.shared = w.shared := by
  unfold Gated.openerStep at hs
  split at hs
  next => cases hs
  next hat =>
    obtain ⟨s, hp, rfl⟩ := Option.map_eq_some_iff.mp hs
    exact Or.inl ⟨hat, s, hp, rfl⟩
  next =>
    obtain ⟨_, he⟩ := Option.ite_none_right_eq_some.mp hs
    exact Or.inr (by rw [← Option.some.inj he])
  next => exact Or.inr (by rw [← Option.some.inj hs])
  next => exact Or.inr (by rw [← Option.some.inj hs])
  next => exact Or.inr (by rw [← Option.some.inj hs])
  next => cases hs

theorem waiterStep_shared (hs : Gated.waiterStep w = some w') : w'.shared = w.shared := by
  unfold Gated.waiterStep at hs
  split at hs
  next => rw [← Option.some.inj hs]
  next =>
    obtain ⟨_, he⟩ := Option.ite_none_right_eq_some.mp hs
    rw [← Option.some.inj he]
  next =>
    rw [← Option.some.inj hs]
    split <;> rfl
  next => cases hs
  next =>
    obtain ⟨_, he⟩ := Option.ite_none_right_eq_some.mp hs
    rw [← Option.some.inj he]
  next => rw [← Option.some.inj hs]
  next => cases hs
  next => cases hs

theorem Progressed.work {steps : List (Taken S E O)} {s s' : S} {e : E} {o : O} (hp : Progressed G steps (some s))
    (hs : G.step s e = some (s', o)) : Progressed G (steps ++ [⟨s, e, o⟩]) (some s') := by
  obtain ⟨s₀, hprepare, hr⟩ := hp
  exact ⟨s₀, hprepare, hr.snoc hs⟩

theorem move_progressed {mv : Move E} (hm : G.move w mv = some (w', out)) (hw : w.Guarded)
    {steps : List (Taken S E O)} (hp : Progressed G steps w.shared) : Progressed G (steps ++ out) w'.shared := by
  obtain ⟨-, hs, rfl⟩ | ⟨-, hs, rfl⟩ | ⟨-, hat, rfl, rfl⟩ | ⟨-, hat, rfl, rfl⟩ | ⟨e, s, s', o, -, -, hs, hstep, rfl, rfl⟩ := move_cases hm
  · rw [List.append_nil]
    obtain ⟨hat, s, hprepare, hs'⟩ | hs' := openerStep_shared hs
    · -- nothing was done before the state was prepared
      have hnone : w.shared = none := hw.prepared.mpr (Or.inr hat)
      rw [hnone] at hp
      obtain rfl : steps = [] := hp
      rw [hs']
      exact ⟨s, hprepare, .start⟩
    · rwa [hs']
  · rwa [List.append_nil, waiterStep_shared hs]
  · rwa [List.append_nil]
  · rwa [List.append_nil]
  · rw [hs] at hp
    exact hp.work hstep

theorem run_guarded (hr : Run G.move start h w) : w.Guarded :=
  hr.invariant guarded_start fun hw hm => move_guarded hm hw

/-- Whatever the order of the moves, the work is a run from the prepared state. -/
theorem run_progressed (hr : Run G.move start h w) : Progressed G (worked h) w.shared := by
  induction hr with
  | start => rfl
  | snoc hr hm ih =>
    rw [worked_snoc]
    exact move_progressed hm (run_guarded hr) ih

/-! How long it takes. -/

def Opener.rank : Opener → Nat
  | .absent => 6
  | .prepare => 5
  | .lock => 4
  | .set => 3
  | .unlock => 2
  | .signal => 1
  | .work => 0

def Waiter.rank : Waiter → Nat
  | .spawn => 6
  | .lock => 5
  | .woken => 4
  | .test => 3
  | .unlock => 2
  | .asleep => 1
  | .work => 0
  | .gone => 0

/-- A signal puts the waiter back by three steps, so a step of the opener counts for four. -/
def World.remaining (w : World S) : Nat := 4 * w.opener.rank + w.waiter.rank

def Move.starts : Move E → Bool
  | .opener => true
  | .waiter => true
  | .refuse => true
  | .spurious => false
  | .work _ => false

def Move.isSpurious : Move E → Bool
  | .spurious => true
  | _ => false

theorem openerStep_remaining (hs : G.openerStep w = some w') : w'.remaining < w.remaining := by
  unfold Gated.openerStep at hs
  split at hs
  next => cases hs
  next hat =>
    obtain ⟨s, _, rfl⟩ := Option.map_eq_some_iff.mp hs
    simp [World.remaining, Opener.rank, hat]
  next hat =>
    obtain ⟨_, he⟩ := Option.ite_none_right_eq_some.mp hs
    simp [← Option.some.inj he, World.remaining, Opener.rank, hat]
  next hat => simp [← Option.some.inj hs, World.remaining, Opener.rank, hat]
  next hat => simp [← Option.some.inj hs, World.remaining, Opener.rank, hat]
  next hat =>
    by_cases hsleep : w.waiter = .asleep
    · simp [← Option.some.inj hs, World.remaining, Opener.rank, Waiter.rank, hat, hsleep]
    · simp [← Option.some.inj hs, World.remaining, Opener.rank, hat, hsleep]
  next => cases hs

theorem waiterStep_remaining (hs : Gated.waiterStep w = some w') (hw : w.Guarded) : w'.remaining < w.remaining := by
  unfold Gated.waiterStep at hs
  split at hs
  next hat =>
    have habsent : w.opener = .absent := hw.spawned.mpr (Or.inl hat)
    simp [← Option.some.inj hs, World.remaining, Opener.rank, Waiter.rank, hat, habsent]
  next hat =>
    obtain ⟨_, he⟩ := Option.ite_none_right_eq_some.mp hs
    simp [← Option.some.inj he, World.remaining, Waiter.rank, hat]
  next hat =>
    by_cases hopen : w.isOpen = true
    · simp [← Option.some.inj hs, World.remaining, Waiter.rank, hat, hopen]
    · simp [← Option.some.inj hs, World.remaining, Waiter.rank, hat, hopen]
  next => cases hs
  next hat =>
    obtain ⟨_, he⟩ := Option.ite_none_right_eq_some.mp hs
    simp [← Option.some.inj he, World.remaining, Waiter.rank, hat]
  next hat => simp [← Option.some.inj hs, World.remaining, Waiter.rank, hat]
  next => cases hs
  next => cases hs

theorem move_remaining {mv : Move E} (hm : G.move w mv = some (w', out)) (hw : w.Guarded) :
    w'.remaining + mv.starts.toNat ≤ w.remaining + 3 * mv.isSpurious.toNat := by
  obtain ⟨rfl, hs, -⟩ | ⟨rfl, hs, -⟩ | ⟨rfl, hat, rfl, -⟩ | ⟨rfl, hat, rfl, -⟩ | ⟨e, s, s', o, rfl, -, -, -, rfl, -⟩ := move_cases hm
  · exact openerStep_remaining hs
  · exact waiterStep_remaining hs hw
  · simp [World.remaining, Waiter.rank, Move.starts, Move.isSpurious, hat]
  · simp [World.remaining, Waiter.rank, Move.starts, Move.isSpurious, hat]
  · simp [World.remaining, Move.starts, Move.isSpurious]

def startups (h : List (Moment S E O)) : Nat := h.countP fun x => x.event.starts
def spuriousWakeups (h : List (Moment S E O)) : Nat := h.countP fun x => x.event.isSpurious

/-- Both threads are through after a number of steps that only the wake-ups without a signal
make longer, by three steps each. -/
theorem run_startups (hr : Run G.move start h w) : startups h + w.remaining ≤ 30 + 3 * spuriousWakeups h := by
  induction hr with
  | start => exact Nat.le_refl 30
  | @snoc h w w' mv out hr hm ih =>
    have hstep := move_remaining hm (run_guarded hr)
    have hstarts : startups (h ++ [⟨w, mv, out⟩]) = startups h + mv.starts.toNat := by
      cases hs : mv.starts <;> simp [startups, hs]
    have hspurious : spuriousWakeups (h ++ [⟨w, mv, out⟩]) = spuriousWakeups h + mv.isSpurious.toNat := by
      cases hs : mv.isSpurious <;> simp [spuriousWakeups, hs]
    rw [hstarts, hspurious]
    omega

theorem World.Guarded.waiterStep_of_holds (hw : w.Guarded) (hh : w.holder = some .waiter) : Gated.waiterStep w ≠ none := by
  rcases hw.waiter_holds.mp hh with hat | hat
  · simp [Gated.waiterStep, hat]
  · simp [Gated.waiterStep, hat]

theorem World.Guarded.openerStep_of_holds (hw : w.Guarded) (hh : w.holder = some .opener) : G.openerStep w ≠ none := by
  rcases hw.opener_holds.mp hh with hat | hat
  · simp [Gated.openerStep, hat]
  · simp [Gated.openerStep, hat]

/-- As long as a thread is on its way, one of them can go on without a wake-up out of the blue:
no signal is lost, and the lock is never held by a thread that waits. -/
theorem World.Guarded.goes_on (hw : w.Guarded) (hp : G.prepare.isSome) (ho : G.openerStep w = none)
    (hwait : Gated.waiterStep w = none) : w.opener = .work ∧ w.waiter = .work ∨ w.waiter = .gone := by
  have hfree : w.holder = none := by
    cases hh : w.holder with
    | none => rfl
    | some side =>
      cases side with
      | opener => exact absurd ho (hw.openerStep_of_holds hh)
      | waiter => exact absurd hwait (hw.waiterStep_of_holds hh)
  cases hat : w.waiter with
  | gone => exact Or.inr rfl
  | work =>
    have hopen := hw.opened.mp (hw.passed (Or.inr hat))
    rcases hopen with hopener | hopener | hopener
    · simp [Gated.openerStep, hopener] at ho
    · simp [Gated.openerStep, hopener] at ho
    · exact Or.inl ⟨hopener, rfl⟩
  | asleep =>
    have hspawned : w.opener ≠ .absent := fun habsent => by simpa [hat] using hw.spawned.mp habsent
    obtain ⟨s, hs⟩ := Option.isSome_iff_exists.mp hp
    cases hopener : w.opener with
    | absent => exact absurd hopener hspawned
    | work => exact absurd hopener (hw.signalled hat)
    | prepare => simp [Gated.openerStep, hopener, hs] at ho
    | lock => simp [Gated.openerStep, hopener, hfree] at ho
    | set => simp [Gated.openerStep, hopener] at ho
    | unlock => simp [Gated.openerStep, hopener] at ho
    | signal => simp [Gated.openerStep, hopener] at ho
  | spawn => simp [Gated.waiterStep, hat] at hwait
  | lock => simp [Gated.waiterStep, hat, hfree] at hwait
  | test => simp [Gated.waiterStep, hat] at hwait
  | woken => simp [Gated.waiterStep, hat, hfree] at hwait
  | unlock => simp [Gated.waiterStep, hat] at hwait

/-- The thread that waits works on nothing that is not prepared. -/
theorem World.Guarded.waiter_after (hw : w.Guarded) (hat : w.waiter = .work) : w.shared ≠ none := by
  intro hnone
  have hopen := hw.opened.mp (hw.passed (Or.inr hat))
  have hprepare := hw.prepared.mp hnone
  rcases hopen with hopener | hopener | hopener
  · simp [hopener] at hprepare
  · simp [hopener] at hprepare
  · simp [hopener] at hprepare

end Gates
