import Overlay.Execution
import Mathlib.Logic.Function.Basic

/-! Threads that share a state under one lock. A thread calls for a job, waits for the lock,
takes the steps of the job one by one and leaves the lock with a result. In whatever order the
threads move, the state is that of the finished jobs, one behind the other, and of the part
of a job that the holder of the lock is through with. Nothing here is about particular jobs. -/

namespace CriticalSections

open Execution

variable {ι J L S A R : Type*}

/-- A step goes by what the outside answers to it. -/
structure Sections (J L S A R : Type*) where
  enter : J → L
  act : L → S → A → Option (L × S)
  leave : L → S → Option (R × S)

inductive Phase (J L : Type*)
  | outside
  | waiting (job : J)
  | inside (job : J) (place : L)

def Phase.pending : Phase J L → List J
  | .outside => []
  | .waiting job => [job]
  | .inside job _ => [job]

structure World (ι J L S : Type*) where
  phase : ι → Phase J L
  holder : Option ι
  shared : S

def World.set [DecidableEq ι] (w : World ι J L S) (i : ι) (phase : Phase J L) : World ι J L S :=
  { w with phase := Function.update w.phase i phase }

@[simp] theorem World.set_self [DecidableEq ι] (w : World ι J L S) (i : ι) (phase : Phase J L) :
    (w.set i phase).phase i = phase := Function.update_self ..

theorem World.set_of_ne [DecidableEq ι] (w : World ι J L S) {i j : ι} (hj : j ≠ i) (phase : Phase J L) :
    (w.set i phase).phase j = w.phase j := Function.update_of_ne hj ..

@[simp] theorem World.set_holder [DecidableEq ι] (w : World ι J L S) (i : ι) (phase : Phase J L) :
    (w.set i phase).holder = w.holder := rfl

inductive Move (ι J A : Type*)
  | call (i : ι) (job : J)
  | lock (i : ι)
  | act (i : ι) (a : A)
  | unlock (i : ι)

abbrev Moment (ι J L S A R : Type*) := Taken (World ι J L S) (Move ι J A) (List (ι × J × R))

namespace Sections

variable (P : Sections J L S A R)

/-- A job from the state in which its section was entered. -/
inductive Inside (job : J) (s : S) : L → S → Prop
  | entered : Inside job s (P.enter job) s
  | acted {place place' : L} {t t' : S} {a : A} :
      Inside job s place t → P.act place t a = some (place', t') → Inside job s place' t'

/-- Whole jobs, one behind the other. -/
inductive Serial (s : S) : List (ι × J × R) → S → Prop
  | start : Serial s [] s
  | snoc {finished : List (ι × J × R)} {t u v : S} {place : L} {r : R} {i : ι} {job : J} :
      Serial s finished t → P.Inside job t place u → P.leave place u = some (r, v) →
      Serial s (finished ++ [(i, job, r)]) v

variable [DecidableEq ι]

/-- The output is the job that is finished, with its result. -/
def move (w : World ι J L S) : Move ι J A → Option (World ι J L S × List (ι × J × R))
  | .call i job =>
    match w.phase i with
    | .outside => some (w.set i (.waiting job), [])
    | _ => none
  | .lock i =>
    match w.phase i, w.holder with
    | .waiting job, none => some ({ w.set i (.inside job (P.enter job)) with holder := some i }, [])
    | _, _ => none
  | .act i a =>
    match w.phase i with
    | .inside job place =>
      (P.act place w.shared a).map fun r => ({ w.set i (.inside job r.1) with shared := r.2 }, [])
    | _ => none
  | .unlock i =>
    match w.phase i with
    | .inside job place => (P.leave place w.shared).map fun r =>
      ({ w.set i .outside with holder := none, shared := r.2 }, [(i, job, r.1)])
    | _ => none

end Sections

def finished (h : List (Moment ι J L S A R)) : List (ι × J × R) := h.flatMap Taken.output

variable [DecidableEq ι]

def finishedBy (i : ι) (h : List (Moment ι J L S A R)) : List J :=
  (finished h).filterMap fun f => if f.1 = i then some f.2.1 else none

@[simp] def Move.calls (i : ι) : Move ι J A → Option J
  | .call j job => if j = i then some job else none
  | _ => none

def calledBy (i : ι) (h : List (Moment ι J L S A R)) : List J := h.filterMap fun x => x.event.calls i

/-- The holder of the lock is the one thread inside. -/
def World.Held (w : World ι J L S) : Prop := ∀ i, w.holder = some i ↔ ∃ job place, w.phase i = .inside job place

def SerialSoFar (P : Sections J L S A R) (s : S) (jobs : List (ι × J × R)) (w : World ι J L S) : Prop :=
  ∃ t, P.Serial s jobs t ∧ (w.holder = none → w.shared = t) ∧
    ∀ i job place, w.phase i = .inside job place → P.Inside job t place w.shared

structure Consistent (P : Sections J L S A R) (s : S) (h : List (Moment ι J L S A R)) (w : World ι J L S) :
    Prop where
  held : w.Held
  serial : SerialSoFar P s (finished h) w
  order : ∀ i, calledBy i h = finishedBy i h ++ (w.phase i).pending

def start (s : S) : World ι J L S := { phase := fun _ => .outside, holder := none, shared := s }

variable {P : Sections J L S A R} {s : S} {h : List (Moment ι J L S A R)} {w w' : World ι J L S}

omit [DecidableEq ι] in
theorem finished_snoc (x : Moment ι J L S A R) : finished (h ++ [x]) = finished h ++ x.output := by
  simp [finished]

theorem finishedBy_snoc (i : ι) (x : Moment ι J L S A R) : finishedBy i (h ++ [x]) =
    finishedBy i h ++ x.output.filterMap fun f => if f.1 = i then some f.2.1 else none := by
  rw [finishedBy, finished_snoc, List.filterMap_append, finishedBy]

theorem calledBy_snoc (i : ι) (x : Moment ι J L S A R) :
    calledBy i (h ++ [x]) = calledBy i h ++ (x.event.calls i).toList := by
  rw [calledBy, List.filterMap_append, calledBy]
  cases hx : x.event.calls i with
  | none => simp only [List.filterMap_cons, List.filterMap_nil, hx, Option.toList_none]
  | some job => simp only [List.filterMap_cons, List.filterMap_nil, hx, Option.toList_some]

/-- What a move does. -/
inductive Moved (P : Sections J L S A R) (w : World ι J L S) :
    Move ι J A → World ι J L S → List (ι × J × R) → Prop
  | call {i : ι} (job : J) : w.phase i = .outside → Moved P w (.call i job) (w.set i (.waiting job)) []
  | lock {i : ι} {job : J} : w.phase i = .waiting job → w.holder = none →
      Moved P w (.lock i) { w.set i (.inside job (P.enter job)) with holder := some i } []
  | act {i : ι} {job : J} {place place' : L} {a : A} {u : S} : w.phase i = .inside job place →
      P.act place w.shared a = some (place', u) →
      Moved P w (.act i a) { w.set i (.inside job place') with shared := u } []
  | unlock {i : ι} {job : J} {place : L} {r : R} {u : S} : w.phase i = .inside job place →
      P.leave place w.shared = some (r, u) →
      Moved P w (.unlock i) { w.set i .outside with holder := none, shared := u } [(i, job, r)]

theorem moved_of_move {mv : Move ι J A} {out : List (ι × J × R)} (hm : P.move w mv = some (w', out)) :
    Moved P w mv w' out := by
  cases mv with
  | call i job =>
    simp only [Sections.move] at hm
    split at hm
    · obtain ⟨rfl, rfl⟩ := Prod.mk.inj (Option.some.inj hm)
      exact .call job ‹_›
    · cases hm
  | lock i =>
    simp only [Sections.move] at hm
    split at hm
    · obtain ⟨rfl, rfl⟩ := Prod.mk.inj (Option.some.inj hm)
      exact .lock ‹_› ‹_›
    · cases hm
  | act i a =>
    simp only [Sections.move] at hm
    split at hm
    · obtain ⟨⟨place', u⟩, hact, hm⟩ := Option.map_eq_some_iff.mp hm
      obtain ⟨rfl, rfl⟩ := Prod.mk.inj hm
      exact .act ‹_› hact
    · cases hm
  | unlock i =>
    simp only [Sections.move] at hm
    split at hm
    · obtain ⟨⟨r, u⟩, hleave, hm⟩ := Option.map_eq_some_iff.mp hm
      obtain ⟨rfl, rfl⟩ := Prod.mk.inj hm
      exact .unlock ‹_› hleave
    · cases hm

theorem Moved.held {mv : Move ι J A} {out : List (ι × J × R)} (hm : Moved P w mv w' out) (hw : w.Held) : w'.Held := by
  intro j
  cases hm with
  | @call i job hi =>
    by_cases hj : j = i
    · subst hj
      simp [hw j, hi]
    · simpa [w.set_of_ne hj] using hw j
  | @lock i job hi hfree =>
    by_cases hj : j = i
    · subst hj
      simp
    · have hne : ¬ i = j := fun he => hj he.symm
      simpa [w.set_of_ne hj, hne, hfree] using hw j
  | @act i job place place' a u hi _ =>
    by_cases hj : j = i
    · subst hj
      simp [hw j, hi]
    · simpa [w.set_of_ne hj] using hw j
  | @unlock i job place r u hi _ =>
    have hheld : w.holder = some i := (hw i).mpr ⟨job, place, hi⟩
    by_cases hj : j = i
    · subst hj
      simp
    · have hne : ¬ i = j := fun he => hj he.symm
      simpa [w.set_of_ne hj, hheld, hne] using hw j

theorem Moved.serial {mv : Move ι J A} {out : List (ι × J × R)} (hm : Moved P w mv w' out) (hw : w.Held)
    (hs : SerialSoFar P s (finished h) w) : SerialSoFar P s (finished (h ++ [⟨w, mv, out⟩])) w' := by
  obtain ⟨t, hserial, hfree, hinside⟩ := hs
  have hfinished : finished (h ++ [⟨w, mv, out⟩]) = finished h ++ out := finished_snoc _
  rw [hfinished]
  cases hm with
  | @call i job hi =>
    rw [List.append_nil]
    refine ⟨t, hserial, hfree, fun j job' place hj => ?_⟩
    by_cases hji : j = i
    · subst hji
      simp at hj
    · exact hinside j job' place (w.set_of_ne hji _ ▸ hj)
  | @lock i job hi hnone =>
    rw [List.append_nil]
    refine ⟨t, hserial, fun h => by simp at h, fun j job' place hj => ?_⟩
    by_cases hji : j = i
    · subst hji
      simp only [World.set_self, Phase.inside.injEq] at hj
      obtain ⟨rfl, rfl⟩ := hj
      rw [← hfree hnone]
      exact .entered
    · have hother : w.holder = some j := (hw j).mpr ⟨job', place, w.set_of_ne hji _ ▸ hj⟩
      cases hnone.symm.trans hother
  | @act i job place place' a u hi hact =>
    have hheld : w.holder = some i := (hw i).mpr ⟨job, place, hi⟩
    rw [List.append_nil]
    refine ⟨t, hserial, fun hnone => ?_, fun j job' place'' hj => ?_⟩
    · cases hheld.symm.trans hnone
    · by_cases hji : j = i
      · subst hji
        simp only [World.set_self, Phase.inside.injEq] at hj
        obtain ⟨rfl, rfl⟩ := hj
        exact (hinside j job place hi).acted hact
      · have hother : w.holder = some j := (hw j).mpr ⟨job', place'', w.set_of_ne hji _ ▸ hj⟩
        exact absurd (Option.some.inj (hother.symm.trans hheld)) hji
  | @unlock i job place r u hi hleave =>
    have hheld : w.holder = some i := (hw i).mpr ⟨job, place, hi⟩
    refine ⟨u, hserial.snoc (hinside i job place hi) hleave, fun _ => rfl, fun j job' place' hj => ?_⟩
    by_cases hji : j = i
    · subst hji
      simp at hj
    · have hother : w.holder = some j := (hw j).mpr ⟨job', place', w.set_of_ne hji _ ▸ hj⟩
      exact absurd (Option.some.inj (hother.symm.trans hheld)) hji

theorem Moved.order {mv : Move ι J A} {out : List (ι × J × R)} (hm : Moved P w mv w' out) {j : ι}
    (ho : calledBy j h = finishedBy j h ++ (w.phase j).pending) :
    calledBy j (h ++ [⟨w, mv, out⟩]) = finishedBy j (h ++ [⟨w, mv, out⟩]) ++ (w'.phase j).pending := by
  rw [calledBy_snoc, finishedBy_snoc, ho]
  cases hm with
  | @call i job hi =>
    by_cases hj : j = i
    · subst hj
      simp [hi, Phase.pending]
    · simp [w.set_of_ne hj, Ne.symm hj]
  | @lock i job hi _ =>
    by_cases hj : j = i
    · subst hj
      simp [hi, Phase.pending]
    · simp [w.set_of_ne hj]
  | @act i job place place' a u hi _ =>
    by_cases hj : j = i
    · subst hj
      simp [hi, Phase.pending]
    · simp [w.set_of_ne hj]
  | @unlock i job place r u hi _ =>
    by_cases hj : j = i
    · subst hj
      simp [hi, Phase.pending]
    · simp [w.set_of_ne hj, Ne.symm hj]

/-- Whatever the order of the moves, the shared state is that of whole jobs one behind the
other, in the order in which the lock was left, and of a part of one job at most; and each
thread gets its jobs done in the order in which it called for them. -/
theorem consistent (hr : Run P.move (start s) h w) : Consistent P s h w := by
  induction hr with
  | start => exact ⟨fun i => by simp [start], ⟨s, .start, fun _ => rfl, fun i job place hi => nomatch hi⟩, fun i => rfl⟩
  | snoc _ hm ih =>
    have hmoved := moved_of_move hm
    exact ⟨hmoved.held ih.held, hmoved.serial ih.held ih.serial, fun i => hmoved.order (ih.order i)⟩

end CriticalSections
