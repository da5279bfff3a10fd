import Overlay.Announcements
import Overlay.Gates
import Overlay.Threads

/-! The start of the simulation. `simulateMachine` starts the simulator thread, which runs
`initialize` and signals, and waits for it before the event loop takes the first frame. -/

namespace Overlay

open Execution Gates

def InterfaceInformation.interface (i : InterfaceInformation) : Interface := { ip := i.ip, mac := i.mac }

/-- What `initialize` makes of the information of the server; the machine uses two interfaces. -/
def Information.machine (information : Information) : Option Machine :=
  match information.interfaces with
  | first :: second :: _ =>
    Machine.initializeMachine (fun i => if i = 0 then first.interface else second.interface) information.customInfo
  | _ => none

/-- The main thread waits and then takes the frames; `st_run` initializes and then takes the commands. -/
def simulateMachine (information : Information) : Gated Threads ThreadEvent (List Sent) where
  prepare := information.machine.map fun m => ⟨m, .idle⟩
  step := Threads.step
  waits := ThreadEvent.isFrame

variable {information : Information} {m₀ : Machine} {h : List (Moment Threads ThreadEvent (List Sent))} {w : World Threads}

/-- Whatever the scheduler does and however often the wait ends for no reason: the frames and
the commands are those of a run from the machine that `initialize` left, no thread is at work
before that, both of them are after a bounded number of steps, and neither waits for ever. -/
theorem simulation_begins (hi : information.machine = some m₀) (hr : Run (simulateMachine information).move start h w) :
    (w.shared = none ∧ worked h = [] ∨ ∃ t, w.shared = some t ∧ Run Threads.step ⟨m₀, .idle⟩ (worked h) t) ∧
    (w.waiter = .work ∨ w.opener = .work → w.shared ≠ none) ∧
    startups h ≤ 30 + 3 * spuriousWakeups h ∧
    ((simulateMachine information).openerStep w = none → Gated.waiterStep w = none →
      w.opener = .work ∧ w.waiter = .work ∨ w.waiter = .gone) := by
  have hw := run_guarded hr
  have hprepare : (simulateMachine information).prepare = some ⟨m₀, .idle⟩ := by simp [simulateMachine, hi]
  refine ⟨?_, ?_, ?_, hw.goes_on (by rw [hprepare]; rfl)⟩
  · have hp := run_progressed hr
    cases hs : w.shared with
    | none =>
      rw [hs] at hp
      exact Or.inl ⟨rfl, hp⟩
    | some t =>
      rw [hs] at hp
      obtain ⟨s, hs₀, hrun⟩ := hp
      obtain rfl := Option.some.inj (hprepare.symm.trans hs₀)
      exact Or.inr ⟨t, rfl, hrun⟩
  · rintro (hat | hat)
    · exact hw.waiter_after hat
    · intro hnone
      simpa [hat] using hw.prepared.mp hnone
  · exact le_trans (Nat.le_add_right _ _) (run_startups hr)

def sampleInformation : Information where
  interfaces := [⟨⟨2, 0, 0, 0, 0, 1⟩, 0xC0A80001, 0xFFFFFF00⟩, ⟨⟨2, 0, 0, 0, 0, 2⟩, 0x0A000002, 0xFF000000⟩]
  customInfo := sampleInfo

/-- The wait ends once for no reason; then a ping is sent. -/
def sampleStartup : List (Gates.Move ThreadEvent) :=
  [.waiter, .waiter, .waiter, .spurious, .opener, .waiter, .waiter, .opener, .opener, .opener, .opener, .waiter, .waiter,
    .waiter, .work .check, .work (.request 0), .work (.frame [] 0)]

theorem simulation_begins_after_wakeup : ∃ m₀ h w t, Run (simulateMachine sampleInformation).move start h w ∧
    spuriousWakeups h = 1 ∧ startups h ≤ 33 ∧ (worked h).length = 3 ∧ Run Threads.step ⟨m₀, .idle⟩ (worked h) t := by
  obtain ⟨m₀, hi⟩ : ∃ m₀, sampleInformation.machine = some m₀ := Option.isSome_iff_exists.mp (by decide +kernel)
  obtain ⟨s, h, w, hs, hr, -, hworked, hspurious⟩ := @exists_run _ _ _ (simulateMachine sampleInformation).move
    (World Threads) (some start) id sampleStartup (fun _ h => (worked h).length = 3 ∧ spuriousWakeups h = 1)
    inferInstance (by decide +kernel)
  obtain rfl := Option.some.inj hs
  obtain ⟨hwork, -, hbound, -⟩ := simulation_begins hi hr
  rw [hspurious] at hbound
  obtain ⟨-, hnone⟩ | ⟨t, -, hrun⟩ := hwork
  · rw [hnone] at hworked
    cases hworked
  · exact ⟨m₀, h, w, t, hr, hspurious, hbound, hworked, hrun⟩

end Overlay
