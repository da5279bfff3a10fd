import Overlay.Execution

/-! A transition system that follows another one: each step of the one is matched by a run of
the other, perhaps an empty one, that shows the same. Nothing here is about a particular system. -/

namespace Simulation

open Execution

variable {S E O S' E' O' V : Type*}

/-- What a history shows; other steps are silent. -/
def shown (view : Taken S E O → Option V) (h : List (Taken S E O)) : List V := h.filterMap view

variable {step : S → E → Option (S × O)} {step' : S' → E' → Option (S' × O')} {view : Taken S E O → Option V}
  {view' : Taken S' E' O' → Option V} {R : S → S' → Prop} {C : V → Prop} {s t : S} {s' : S'} {h : List (Taken S E O)}

theorem shown_append (h k : List (Taken S E O)) : shown view (h ++ k) = shown view h ++ shown view k :=
  List.filterMap_append

theorem shown_single (x : Taken S E O) : shown view [x] = (view x).toList := by
  cases hx : view x with
  | none => simp [shown, hx]
  | some v => simp [shown, hx]

/-- Steps that show nothing or something with `C` are matched. -/
def Matches (step : S → E → Option (S × O)) (view : Taken S E O → Option V) (step' : S' → E' → Option (S' × O'))
    (view' : Taken S' E' O' → Option V) (C : V → Prop) (R : S → S' → Prop) : Prop :=
  ∀ {s s' e t o}, R s s' → step s e = some (t, o) → (∀ v ∈ view ⟨s, e, o⟩, C v) →
    ∃ k t', Run step' s' k t' ∧ shown view' k = (view ⟨s, e, o⟩).toList ∧ R t t'

theorem Matches.run (hm : Matches step view step' view' C R) (hr : Run step s h t) (h₀ : R s s')
    (hc : ∀ v ∈ shown view h, C v) : ∃ k t', Run step' s' k t' ∧ shown view' k = shown view h ∧ R t t' := by
  induction hr with
  | start => exact ⟨[], s', .start, rfl, h₀⟩
  | @snoc h t u e o hr he ih =>
    rw [shown_append, shown_single] at hc ⊢
    obtain ⟨k, t', hk, hshown, ht⟩ := ih fun v hv => hc v (List.mem_append_left _ hv)
    obtain ⟨k', u', hk', hshown', hu⟩ := hm ht he fun v hv =>
      hc v (List.mem_append_right _ (Option.mem_toList.mpr hv))
    refine ⟨k ++ k', u', hk.trans hk', ?_, hu⟩
    rw [shown_append, hshown, hshown']

/-- What every step shows, a run shows. -/
theorem shown_all (hr : Run step s h t)
    (hstep : ∀ {s e t o}, step s e = some (t, o) → ∀ v ∈ view ⟨s, e, o⟩, C v) : ∀ v ∈ shown view h, C v := by
  induction hr with
  | start => exact fun v hv => absurd hv List.not_mem_nil
  | snoc hr he ih =>
    intro v hv
    rw [shown_append, shown_single] at hv
    rcases List.mem_append.mp hv with hv | hv
    · exact ih v hv
    · exact hstep he v (Option.mem_toList.mp hv)

end Simulation
