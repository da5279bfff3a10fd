import Overlay.BestSlot

/-! A slot to which some reporters offer values, each of them always the same one, as often as
it likes and in any order. It ends up with the least of them. -/

namespace BestSlot

variable {ι H V : Type*} [LT V] {address : ι → H} {value : ι → V} {s r : Slot H V} {heard : ι → Prop} {p : ι}

/-- The slot holds what it held first, or the value of a reporter that is below it, and nothing
it has heard of is below what it holds. -/
structure Settled (address : ι → H) (value : ι → V) (s : Slot H V) (heard : ι → Prop) (r : Slot H V) : Prop where
  held : r = s ∨ ∃ p, heard p ∧ r = ⟨address p, value p⟩ ∧ value p < s.value
  first_le : ¬ s.value < r.value
  heard_le : ∀ p, heard p → ¬ value p < r.value

theorem Settled.congr {heard' : ι → Prop} (h : Settled address value s heard r) (he : ∀ p, heard p ↔ heard' p) :
    Settled address value s heard' r := by
  obtain rfl : heard = heard' := funext fun p => propext (he p)
  exact h

/-- A reporter whose value would not be taken may as well have been heard. -/
theorem Settled.silent (h : Settled address value s heard r) (hp : ¬ value p < r.value) :
    Settled address value s (fun q => heard q ∨ q = p) r := by
  refine ⟨?_, h.first_le, fun q hq => ?_⟩
  · rcases h.held with hs | ⟨q, hq, hr⟩
    · exact Or.inl hs
    · exact Or.inr ⟨q, Or.inl hq, hr⟩
  · rcases hq with hq | rfl
    · exact h.heard_le q hq
    · exact hp

variable [LE V] [ReportOrder V]

theorem settled_start : Settled address value s (fun _ => False) s :=
  ⟨Or.inl rfl, ReportOrder.lt_irrefl _, fun _ hq => hq.elim⟩

variable [DecidableEq H] [DecidableLT V]

theorem Settled.offer (h : Settled address value s heard r) (hinj : ∀ q, address q = address p → q = p)
    (hs : address p ≠ s.hop) :
    Settled address value s (fun q => heard q ∨ q = p) (r.offer (address p, value p)) := by
  by_cases hlt : value p < r.value
  · have ho : r.offer (address p, value p) = ⟨address p, value p⟩ := if_pos (Or.inr hlt)
    have hbelow {v : V} (hv : ¬ v < r.value) : ¬ v < value p := fun hvp =>
      hv (ReportOrder.lt_of_lt_of_le hvp (ReportOrder.le_of_lt hlt))
    rw [ho]
    refine ⟨Or.inr ⟨p, Or.inr rfl, rfl, ?_⟩, hbelow h.first_le, fun q hq => ?_⟩
    · rcases h.held with rfl | ⟨q, _, rfl, hq⟩
      · exact hlt
      · exact ReportOrder.lt_of_lt_of_le hlt (ReportOrder.le_of_lt hq)
    · rcases hq with hq | rfl
      · exact hbelow (h.heard_le q hq)
      · exact ReportOrder.lt_irrefl _
  · -- the reporter is the one held at most, and then it offers what is there
    have ho : r.offer (address p, value p) = r := by
      by_cases hp : address p = r.hop
      · rcases h.held with rfl | ⟨q, _, rfl, _⟩
        · exact absurd hp hs
        · obtain rfl := hinj q hp.symm
          exact if_pos (Or.inl rfl)
      · exact if_neg (not_or.mpr ⟨hp, hlt⟩)
    rw [ho]
    exact h.silent hlt

theorem Settled.offers (h : Settled address value s heard r) (hinj : ∀ q, address q = address p → q = p)
    (hs : address p ≠ s.hop) {rs : List (H × V)} (hrs : ∀ x ∈ rs, x = (address p, value p)) (hne : rs ≠ []) :
    Settled address value s (fun q => heard q ∨ q = p) (rs.foldl Slot.offer r) := by
  induction rs generalizing heard r with
  | nil => exact absurd rfl hne
  | cons x rs ih =>
    obtain ⟨rfl, hrest⟩ := List.forall_mem_cons.mp hrs
    have hfirst := h.offer hinj hs
    cases rs with
    | nil => exact hfirst
    | cons y rs =>
      refine (ih hfirst hrest (by simp)).congr fun q => ?_
      tauto

end BestSlot
