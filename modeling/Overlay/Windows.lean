import Mathlib.Data.List.GetD

/-! Memory as a function of the address: windows of it that are read, and lists written over it. -/

namespace Windows

variable {α : Type} {memory : Nat → α}

def window (memory : Nat → α) (start count : Nat) : List α := (List.range count).map fun k => memory (start + k)

def overwrite (memory : Nat → α) (start : Nat) (values : List α) : Nat → α :=
  fun i => if start ≤ i then values.getD (i - start) (memory i) else memory i

@[simp] theorem length_window (start count : Nat) : (window memory start count).length = count := by
  simp [window]

theorem window_add (start a b : Nat) :
    window memory start (a + b) = window memory start a ++ window memory (start + a) b := by
  simp [window, List.range_add, Function.comp_def, Nat.add_assoc]

theorem window_congr {memory' : Nat → α} {start count : Nat}
    (h : ∀ i, start ≤ i → i < start + count → memory' i = memory i) :
    window memory' start count = window memory start count := by
  apply List.map_congr_left
  intro k hk
  have hlt : k < count := List.mem_range.mp hk
  exact h (start + k) (by omega) (by omega)

@[simp] theorem overwrite_nil (start : Nat) : overwrite memory start [] = memory := by
  funext i
  simp [overwrite]

theorem overwrite_of_disjoint {start i : Nat} {values : List α} (h : i < start ∨ start + values.length ≤ i) :
    overwrite memory start values i = memory i := by
  rcases h with h | h
  · simp [overwrite, Nat.not_le.mpr h]
  · have hout : values.length ≤ i - start := by omega
    simp [overwrite, hout]

/-- Two lists written one behind the other. -/
theorem overwrite_append (start : Nat) (values more : List α) :
    overwrite (overwrite memory start values) (start + values.length) more =
      overwrite memory start (values ++ more) := by
  funext i
  by_cases hs : start ≤ i
  · by_cases hv : i < start + values.length
    · have hin : i - start < values.length := by omega
      simp [overwrite, hs, Nat.not_le.mpr hv, List.getElem?_append_left hin]
    · have hpast : values.length ≤ i - start := by omega
      have hplace : i - (start + values.length) = i - start - values.length := by omega
      simp [overwrite, hs, Nat.not_lt.mp hv, List.getElem?_append_right hpast, hplace, hpast]
  · have hmore : ¬ start + values.length ≤ i := by omega
    simp [overwrite, hs, hmore]

@[simp] theorem window_overwrite (start : Nat) (values : List α) :
    window (overwrite memory start values) start values.length = values := by
  apply List.ext_getElem (by simp)
  intro k _ hk
  simp [window, overwrite, hk]

theorem window_overwrite_inside {start place count : Nat} {values : List α} (h : place + count ≤ values.length) :
    window (overwrite memory start values) (start + place) count = (values.drop place).take count := by
  apply List.ext_getElem
  · simp only [length_window, List.length_take, List.length_drop]
    omega
  · intro k hk _
    rw [length_window] at hk
    have hin : place + k < values.length := by omega
    have hplace : start + place + k - start = place + k := by omega
    have hle : start ≤ start + place + k := by omega
    simp [window, overwrite, hplace, hin, hle]

theorem window_overwrite_take {size place count : Nat} {values : List α} (hs : size ≤ values.length)
    (hp : place + count ≤ size) :
    window (overwrite memory 0 (values.take size)) place count = ((values.take size).drop place).take count := by
  have hlen : (values.take size).length = size := List.length_take_of_le hs
  have hinside := @window_overwrite_inside α memory 0 place count (values.take size) (by omega)
  rwa [Nat.zero_add] at hinside

theorem window_overwrite_of_disjoint {start i count : Nat} {values : List α}
    (h : i + count ≤ start ∨ start + values.length ≤ i) :
    window (overwrite memory start values) i count = window memory i count :=
  window_congr fun _ _ _ => overwrite_of_disjoint (by omega)

end Windows
