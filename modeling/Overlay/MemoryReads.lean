import Overlay.ByteMemory

/-! Computations that read a memory of bytes, kept together with the indices they read.
A buffer stands at the front of the memory, and what stands behind it is anything. -/

namespace MemoryReads

open ByteMemory

abbrev Memory := Nat → UInt8

def placed (b : Bytes) (behind : Memory) : Memory := fun i => if i < b.length then word8 b i else behind i

structure Reading (α : Type) where
  value : Memory → α
  reads : Memory → List Nat

instance : Monad Reading where
  pure a := ⟨fun _ => a, fun _ => []⟩
  bind x f := ⟨fun m => (f (x.value m)).value m, fun m => x.reads m ++ (f (x.value m)).reads m⟩

def read8 (i : Nat) : Reading UInt8 := ⟨fun m => m i, fun _ => [i]⟩

def read16 (i : Nat) : Reading UInt16 := ⟨fun m => join16 (m i) (m (i + 1)), fun _ => [i, i + 1]⟩

def read32 (i : Nat) : Reading UInt32 :=
  ⟨fun m => join32 (m i) (m (i + 1)) (m (i + 2)) (m (i + 3)), fun _ => [i, i + 1, i + 2, i + 3]⟩

/-- Every index read is below `n`. -/
def Reading.Inside {α : Type} (x : Reading α) (n : Nat) (m : Memory) : Prop := ∀ i ∈ x.reads m, i < n

instance {α : Type} (x : Reading α) (n : Nat) (m : Memory) : Decidable (x.Inside n m) :=
  inferInstanceAs (Decidable (∀ i ∈ _, _))

section

variable {α β : Type} {m : Memory} {n i : Nat}

@[simp] theorem value_pure (a : α) : (pure a : Reading α).value m = a := rfl

@[simp] theorem value_bind (x : Reading α) (f : α → Reading β) :
    (x >>= f).value m = (f (x.value m)).value m := rfl

@[simp] theorem inside_pure (a : α) : (pure a : Reading α).Inside n m := fun _ hi => absurd hi (by simp [pure])

theorem inside_bind (x : Reading α) (f : α → Reading β) :
    (x >>= f).Inside n m ↔ x.Inside n m ∧ (f (x.value m)).Inside n m :=
  List.forall_mem_append

/-! A test in front of a computation, with a result that needs no read. -/

theorem value_guard {c : Prop} [Decidable c] {a v : α} {r : Option α} {x : Reading α}
    (h : (if c then some a else r) = some v) (hx : ¬ c → r = some v → x.value m = v) :
    (if c then pure a else x : Reading α).value m = v := by
  by_cases hc : c
  · rw [if_pos hc] at h ⊢
    exact Option.some.inj h
  · rw [if_neg hc] at h ⊢
    exact hx hc h

theorem inside_guard_iff {c q : Prop} [Decidable c] {a : α} {x : Reading α} (hc : c → q)
    (hx : ¬ c → (x.Inside n m ↔ q)) : (if c then pure a else x : Reading α).Inside n m ↔ q := by
  by_cases h : c
  · rw [if_pos h]
    exact iff_of_true (inside_pure a) (hc h)
  · rw [if_neg h]
    exact hx h

theorem inside_read8 : (read8 i).Inside n m ↔ i + 1 ≤ n := by
  simp only [Reading.Inside, read8, List.forall_mem_singleton]
  omega

theorem inside_read16 : (read16 i).Inside n m ↔ i + 2 ≤ n := by
  simp only [Reading.Inside, read16, List.forall_mem_cons, List.not_mem_nil, false_imp_iff, implies_true, and_true]
  omega

theorem inside_read32 : (read32 i).Inside n m ↔ i + 4 ≤ n := by
  simp only [Reading.Inside, read32, List.forall_mem_cons, List.not_mem_nil, false_imp_iff, implies_true, and_true]
  omega

end

section

variable {b : Bytes} {behind : Memory} {i : Nat}

theorem placed_of_lt (h : i < b.length) : placed b behind i = word8 b i := if_pos h

theorem value_read8 (h : i + 1 ≤ b.length) : (read8 i).value (placed b behind) = word8 b i := placed_of_lt h

theorem value_read16 (h : i + 2 ≤ b.length) : (read16 i).value (placed b behind) = word16 b i := by
  simp only [read16, word16]
  rw [placed_of_lt (by omega), placed_of_lt (by omega)]

theorem value_read32 (h : i + 4 ≤ b.length) : (read32 i).value (placed b behind) = word32 b i := by
  simp only [read32, word32]
  rw [placed_of_lt (by omega), placed_of_lt (by omega), placed_of_lt (by omega), placed_of_lt (by omega)]

end

end MemoryReads
