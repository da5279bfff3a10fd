import Mathlib.Data.List.Induction
import Mathlib.Data.List.Nodup

/-! An index that only grows: a key that is not in it goes to its end, a key that is in it
stays where it is. So its keys never repeat, and they are the ones it started with and the
ones that were added. -/

namespace KeyIndex

variable {K : Type*} [DecidableEq K] {keys ks : List K} {k a : K}

def add (keys : List K) (k : K) : List K := if k ∈ keys then keys else keys ++ [k]

def addAll (keys ks : List K) : List K := ks.foldl add keys

theorem add_of_mem (h : k ∈ keys) : add keys k = keys := if_pos h

theorem add_of_notMem (h : k ∉ keys) : add keys k = keys ++ [k] := if_neg h

theorem mem_add : a ∈ add keys k ↔ a ∈ keys ∨ a = k := by
  by_cases hk : k ∈ keys
  · rw [add_of_mem hk]
    exact ⟨Or.inl, fun h => h.elim id fun he => he ▸ hk⟩
  · rw [add_of_notMem hk, List.mem_append, List.mem_singleton]

theorem nodup_add (h : keys.Nodup) (k : K) : (add keys k).Nodup := by
  by_cases hk : k ∈ keys
  · rwa [add_of_mem hk]
  · rw [add_of_notMem hk]
    apply h.append (List.nodup_singleton k)
    simpa using hk

theorem addAll_append (keys ks ks' : List K) : addAll keys (ks ++ ks') = addAll (addAll keys ks) ks' :=
  List.foldl_append

theorem mem_addAll : a ∈ addAll keys ks ↔ a ∈ keys ∨ a ∈ ks := by
  induction ks generalizing keys with
  | nil => simp [addAll]
  | cons k ks ih =>
    show a ∈ addAll (add keys k) ks ↔ _
    rw [ih, mem_add, List.mem_cons, or_assoc]

theorem addAll_eq (keys ks : List K) : ∃ added, addAll keys ks = keys ++ added ∧ ∀ a ∈ added, a ∉ keys := by
  induction ks using List.reverseRecOn with
  | nil => exact ⟨[], (List.append_nil keys).symm, fun a ha => absurd ha (by simp)⟩
  | append_singleton ks k ih =>
    obtain ⟨added, he, hn⟩ := ih
    rw [addAll_append, he]
    show ∃ l, add (keys ++ added) k = keys ++ l ∧ ∀ a ∈ l, a ∉ keys
    by_cases hk : k ∈ keys ++ added
    · exact ⟨added, add_of_mem hk, hn⟩
    · refine ⟨added ++ [k], by rw [add_of_notMem hk, List.append_assoc], fun a ha => ?_⟩
      rcases List.mem_append.mp ha with ha | ha
      · exact hn a ha
      · rw [List.mem_singleton.mp ha]
        exact fun hmem => hk (List.mem_append_left _ hmem)

theorem nodup_addAll (h : keys.Nodup) (ks : List K) : (addAll keys ks).Nodup := by
  induction ks generalizing keys with
  | nil => exact h
  | cons k ks ih => exact ih (nodup_add h k)

end KeyIndex
