import Mathlib.Data.List.Induction

/-! A slot that keeps one reporter and its value, replaced by a smaller value or by
any later report of the reporter it holds. What it then knows about the reports made
so far depends on the last time its own reporter reported more. -/

namespace BestSlot

/-- The order facts the slot relies on; weaker than a preorder, since a value need not
be at most itself. -/
class ReportOrder (V : Type*) [LT V] [LE V] : Prop where
  lt_irrefl : ∀ a : V, ¬ a < a
  le_of_lt : ∀ {a b : V}, a < b → a ≤ b
  lt_of_lt_of_le : ∀ {a b c : V}, a < b → b ≤ c → a < c

structure Slot (H V : Type*) where
  hop : H
  value : V
  deriving DecidableEq

variable {H V : Type*} [DecidableEq H]

def latest (rs : List (H × V)) (k : H) : Option V :=
  (rs.reverse.find? fun r => r.1 = k).map Prod.snd

theorem latest_snoc (rs : List (H × V)) (r : H × V) (k : H) :
    latest (rs ++ [r]) k = if r.1 = k then some r.2 else latest rs k := by
  simp only [latest, List.reverse_append, List.reverse_singleton, List.singleton_append,
    List.find?_cons]
  by_cases hk : r.1 = k <;> simp [hk]

theorem latest_mem {rs : List (H × V)} {k : H} {v : V} (h : latest rs k = some v) :
    (k, v) ∈ rs := by
  obtain ⟨r, hr, hv⟩ := Option.map_eq_some_iff.mp h
  have hk : r.1 = k := by simpa using List.find?_some hr
  have hm : r ∈ rs := List.mem_reverse.mp (List.mem_of_find?_eq_some hr)
  obtain ⟨k', v'⟩ := r
  simp only at hk hv
  exact hk ▸ hv ▸ hm

variable [LT V] [LE V]

/-- A report of the slot's own hop that is not at most the value it holds. -/
def Slot.Rises (s : Slot H V) (r : H × V) : Prop := r.1 = s.hop ∧ ¬ r.2 ≤ s.value

/-- The slot holds the most recent report of its hop, and no report in `seen` is
below it. -/
def Slot.Best (s : Slot H V) (seen : List (H × V)) : Prop :=
  latest seen s.hop = some s.value ∧ ∀ r ∈ seen, ¬ r.2 < s.value

theorem Slot.best_self [ReportOrder V] (s : Slot H V) : s.Best [(s.hop, s.value)] := by
  refine ⟨by simp [latest], fun x hx hlt => ?_⟩
  obtain rfl := List.mem_singleton.mp hx
  exact ReportOrder.lt_irrefl _ hlt

variable [DecidableLT V] [DecidableLE V]

def Slot.offer (s : Slot H V) (r : H × V) : Slot H V :=
  if r.1 = s.hop ∨ r.2 < s.value then ⟨r.1, r.2⟩ else s

omit [LE V] [DecidableLE V] in
theorem foldl_offer_of_hop (s : Slot H V) (k : H) (vs : List V) :
    ((vs.map fun v => (k, v)).foldl Slot.offer s).hop ≠ k ∧ (vs.map fun v => (k, v)).foldl Slot.offer s = s ∨
      ((vs.map fun v => (k, v)).foldl Slot.offer s).hop = k ∧
        (vs.map fun v => (k, v)).foldl Slot.offer s = vs.getLast?.elim s (Slot.mk k) := by
  induction vs using List.reverseRecOn with
  | nil =>
    by_cases hk : s.hop = k
    · exact Or.inr ⟨hk, rfl⟩
    · exact Or.inl ⟨hk, rfl⟩
  | append_singleton vs v ih =>
    rw [List.map_append, List.foldl_append, List.getLast?_concat]
    set r := (vs.map fun v => (k, v)).foldl Slot.offer s
    have hoff : r.offer (k, v) = if k = r.hop ∨ v < r.value then ⟨k, v⟩ else r := rfl
    simp only [List.map_cons, List.map_nil, List.foldl_cons, List.foldl_nil, hoff]
    by_cases ht : k = r.hop ∨ v < r.value
    · rw [if_pos ht]
      exact Or.inr ⟨rfl, rfl⟩
    · rw [if_neg ht]
      push Not at ht
      rcases ih with ⟨hk, hr⟩ | ⟨hk, _⟩
      · exact Or.inl ⟨hk, hr⟩
      · exact absurd hk.symm ht.1

instance (s : Slot H V) (r : H × V) : Decidable (s.Rises r) := inferInstanceAs (Decidable (_ ∧ _))

/-- The reports from the last rise on; `seen` are those before the list. -/
def recent (s : Slot H V) (seen : List (H × V)) : List (H × V) → List (H × V)
  | [] => seen
  | r :: rs => recent (s.offer r) (if s.Rises r then [r] else seen ++ [r]) rs

def NeverRises (s : Slot H V) : List (H × V) → Prop
  | [] => True
  | r :: rs => ¬ s.Rises r ∧ NeverRises (s.offer r) rs

theorem Slot.Best.offer [ReportOrder V] {s : Slot H V} {seen : List (H × V)}
    (h : s.Best seen) (r : H × V) :
    (s.offer r).Best (if s.Rises r then [r] else seen ++ [r]) := by
  by_cases hh : r.1 = s.hop
  · have ho : s.offer r = ⟨r.1, r.2⟩ := if_pos (Or.inl hh)
    by_cases hle : r.2 ≤ s.value
    · have hr : ¬ s.Rises r := fun hr => hr.2 hle
      rw [ho, if_neg hr]
      refine ⟨by simp [latest_snoc], fun x hx hlt => ?_⟩
      rcases List.mem_append.mp hx with hx | hx
      · exact h.2 x hx (ReportOrder.lt_of_lt_of_le hlt hle)
      · obtain rfl := List.mem_singleton.mp hx
        exact ReportOrder.lt_irrefl _ hlt
    · rw [ho, if_pos ⟨hh, hle⟩]
      refine ⟨by simp [latest], fun x hx hlt => ?_⟩
      obtain rfl := List.mem_singleton.mp hx
      exact ReportOrder.lt_irrefl _ hlt
  · have hr : ¬ s.Rises r := fun hr => hh hr.1
    rw [if_neg hr]
    by_cases hlt : r.2 < s.value
    · have ho : s.offer r = ⟨r.1, r.2⟩ := if_pos (Or.inr hlt)
      rw [ho]
      refine ⟨by simp [latest_snoc], fun x hx hx' => ?_⟩
      rcases List.mem_append.mp hx with hx | hx
      · exact h.2 x hx (ReportOrder.lt_of_lt_of_le hx' (ReportOrder.le_of_lt hlt))
      · obtain rfl := List.mem_singleton.mp hx
        exact ReportOrder.lt_irrefl _ hx'
    · have ho : s.offer r = s := if_neg (by simp [hh, hlt])
      rw [ho]
      refine ⟨by rw [latest_snoc, if_neg hh]; exact h.1, fun x hx hx' => ?_⟩
      rcases List.mem_append.mp hx with hx | hx
      · exact h.2 x hx hx'
      · obtain rfl := List.mem_singleton.mp hx
        exact hlt hx'

theorem Slot.Best.foldl [ReportOrder V] {s : Slot H V} {seen : List (H × V)}
    (h : s.Best seen) (rs : List (H × V)) : (rs.foldl Slot.offer s).Best (recent s seen rs) := by
  induction rs generalizing s seen with
  | nil => exact h
  | cons r rs ih => exact ih (h.offer r)

theorem recent_of_neverRises {s : Slot H V} (seen : List (H × V)) {rs : List (H × V)} (h : NeverRises s rs) :
    recent s seen rs = seen ++ rs := by
  induction rs generalizing s seen with
  | nil => simp [recent]
  | cons r rs ih =>
    rw [recent, if_neg h.1, ih _ h.2, List.append_assoc, List.singleton_append]

/-! Reports of hops that are all different, and different from the hop held. The slot
then only ever takes a smaller value, so that it ends up with the least one whatever
the order of the reports. -/

section Distinct

variable {s : Slot H V} {r : H × V} {rs rs' : List (H × V)}

omit [LE V] [DecidableLE V] in
theorem offer_of_distinct (h : (s.hop :: (r :: rs).map Prod.fst).Nodup) :
    (s.offer r = s ∨ s.offer r = ⟨r.1, r.2⟩ ∧ r.2 < s.value) ∧ ((s.offer r).hop :: rs.map Prod.fst).Nodup := by
  rw [List.map_cons, List.nodup_cons, List.nodup_cons, List.mem_cons, not_or] at h
  obtain ⟨⟨hne, hs⟩, hr, hrs⟩ := h
  by_cases hlt : r.2 < s.value
  · have ho : s.offer r = ⟨r.1, r.2⟩ := if_pos (Or.inr hlt)
    rw [ho]
    exact ⟨Or.inr ⟨rfl, hlt⟩, List.nodup_cons.mpr ⟨hr, hrs⟩⟩
  · have ho : s.offer r = s := if_neg (not_or.mpr ⟨Ne.symm hne, hlt⟩)
    rw [ho]
    exact ⟨Or.inl rfl, List.nodup_cons.mpr ⟨hs, hrs⟩⟩

omit [DecidableLE V] in
theorem neverRises_of_distinct (h : (s.hop :: rs.map Prod.fst).Nodup) : NeverRises s rs := by
  induction rs generalizing s with
  | nil => trivial
  | cons r rs ih =>
    refine ⟨fun hr => ?_, ih (offer_of_distinct h).2⟩
    have hne := (List.nodup_cons.mp h).1
    exact hne (by rw [← hr.1]; exact List.mem_cons_self)

omit [DecidableLE V] in
theorem foldl_offer_eq_or_lt [ReportOrder V] (h : (s.hop :: rs.map Prod.fst).Nodup) :
    rs.foldl Slot.offer s = s ∨ (rs.foldl Slot.offer s).value < s.value := by
  induction rs generalizing s with
  | nil => exact Or.inl rfl
  | cons r rs ih =>
    obtain ⟨ho, hnext⟩ := offer_of_distinct h
    have hi := ih hnext
    rw [List.foldl_cons]
    rcases ho with ho | ⟨ho, hlt⟩
    · rw [ho] at hi ⊢
      exact hi
    · rw [ho] at hi ⊢
      rcases hi with hi | hi
      · rw [hi]
        exact Or.inr hlt
      · exact Or.inr (ReportOrder.lt_of_lt_of_le hi (ReportOrder.le_of_lt hlt))

theorem best_of_distinct [ReportOrder V] (h : (s.hop :: rs.map Prod.fst).Nodup) :
    (rs.foldl Slot.offer s).Best ((s.hop, s.value) :: rs) := by
  have hb := s.best_self.foldl rs
  rwa [recent_of_neverRises _ (neverRises_of_distinct h)] at hb

/-- A value of the list that nothing in it is below. -/
def LeastOf (v : V) (vs : List V) : Prop := v ∈ vs ∧ ∀ w ∈ vs, ¬ w < v

omit [LE V] [DecidableLT V] [DecidableLE V] in
theorem LeastOf.eq {v w : V} {vs : List V} (h : LeastOf v vs) (hw : w ∈ vs) (hlt : ∀ x ∈ vs, x ≠ w → w < x) :
    v = w := by
  by_contra hne
  exact h.2 w hw (hlt v h.1 hne)

theorem foldl_offer_leastOf [ReportOrder V] (h : (s.hop :: rs.map Prod.fst).Nodup) :
    LeastOf (rs.foldl Slot.offer s).value (s.value :: rs.map Prod.snd) := by
  obtain ⟨hl, hleast⟩ := best_of_distinct h
  refine ⟨?_, fun w hw => ?_⟩
  · exact List.mem_map_of_mem (f := Prod.snd) (latest_mem hl)
  · obtain ⟨r, hr, rfl⟩ : ∃ r ∈ (s.hop, s.value) :: rs, r.2 = w := List.mem_map.mp hw
    exact hleast r hr

/-- The values reported are comparable; the one held first need not be. -/
theorem foldl_offer_perm [ReportOrder V] (h : (s.hop :: rs.map Prod.fst).Nodup) (hp : rs.Perm rs')
    (hcomparable : ∀ r ∈ rs, ∀ r' ∈ rs, r.2 < r'.2 ∨ r.2 = r'.2 ∨ r'.2 < r.2) :
    (rs.foldl Slot.offer s).value = (rs'.foldl Slot.offer s).value := by
  have h' : (s.hop :: rs'.map Prod.fst).Nodup := ((hp.map Prod.fst).cons s.hop).nodup_iff.mp h
  have hb := best_of_distinct h
  have hb' := best_of_distinct h'
  have hmem := latest_mem hb.1
  have hmem' := latest_mem hb'.1
  have hc := hp.cons (s.hop, s.value)
  rcases foldl_offer_eq_or_lt h with he | hlt
  · rcases foldl_offer_eq_or_lt h' with he' | hlt'
    · rw [he, he']
    · rw [he] at hb
      exact absurd hlt' (hb.2 _ (hc.mem_iff.mpr hmem'))
  · rcases foldl_offer_eq_or_lt h' with he' | hlt'
    · rw [he'] at hb'
      exact absurd hlt (hb'.2 _ (hc.mem_iff.mp hmem))
    · have hin {t : Slot H V} (hlt : t.value < s.value) (hm : (t.hop, t.value) ∈ (s.hop, s.value) :: rs) :
          (t.hop, t.value) ∈ rs := by
        rcases List.mem_cons.mp hm with he | hm
        · rw [(Prod.mk.inj he).2] at hlt
          exact absurd hlt (ReportOrder.lt_irrefl _)
        · exact hm
      rcases hcomparable _ (hin hlt hmem) _ (hin hlt' (hc.mem_iff.mpr hmem')) with hl | he | hl
      · exact absurd hl (hb'.2 _ (hc.mem_iff.mp hmem))
      · exact he
      · exact absurd hl (hb.2 _ (hc.mem_iff.mpr hmem'))

end Distinct

end BestSlot
