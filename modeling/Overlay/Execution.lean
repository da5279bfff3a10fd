import Mathlib.Data.List.Induction
import Mathlib.Data.Option.Basic

/-! Runs of a transition function that can fail, kept together with their
history, and the two induction rules for loops in `Option`. Nothing here is
about a particular system. -/

namespace Execution

variable {S E O α : Type*}

/-- One step of a run: the state it was taken in, its event and its output. -/
structure Taken (S E O : Type*) where
  before : S
  event : E
  output : O

/-- `Run step s h t`: the steps of `h`, oldest first, lead from `s` to `t`. -/
inductive Run (step : S → E → Option (S × O)) (s : S) : List (Taken S E O) → S → Prop
  | start : Run step s [] s
  | snoc {h : List (Taken S E O)} {t u : S} {e : E} {o : O} :
      Run step s h t → step t e = some (u, o) → Run step s (h ++ [⟨t, e, o⟩]) u

variable {step : S → E → Option (S × O)} {s t u : S} {h h' : List (Taken S E O)}

theorem Run.single {e : E} {o : O} (he : step s e = some (t, o)) : Run step s [⟨s, e, o⟩] t := by
  simpa using Run.start.snoc he

theorem Run.trans (hr : Run step s h t) (hr' : Run step t h' u) : Run step s (h ++ h') u := by
  induction hr' with
  | start => simpa using hr
  | snoc _ he ih => simpa only [List.append_assoc] using ih.snoc he

theorem Run.of_nil (hr : Run step s [] t) : t = s := by
  generalize hn : ([] : List (Taken S E O)) = l at hr
  cases hr with
  | start => rfl
  | snoc _ _ => simp at hn

theorem Run.of_snoc {x : Taken S E O} (hr : Run step s (h ++ [x]) u) :
    Run step s h x.before ∧ step x.before x.event = some (u, x.output) := by
  generalize hn : h ++ [x] = l at hr
  cases hr with
  | start => simp at hn
  | snoc hr he =>
    obtain ⟨rfl, hx⟩ := List.append_inj' hn rfl
    obtain rfl := (List.cons.inj hx).1
    exact ⟨hr, he⟩

theorem Run.split (hr : Run step s (h ++ h') u) : ∃ t, Run step s h t ∧ Run step t h' u := by
  induction h' using List.reverseRecOn generalizing u with
  | nil => exact ⟨u, by simpa using hr, .start⟩
  | append_singleton h' x ih =>
    rw [← List.append_assoc] at hr
    obtain ⟨hr, he⟩ := hr.of_snoc
    obtain ⟨t, ht, hu⟩ := ih hr
    exact ⟨t, ht, by simpa using hu.snoc he⟩

theorem Run.split_at {x : Taken S E O} (hr : Run step s (h ++ x :: h') u) :
    ∃ t, Run step s h x.before ∧ step x.before x.event = some (t, x.output) ∧ Run step t h' u := by
  rw [List.append_cons] at hr
  obtain ⟨t, ht, hu⟩ := hr.split
  exact ⟨t, ht.of_snoc.1, ht.of_snoc.2, hu⟩

theorem Run.invariant {P : S → Prop} (hr : Run step s h t) (hs : P s)
    (hstep : ∀ {s e t o}, P s → step s e = some (t, o) → P t) : P t := by
  induction hr with
  | start => exact hs
  | snoc _ he ih => exact hstep ih he

theorem Run.relation {R : S → S → Prop} (hr : Run step s h t) (hrefl : ∀ s, R s s)
    (htrans : ∀ {a b c}, R a b → R b c → R a c)
    (hstep : ∀ {s e t o}, step s e = some (t, o) → R s t) : R s t := by
  induction hr with
  | start => exact hrefl s
  | snoc _ he ih => exact htrans ih (hstep he)

def Visits (h : List (Taken S E O)) (t : S) (P : S → Prop) : Prop :=
  (∀ x ∈ h, P x.before) ∧ P t

theorem Visits.snoc {P : S → Prop} {e : E} {o : O} :
    Visits (h ++ [⟨t, e, o⟩]) u P ↔ Visits h t P ∧ P u := by
  simp only [Visits, List.mem_append, List.mem_singleton]
  constructor
  · rintro ⟨hb, hu⟩
    exact ⟨⟨fun x hx => hb x (Or.inl hx), hb _ (Or.inr rfl)⟩, hu⟩
  · rintro ⟨⟨hb, ht⟩, hu⟩
    refine ⟨fun x hx => ?_, hu⟩
    rcases hx with hx | rfl
    · exact hb x hx
    · exact ht

theorem Run.visits {P : S → Prop} {C : Taken S E O → Prop} (hr : Run step s h t) (hs : P s)
    (hc : ∀ x ∈ h, C x) (hstep : ∀ {k u e v o}, Run step s k u → ⟨u, e, o⟩ ∈ h → P u →
      step u e = some (v, o) → C ⟨u, e, o⟩ → P v) : Visits h t P := by
  induction hr with
  | start => exact ⟨fun x hx => absurd hx (by simp), hs⟩
  | snoc hr he ih =>
    have hp := ih (fun x hx => hc x (List.mem_append_left _ hx))
      (fun hk hm => hstep hk (List.mem_append_left _ hm))
    exact Visits.snoc.mpr ⟨hp, hstep hr (by simp) hp.2 he (hc _ (by simp))⟩

/-- If an invariant survives every step of one kind, and every other step breaks what the
invariant is for, then the runs without breach are those with steps of that kind only. -/
theorem Run.visits_iff {P Q : S → Prop} {C : Taken S E O → Prop} (hr : Run step s h t) (hs : P s)
    (hq : ∀ {u}, P u → Q u) (hstep : ∀ {k u e v o}, Run step s k u → ⟨u, e, o⟩ ∈ h → P u →
      step u e = some (v, o) → (C ⟨u, e, o⟩ → P v) ∧ (Q v → C ⟨u, e, o⟩)) :
    (∀ x ∈ h, C x) ↔ Visits h t Q := by
  constructor
  · intro hc
    obtain ⟨hb, ht⟩ := hr.visits hs hc fun hk hm hp he => (hstep hk hm hp he).1
    exact ⟨fun x hx => hq (hb x hx), hq ht⟩
  · induction hr with
    | start => exact fun _ x hx => absurd hx (by simp)
    | snoc hr he ih =>
      intro hv x hx
      obtain ⟨hv, hu⟩ := Visits.snoc.mp hv
      have hc := ih (fun hk hm => hstep hk (List.mem_append_left _ hm)) hv
      have hp := hr.visits hs hc fun hk hm hp he => (hstep hk (List.mem_append_left _ hm) hp he).1
      rcases List.mem_append.mp hx with hx | hx
      · exact hc x hx
      · rw [List.mem_singleton.mp hx]
        exact (hstep hr (by simp) hp.2 he).2 hu

/-- A property of the history and the state that every step keeps under exactly one
condition holds all along a run just when every step meets the condition. -/
theorem Run.holds_iff {Q : List (Taken S E O) → S → Prop} {C : List (Taken S E O) → Taken S E O → Prop}
    (hr : Run step s h t) (hs : Q [] s) (hstep : ∀ {k u e v o}, Run step s k u → ⟨u, e, o⟩ ∈ h → Q k u →
      step u e = some (v, o) → (C k ⟨u, e, o⟩ ↔ Q (k ++ [⟨u, e, o⟩]) v)) :
    (∀ k x, k ++ [x] <+: h → C k x) ↔ ∀ k u, k <+: h → Run step s k u → Q k u := by
  induction hr with
  | start =>
    constructor
    · intro _ k u hk hr
      obtain rfl := List.prefix_nil.mp hk
      exact hr.of_nil ▸ hs
    · intro _ k x hk
      simp at hk
  | @snoc h t w e o hr he ih =>
    have ih := ih fun hk hm => hstep hk (List.mem_append_left _ hm)
    have hlast (hq : Q h t) : C h ⟨t, e, o⟩ ↔ Q (h ++ [⟨t, e, o⟩]) w := hstep hr (by simp) hq he
    constructor
    · intro hc
      have hbefore := ih.mp fun k x hk => hc k x (hk.trans (List.prefix_append _ _))
      intro k u hk hu
      rcases List.prefix_concat_iff.mp hk with rfl | hk
      · obtain ⟨_, hstep⟩ := hu.of_snoc
        obtain rfl : w = u := by
          rw [he] at hstep
          exact (Prod.mk.inj (Option.some.inj hstep)).1
        exact (hlast (hbefore h t (List.prefix_refl h) hr)).mp (hc h _ (List.prefix_refl _))
      · exact hbefore k u hk hu
    · intro hq
      have hbefore : ∀ k u, k <+: h → Run step s k u → Q k u :=
        fun k u hk => hq k u (hk.trans (List.prefix_append _ _))
      intro k x hk
      rcases List.prefix_concat_iff.mp hk with heq | hk
      · obtain ⟨rfl, hx⟩ := List.append_inj' heq rfl
        rw [(List.cons.inj hx).1]
        exact (hlast (hbefore k t (List.prefix_refl k) hr)).mpr (hq _ w (List.prefix_refl _) (hr.snoc he))
      · exact ih.mpr hbefore k x hk

def exec (step : S → E → Option (S × O)) (s : S) : List E → Option (S × List (Taken S E O))
  | [] => some (s, [])
  | e :: es => (step s e).bind fun r => (exec step r.1 es).map fun q => (q.1, ⟨s, e, r.2⟩ :: q.2)

theorem run_of_exec {es : List E} (he : exec step s es = some (t, h)) : Run step s h t := by
  induction es generalizing s h with
  | nil =>
    simp only [exec, Option.some.injEq, Prod.mk.injEq] at he
    obtain ⟨rfl, rfl⟩ := he
    exact .start
  | cons e es ih =>
    simp only [exec, Option.bind_eq_some_iff, Option.map_eq_some_iff] at he
    obtain ⟨⟨r, o⟩, hstep, ⟨q, k⟩, hq, heq⟩ := he
    obtain ⟨rfl, rfl⟩ := Prod.mk.inj heq
    exact (Run.single hstep).trans (ih hq)

theorem exec_events {es : List E} (he : exec step s es = some (t, h)) : h.map (·.event) = es := by
  induction es generalizing s h with
  | nil =>
    simp only [exec, Option.some.injEq, Prod.mk.injEq] at he
    rw [← he.2, List.map_nil]
  | cons e es ih =>
    simp only [exec, Option.bind_eq_some_iff, Option.map_eq_some_iff] at he
    obtain ⟨⟨r, o⟩, _, ⟨q, k⟩, hq, heq⟩ := he
    obtain ⟨rfl, rfl⟩ := Prod.mk.inj heq
    rw [List.map_cons, ih hq]

theorem exists_run {β : Type*} {init : Option β} (start : β → S) (events : List E)
    (P : S → List (Taken S E O) → Prop) [∀ t h, Decidable (P t h)]
    (hp : (init.bind fun b => (exec step (start b) events).map fun r => decide (P r.1 r.2)) = some true) :
    ∃ b h t, init = some b ∧ Run step (start b) h t ∧ h.map (·.event) = events ∧ P t h := by
  obtain ⟨b, hb, hp⟩ := Option.bind_eq_some_iff.mp hp
  obtain ⟨⟨t, h⟩, he, hp⟩ := Option.map_eq_some_iff.mp hp
  exact ⟨b, h, t, hb, run_of_exec he, exec_events he, of_decide_eq_true hp⟩

theorem foldlM_range_induction {f : S → Nat → Option S} {P : Nat → S → Prop} {n : Nat}
    (h0 : P 0 s) (hf : ∀ {i s t}, i < n → P i s → f s i = some t → P (i + 1) t)
    (hr : (List.range n).foldlM f s = some t) : P n t := by
  induction n generalizing t with
  | zero =>
    simp only [List.range_zero, List.foldlM_nil, Option.pure_def, Option.some.injEq] at hr
    exact hr ▸ h0
  | succ n ih =>
    rw [List.range_succ, List.foldlM_append] at hr
    obtain ⟨r, hr, he⟩ := Option.bind_eq_some_iff.mp hr
    have he : f r n = some t := by simpa using he
    exact hf (Nat.lt_succ_self n) (ih (fun hi => hf (Nat.lt_succ_of_lt hi)) hr) he

theorem foldlM_induction {f : S → α → Option S} {P : S → Prop} {l : List α} (h0 : P s)
    (hf : ∀ {s a t}, a ∈ l → P s → f s a = some t → P t) (hr : l.foldlM f s = some t) : P t := by
  induction l generalizing s with
  | nil =>
    simp only [List.foldlM_nil, Option.pure_def, Option.some.injEq] at hr
    exact hr ▸ h0
  | cons a l ih =>
    obtain ⟨r, he, hr⟩ := Option.bind_eq_some_iff.mp hr
    exact ih (hf List.mem_cons_self h0 he) (fun ha => hf (List.mem_cons_of_mem a ha)) hr

theorem exists_last {p : α → Bool} {l : List α} (h : ∃ a ∈ l, p a = true) :
    ∃ l₁ a l₂, l = l₁ ++ a :: l₂ ∧ p a = true ∧ ∀ b ∈ l₂, p b = false := by
  obtain ⟨a, ha, hp⟩ := h
  have hsome : (l.reverse.find? p).isSome := List.find?_isSome.mpr ⟨a, List.mem_reverse.mpr ha, hp⟩
  obtain ⟨b, hb⟩ := Option.isSome_iff_exists.mp hsome
  obtain ⟨hpb, front, back, hl, hn⟩ := List.find?_eq_some_iff_append.mp hb
  refine ⟨back.reverse, b, front.reverse, ?_, hpb, fun c hc => ?_⟩
  · have h := congrArg List.reverse hl
    simpa using h
  · simpa using hn c (List.mem_reverse.mp hc)

theorem snoc_eq_append_cons {l a c : List α} {x y : α} (h : l ++ [x] = a ++ y :: c) :
    a = l ∧ y = x ∧ c = [] ∨ ∃ d, c = d ++ [x] ∧ l = a ++ y :: d := by
  rcases List.eq_nil_or_concat c with rfl | ⟨d, z, rfl⟩
  · obtain ⟨rfl, hx⟩ := List.append_inj' h rfl
    exact Or.inl ⟨rfl, (List.cons.inj hx).1.symm, rfl⟩
  · have h : l ++ [x] = (a ++ y :: d) ++ [z] := by simp [h]
    obtain ⟨hl, hx⟩ := List.append_inj' h rfl
    exact Or.inr ⟨d, by rw [List.concat_eq_append, (List.cons.inj hx).1], hl⟩

theorem exists_at_count {p : α → Bool} {l : List α} {n : Nat} (h : n < l.countP p) :
    ∃ l₁ a l₂, l = l₁ ++ a :: l₂ ∧ p a = true ∧ l₁.countP p = n := by
  induction l using List.reverseRecOn with
  | nil => simp at h
  | append_singleton l a ih =>
    by_cases hl : n < l.countP p
    · obtain ⟨l₁, b, l₂, rfl, hb, hn⟩ := ih hl
      exact ⟨l₁, b, l₂ ++ [a], by simp, hb, hn⟩
    · rw [List.countP_append, List.countP_singleton] at h
      by_cases ha : p a = true
      · rw [if_pos ha] at h
        exact ⟨l, a, [], rfl, ha, by omega⟩
      · rw [if_neg ha] at h
        omega

/-- A loop that decodes its next item and then uses it fails or succeeds with
the loop that decodes every item first. -/
theorem foldlM_decode {β : Type*} {d : α → Option β} {f : S → β → Option S} {l : List α} :
    l.foldlM (fun s a => (d a).bind (f s)) s = (l.mapM d).bind (fun bs => bs.foldlM f s) := by
  induction l generalizing s with
  | nil => rfl
  | cons a l ih =>
    simp only [List.foldlM_cons, List.mapM_cons, Option.bind_eq_bind, Option.pure_def]
    cases hd : d a with
    | none => rfl
    | some b =>
      cases hm : l.mapM d with
      | none =>
        simp only [Option.bind_some, Option.bind_none]
        cases hf : f s b with
        | none => rfl
        | some r => simp [ih, hm]
      | some bs =>
        simp only [Option.bind_some, List.foldlM_cons, Option.bind_eq_bind]
        cases hf : f s b with
        | none => rfl
        | some r => simp [ih, hm]

end Execution
