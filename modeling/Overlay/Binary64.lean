import Mathlib
import Overlay.BestSlot

/-! Facts about IEEE doubles over the bit-level model that `Float` carries in the
core library: the comparison is a strict order with NaN aside, and one minus a
quotient of two 16-bit counters is determined by, and ordered as, the ratio. -/

namespace Binary64

open Float.Model UnpackedFloat BestSlot

/-- Sign class, exponent and mantissa as the comparison ranks them; none for NaN. -/
def key : UnpackedFloat → Option (Int × Int × Int)
  | .notANumber => none
  | .infinity .negative => some (-2, 0, 0)
  | .finite .negative m e _ => some (-1, -e, -(m : Int))
  | .zero _ => some (0, 0, 0)
  | .finite .positive m e _ => some (1, e, m)
  | .infinity .positive => some (2, 0, 0)

def KeyLT (x y : Int × Int × Int) : Prop :=
  x.1 < y.1 ∨ x.1 = y.1 ∧ (x.2.1 < y.2.1 ∨ x.2.1 = y.2.1 ∧ x.2.2 < y.2.2)

theorem KeyLT.trans {x y z : Int × Int × Int} (h : KeyLT x y) (h' : KeyLT y z) : KeyLT x z := by
  simp only [KeyLT] at *
  omega

theorem compare_then_eq_lt {e f : Int} {m n : Nat} :
    (compare e f).then (compare m n) = .lt ↔ e < f ∨ e = f ∧ m < n := by
  rw [Ordering.then_eq_lt, compare_lt_iff_lt, compare_eq_iff_eq, compare_lt_iff_lt]

theorem compare_then_eq_gt {e f : Int} {m n : Nat} :
    (compare e f).then (compare m n) = .gt ↔ f < e ∨ e = f ∧ n < m := by
  rw [Ordering.then_eq_gt, compare_gt_iff_gt, compare_eq_iff_eq, compare_gt_iff_gt]

theorem compare_sign : compare Sign.negative Sign.positive = .lt := rfl

theorem compare_sign_self (s : Sign) : compare s s = .eq := by cases s <;> rfl

theorem compare_eq_lt_iff (a b : UnpackedFloat) :
    a.compare b = some .lt ↔ ∃ x ∈ key a, ∃ y ∈ key b, KeyLT x y := by
  rcases a with (_ | _) | _ | _ | ⟨_ | _, m, e, hm⟩ <;>
    rcases b with (_ | _) | _ | _ | ⟨_ | _, n, f, hn⟩ <;>
    simp [UnpackedFloat.compare, key, KeyLT, compare_then_eq_lt, compare_then_eq_gt,
      Ordering.swap_eq_lt, compare_sign]

theorem compare_eq_eq_iff (a b : UnpackedFloat) :
    a.compare b = some .eq ↔ ∃ x ∈ key a, x ∈ key b := by
  rcases a with (_ | _) | _ | _ | ⟨_ | _, m, e, hm⟩ <;>
    rcases b with (_ | _) | _ | _ | ⟨_ | _, n, f, hn⟩ <;>
    simp [UnpackedFloat.compare, key, compare_sign, compare_sign_self,
      Ordering.swap_eq_eq]
  all_goals exact and_congr eq_comm eq_comm

theorem float_lt_iff (a b : Float) :
    a < b ↔ a.toModel.unpack.compare b.toModel.unpack = some .lt := by
  show (Float.lt a b = true) ↔ _
  simp only [Float.lt, decide_eq_true_eq]
  show (UnpackedFloat.lt _ _ = true) ↔ _
  simp [UnpackedFloat.lt]

theorem float_le_iff (a b : Float) :
    a ≤ b ↔ a.toModel.unpack.compare b.toModel.unpack = some .lt ∨
      a.toModel.unpack.compare b.toModel.unpack = some .eq := by
  show (Float.le a b = true) ↔ _
  simp only [Float.le, decide_eq_true_eq]
  show (UnpackedFloat.le _ _ = true) ↔ _
  rcases h : a.toModel.unpack.compare b.toModel.unpack with _ | _ | _ | _ <;> simp [UnpackedFloat.le, h]

instance : ReportOrder Float where
  lt_irrefl a h := by
    rw [float_lt_iff, compare_eq_lt_iff] at h
    obtain ⟨x, hx, y, hy, hlt⟩ := h
    obtain rfl := Option.mem_unique hx hy
    simp only [KeyLT] at hlt
    omega
  le_of_lt h := (float_le_iff _ _).mpr (Or.inl ((float_lt_iff _ _).mp h))
  lt_of_lt_of_le h h' := by
    rw [float_lt_iff, compare_eq_lt_iff] at *
    rw [float_le_iff, compare_eq_lt_iff, compare_eq_eq_iff] at h'
    obtain ⟨x, hx, y, hy, hlt⟩ := h
    rcases h' with ⟨y', hy', z, hz, hlt'⟩ | ⟨z, hy', hz⟩
    · obtain rfl := Option.mem_unique hy hy'
      exact ⟨x, hx, z, hz, hlt.trans hlt'⟩
    · obtain rfl := Option.mem_unique hy hy'
      exact ⟨x, hx, y, hz, hlt⟩

/-- An extended mantissa records a non-negative number: its integral part, whether the
rest reaches a half, and whether it is anything but nothing or a half. -/
structure Records (em : ExtendedMantissa) (y : ℚ) : Prop where
  floor_le : (em.mantissa : ℚ) ≤ y
  lt_succ : y < em.mantissa + 1
  round_iff : em.roundBit = true ↔ (em.mantissa : ℚ) + 1 / 2 ≤ y
  sticky_iff : em.stickyBit = true ↔ y ≠ em.mantissa ∧ y ≠ em.mantissa + 1 / 2

theorem Records.unique {em em' : ExtendedMantissa} {y : ℚ} (h : Records em y)
    (h' : Records em' y) : em = em' := by
  have hm : em.mantissa = em'.mantissa := by
    have h₁ : (em.mantissa : ℚ) < em'.mantissa + 1 := h.floor_le.trans_lt h'.lt_succ
    have h₂ : (em'.mantissa : ℚ) < em.mantissa + 1 := h'.floor_le.trans_lt h.lt_succ
    norm_cast at h₁ h₂
    omega
  have hr : em.roundBit = em'.roundBit :=
    Bool.eq_iff_iff.mpr (by rw [h.round_iff, h'.round_iff, hm])
  have hs : em.stickyBit = em'.stickyBit :=
    Bool.eq_iff_iff.mpr (by rw [h.sticky_iff, h'.sticky_iff, hm])
  cases em
  cases em'
  simp_all

theorem Records.shiftRightOne {em : ExtendedMantissa} {y : ℚ} (h : Records em y) :
    Records em.shiftRightOne (y / 2) := by
  have hl := h.floor_le
  have hu := h.lt_succ
  have hr := h.round_iff
  have hs := h.sticky_iff
  obtain ⟨m, rb, st⟩ := em
  simp only at hl hu hr hs
  obtain ⟨q, hq⟩ := Nat.even_or_odd' m
  rcases hq with rfl | rfl
  · have hd : 2 * q / 2 = q := by omega
    constructor <;> simp only [ExtendedMantissa.shiftRightOne, hd] <;> push_cast at *
    · linarith
    · linarith
    · simp only [Nat.mul_mod_right, bne_self_eq_false, Bool.false_eq_true, false_iff, not_le]
      linarith
    · rw [Bool.or_eq_true, hr, hs]
      constructor
      · rintro (hh | ⟨hh, hh'⟩)
        · exact ⟨by intro he; linarith, by intro he; linarith⟩
        · exact ⟨by intro he; apply hh; linarith, by intro he; linarith⟩
      · rintro ⟨hh, _⟩
        by_cases hc : 2 * (q : ℚ) + 1 / 2 ≤ y
        · exact Or.inl hc
        · exact Or.inr ⟨by intro he; apply hh; linarith, by intro he; apply hc; linarith⟩
  · have hd : (2 * q + 1) / 2 = q := by omega
    have hb : ((2 * q + 1) % 2 != 0) = true := by simp
    constructor <;> simp only [ExtendedMantissa.shiftRightOne, hd, hb] <;> push_cast at *
    · linarith
    · linarith
    · simp only [true_iff]
      linarith
    · rw [Bool.or_eq_true, hr, hs]
      constructor
      · rintro (hh | ⟨hh, hh'⟩)
        · exact ⟨by intro he; linarith, by intro he; linarith⟩
        · exact ⟨by intro he; linarith, by intro he; apply hh; linarith⟩
      · rintro ⟨_, hh⟩
        by_cases hc : 2 * (q : ℚ) + 1 + 1 / 2 ≤ y
        · exact Or.inl hc
        · exact Or.inr ⟨by intro he; apply hh; linarith, by intro he; apply hc; linarith⟩

theorem Records.shiftRight {em : ExtendedMantissa} {y : ℚ} (h : Records em y) (n : Nat) :
    Records (em >>> n) (y / 2 ^ n) := by
  induction n with
  | zero => simpa [HShiftRight.hShiftRight, Nat.repeat] using h
  | succ n ih =>
    have hs := ih.shiftRightOne
    rw [div_div, ← pow_succ] at hs
    exact hs

theorem Records.roundedMantissa {em : ExtendedMantissa} {y : ℚ} (h : Records em y) :
    |(em.roundedMantissa : ℚ) - y| ≤ 1 / 2 ∧ em.mantissa ≤ em.roundedMantissa ∧
      em.roundedMantissa ≤ em.mantissa + 1 := by
  have hl := h.floor_le
  have hu := h.lt_succ
  have hr := h.round_iff
  have hs := h.sticky_iff
  obtain ⟨m, rb, st⟩ := em
  simp only at hl hu hr hs
  cases rb <;> cases st <;>
    simp only [Bool.false_eq_true, false_iff, true_iff, not_le, not_and_or, not_not] at hr hs <;>
    simp only [ExtendedMantissa.roundedMantissa, ExtendedMantissa.accuracy,
      Accuracy.roundToNearestEven, abs_le] <;> push_cast
  · refine ⟨?_, le_refl _, by omega⟩
    rcases hs with hs | hs <;> constructor <;> linarith
  · refine ⟨?_, le_refl _, by omega⟩
    constructor <;> linarith
  · have hm : m % 2 = 0 ∨ m % 2 = 1 := by omega
    rcases hs with hs | hs
    · exact absurd hr (by linarith)
    · rcases hm with hm | hm <;> rw [hm] <;> refine ⟨?_, by omega, by omega⟩ <;>
        constructor <;> push_cast <;> linarith
  · refine ⟨?_, by omega, le_refl _⟩
    constructor <;> linarith


theorem shiftToTargetExponent_eq {m : Nat} {e : Int} (acc : Accuracy) (hm : 2 ^ 52 ≤ m)
    (he : -1074 ≤ e) : shiftToTargetExponent Format.binary64 m e acc =
      (ExtendedMantissa.ofMantissaAndAccuracy m acc >>> (m.log2 - 52), e + (m.log2 - 52 : Nat)) := by
  have hl : 52 ≤ m.log2 := (Nat.le_log2 (by omega)).mpr hm
  have ht : Format.binary64.targetExponent (totalExponent m e) - e = (m.log2 - 52 : Nat) := by
    simp only [Format.targetExponent, totalExponent, Format.mantissaBits, Format.minExponent]
    omega
  simp only [shiftToTargetExponent, shiftToExponent, ht, Int.toNat_natCast]

theorem Records.bounds {m : Nat} {acc : Accuracy} {y : ℚ} (hm : 2 ^ 52 ≤ m)
    (h : Records (ExtendedMantissa.ofMantissaAndAccuracy m acc) y) :
    2 ^ 52 ≤ y / 2 ^ (m.log2 - 52) ∧ y / 2 ^ (m.log2 - 52) < 2 ^ 53 := by
  have hmant : (ExtendedMantissa.ofMantissaAndAccuracy m acc).mantissa = m := by
    rcases acc with _ | _ | _ | _ <;> rfl
  have hl := h.floor_le
  have hu := h.lt_succ
  rw [hmant] at hl hu
  have hk : 52 ≤ m.log2 := (Nat.le_log2 (by omega)).mpr hm
  have h₁ : 2 ^ 52 * 2 ^ (m.log2 - 52) ≤ m := by
    rw [← pow_add, Nat.add_sub_cancel' hk]
    exact Nat.log2_self_le (by omega)
  have h₂ : m + 1 ≤ 2 ^ 53 * 2 ^ (m.log2 - 52) := by
    rw [← pow_add, show 53 + (m.log2 - 52) = m.log2 + 1 by omega]
    exact Nat.lt_log2_self
  have h₁' : (2 : ℚ) ^ 52 * 2 ^ (m.log2 - 52) ≤ m := by exact_mod_cast h₁
  have h₂' : (m : ℚ) + 1 ≤ 2 ^ 53 * 2 ^ (m.log2 - 52) := by exact_mod_cast h₂
  have hp : (0 : ℚ) < 2 ^ (m.log2 - 52) := by positivity
  rw [le_div_iff₀ hp, div_lt_iff₀ hp]
  exact ⟨h₁'.trans hl, hu.trans_le h₂'⟩

theorem roundWithAccuracy_congr {m m' : Nat} {e e' : Int} {acc acc' : Accuracy} {x : ℚ} (s : Sign)
    (h : Records (ExtendedMantissa.ofMantissaAndAccuracy m acc) (x / 2 ^ e))
    (h' : Records (ExtendedMantissa.ofMantissaAndAccuracy m' acc') (x / 2 ^ e'))
    (hm : 2 ^ 52 ≤ m) (hm' : 2 ^ 52 ≤ m') (he : -1074 ≤ e) (he' : -1074 ≤ e') :
    roundWithAccuracy Format.binary64 s m e acc = roundWithAccuracy Format.binary64 s m' e' acc' := by
  have hb := h.bounds hm
  have hb' := h'.bounds hm'
  have hs := h.shiftRight (m.log2 - 52)
  have hs' := h'.shiftRight (m'.log2 - 52)
  have hz (f : Int) (k : Nat) : x / 2 ^ f / 2 ^ k = x / 2 ^ (f + (k : Int)) := by
    rw [div_div, zpow_add₀ (by norm_num), zpow_natCast]
  rw [hz] at hb hb' hs hs'
  have hE : e + (m.log2 - 52 : Nat) = e' + (m'.log2 - 52 : Nat) := by
    generalize e + ((m.log2 - 52 : Nat) : Int) = E at hb
    generalize e' + ((m'.log2 - 52 : Nat) : Int) = E' at hb'
    have hp (f : Int) : (0 : ℚ) < 2 ^ f := by positivity
    have key (f g : Int) (hf : 2 ^ 52 ≤ x / 2 ^ f) (hg : x / 2 ^ g < 2 ^ 53) : f ≤ g := by
      rw [le_div_iff₀ (hp f)] at hf
      rw [div_lt_iff₀ (hp g)] at hg
      have hlt : (2 : ℚ) ^ (52 + f) < 2 ^ (53 + g) := by
        rw [zpow_add₀ (by norm_num), zpow_add₀ (by norm_num)]
        exact_mod_cast hf.trans_lt hg
      have := (zpow_lt_zpow_iff_right₀ (by norm_num : (1 : ℚ) < 2)).mp hlt
      omega
    have h₁ := key E E' hb.1 hb'.2
    have h₂ := key E' E hb'.1 hb.2
    omega
  rw [← hE] at hs'
  have hem := hs.unique hs'
  simp only [roundWithAccuracy, shiftToTargetExponent_eq acc hm he,
    shiftToTargetExponent_eq acc' hm' he', hem, hE]

/-- Rounding gives a normal number within half a unit of the recorded one. -/
theorem roundWithAccuracy_normal {m : Nat} {e : Int} {acc : Accuracy} {x : ℚ} (s : Sign)
    (h : Records (ExtendedMantissa.ofMantissaAndAccuracy m acc) (x / 2 ^ e))
    (hm : 2 ^ 52 ≤ m) (he : -1074 ≤ e) :
    ∃ (M : Nat) (E : Int) (hM : 0 < M), roundWithAccuracy Format.binary64 s m e acc = .finite s M E hM ∧
      2 ^ 52 ≤ M ∧ M < 2 ^ 53 ∧ e ≤ E ∧ E ≤ e + m.log2 - 51 ∧
      |(M : ℚ) * 2 ^ E - x| ≤ 2 ^ (e + m.log2 - 53) := by
  have hk : 52 ≤ m.log2 := (Nat.le_log2 (by omega)).mpr hm
  have hb := h.bounds hm
  have hs := h.shiftRight (m.log2 - 52)
  have hz : x / 2 ^ e / 2 ^ (m.log2 - 52) = x / 2 ^ (e + m.log2 - 52) := by
    rw [div_div, ← zpow_natCast, ← zpow_add₀ (by norm_num)]
    congr 2
    omega
  rw [hz] at hb hs
  set em := ExtendedMantissa.ofMantissaAndAccuracy m acc >>> (m.log2 - 52) with hem
  set T : Int := e + m.log2 - 52 with hT
  obtain ⟨herr, hlo, hhi⟩ := hs.roundedMantissa
  have hr₁ : 2 ^ 52 ≤ em.mantissa := by
    have : (2 : ℚ) ^ 52 < em.mantissa + 1 := hb.1.trans_lt hs.lt_succ
    have : 2 ^ 52 < em.mantissa + 1 := by exact_mod_cast this
    omega
  have hr₂ : em.mantissa < 2 ^ 53 := by
    have : (em.mantissa : ℚ) < 2 ^ 53 := hs.floor_le.trans_lt hb.2
    exact_mod_cast this
  set r := em.roundedMantissa with hr
  have hval : |(r : ℚ) * 2 ^ T - x| ≤ 2 ^ (e + m.log2 - 53) := by
    have hp : (0 : ℚ) < 2 ^ T := by positivity
    have hx : x / 2 ^ T * 2 ^ T = x := div_mul_cancel₀ x hp.ne'
    have hh : (r : ℚ) * 2 ^ T - x = (r - x / 2 ^ T) * 2 ^ T := by rw [sub_mul, hx]
    rw [hh, abs_mul, abs_of_pos hp, show e + (m.log2 : Int) - 53 = T - 1 by omega,
      zpow_sub_one₀ (by norm_num)]
    calc |(r : ℚ) - x / 2 ^ T| * 2 ^ T ≤ 1 / 2 * 2 ^ T := by gcongr
      _ = 2 ^ T * 2⁻¹ := by ring
  have hsecond : roundWithAccuracy Format.binary64 s m e acc =
      if h : (ExtendedMantissa.ofMantissaAndAccuracy r .exact >>> (r.log2 - 52)).mantissa = 0 then .zero s
      else .finite s (ExtendedMantissa.ofMantissaAndAccuracy r .exact >>> (r.log2 - 52)).mantissa
        (T + (r.log2 - 52 : Nat)) (Nat.pos_of_ne_zero h) := by
    have hT' : e + ((m.log2 - 52 : Nat) : Int) = T := by omega
    simp only [roundWithAccuracy, shiftToTargetExponent_eq acc hm he, ← hem, ← hr, hT',
      shiftToTargetExponent_eq .exact (hr₁.trans hlo) (by omega : (-1074 : Int) ≤ T)]
  rw [hsecond]
  by_cases hc : r < 2 ^ 53
  · have hl : r.log2 = 52 := (Nat.log2_eq_iff (by omega)).mpr ⟨by omega, hc⟩
    have hmm : (ExtendedMantissa.ofMantissaAndAccuracy r .exact >>> 0).mantissa = r := rfl
    refine ⟨r, T, by omega, ?_, by omega, hc, by omega, by omega, hval⟩
    simp only [hl, Nat.sub_self, hmm, dif_neg (show ¬ r = 0 by omega), Nat.cast_zero, add_zero]
  · have hr' : r = 2 ^ 53 := by omega
    have hl : r.log2 = 53 := by rw [hr']; exact Nat.log2_two_pow
    have hmm : (ExtendedMantissa.ofMantissaAndAccuracy r .exact >>> 1).mantissa = 2 ^ 52 := by
      rw [hr']; rfl
    refine ⟨2 ^ 52, T + 1, by norm_num, ?_, le_refl _, by norm_num, by omega, by omega, ?_⟩
    · simp only [hl, show 53 - 52 = 1 from rfl, hmm, dif_neg (show ¬ 2 ^ 52 = 0 by norm_num),
        Nat.cast_one]
    · rw [hr'] at hval
      rw [zpow_add_one₀ (by norm_num)]
      have he : ((2 ^ 52 : Nat) : ℚ) * (2 ^ T * 2) = ((2 ^ 53 : Nat) : ℚ) * 2 ^ T := by push_cast; ring
      rw [he]
      exact hval

theorem unpackSign_packComponents {spec : Format} (sign : Sign) (exponent mantissa) :
    unpackSign (packComponents spec sign exponent mantissa) = sign.toBitVec := by
  ext i hi
  have h₁ : ¬ spec.mantissaBitsWithoutImplicit + spec.exponentBits + i <
      spec.mantissaBitsWithoutImplicit := by omega
  have h₂ : ¬ spec.mantissaBitsWithoutImplicit + spec.exponentBits + i -
      spec.mantissaBitsWithoutImplicit < spec.exponentBits := by omega
  have h₃ : spec.mantissaBitsWithoutImplicit + spec.exponentBits + i -
      spec.mantissaBitsWithoutImplicit - spec.exponentBits = i := by omega
  simp only [unpackSign, packComponents, BitVec.getElem_cast, BitVec.extractLsb,
    BitVec.getElem_extractLsb', BitVec.getLsbD_append]
  simp [h₂, h₃, BitVec.getLsbD_eq_getElem hi]
  exact fun h => absurd h h₁

theorem unpack_pack_normal (s : Sign) {M : Nat} {E : Int} (hM : 0 < M) (h₁ : 2 ^ 52 ≤ M)
    (h₂ : M < 2 ^ 53) (hE : -1000 ≤ E) (hE' : E ≤ 900) :
    (Float.Model.pack (.finite s M E hM)).unpack = .finite s M E hM := by
  have hl : M.log2 = 52 := (Nat.log2_eq_iff (by omega)).mpr ⟨h₁, h₂⟩
  obtain ⟨b, hb, hb₁, hb₂⟩ : ∃ b : Nat, (b : Int) = E + 1075 ∧ 0 < b ∧ b < 2047 :=
    ⟨(E + 1075).toNat, by omega, by omega, by omega⟩
  have hbias : ((Format.binary64.exponentBias : Nat) : Int) = 1023 := rfl
  have hpack : UnpackedFloat.pack Format.binary64 (.finite s M E hM) =
      packComponents Format.binary64 s (BitVec.ofNat 11 b) (BitVec.ofNat 52 M) := by
    have he : (E + (Format.binary64.exponentBias : Nat) +
        (Format.binary64.mantissaBitsWithoutImplicit : Nat)).toNat = b := by
      rw [hbias]
      show (E + 1023 + 52).toNat = b
      omega
    have hn : ¬ 2 ^ Format.binary64.exponentBits ≤ b + 1 := by
      show ¬ 2 ^ 11 ≤ b + 1
      omega
    simp only [UnpackedFloat.pack, he, hl, if_neg hn]
    rfl
  have hx : (BitVec.ofNat 11 b).toNat = b := by
    rw [BitVec.toNat_ofNat]; omega
  have hmax : ¬ BitVec.ofNat 11 b = -1#11 := by
    intro h
    have := congrArg BitVec.toNat h
    rw [hx] at this
    simp at this
    omega
  have hzero : ¬ BitVec.ofNat 11 b = 0#11 := by
    intro h
    have := congrArg BitVec.toNat h
    rw [hx] at this
    simp at this
    omega
  have hm : ((1#1 ++ BitVec.ofNat 52 M : BitVec (1 + 52))).toNat = M := by
    rw [BitVec.toNat_append, BitVec.toNat_ofNat, BitVec.toNat_ofNat, show M % 2 ^ 52 = M - 2 ^ 52 by omega,
      ← Nat.shiftLeft_add_eq_or_of_lt (by omega)]
    show 1 <<< 52 + (M - 2 ^ 52) = M
    omega
  have hsgn : Sign.ofBitVec s.toBitVec = s := by cases s <;> rfl
  show UnpackedFloat.unpack Format.binary64 (UInt64.ofBitVec _).toBitVec = _
  rw [hpack]
  simp only [UnpackedFloat.unpack, unpackExponent_packComponents, unpackMantissa_packComponents,
    unpackSign_packComponents, hmax, hzero, if_false, hx, hsgn]
  have he : (b : Int) - ((Format.binary64.exponentBias : Nat) + (52 : Nat)) = E := by
    rw [hbias]
    omega
  simp only [hm, he]


theorem ofMantissaAndAccuracy_fraction (q r : Nat) {D : Nat} (hD : 0 < D) :
    ExtendedMantissa.ofMantissaAndAccuracy q (accuracyOfFraction r D) =
      ⟨q, decide (D ≤ 2 * r), decide (r ≠ 0 ∧ 2 * r ≠ D)⟩ := by
  by_cases h0 : r = 0
  · have hn : ¬ D ≤ 2 * r := by omega
    simp [accuracyOfFraction, h0, ExtendedMantissa.ofMantissaAndAccuracy, hD.ne']
  · rw [accuracyOfFraction, if_neg h0]
    rcases hc : compare (2 * r) D with _ | _ | _
    · have h := compare_lt_iff_lt.mp hc
      simp [ExtendedMantissa.ofMantissaAndAccuracy, h0, h, h.ne]
    · have h := compare_eq_iff_eq.mp hc
      simp [ExtendedMantissa.ofMantissaAndAccuracy, h0, h]
    · have h := compare_gt_iff_gt.mp hc
      simp [ExtendedMantissa.ofMantissaAndAccuracy, h0, h.le, h.ne']

theorem records_div (N : Nat) {D : Nat} (hD : 0 < D) :
    Records (ExtendedMantissa.ofMantissaAndAccuracy (N / D) (accuracyOfFraction (N % D) D))
      ((N : ℚ) / D) := by
  have hd : (0 : ℚ) < D := by exact_mod_cast hD
  have hN : (N : ℚ) / D = (N / D : Nat) + (N % D : Nat) / D := by
    field_simp
    exact_mod_cast (Nat.div_add_mod N D).symm
  have hlt : ((N % D : Nat) : ℚ) / D < 1 := by
    rw [div_lt_one hd]
    exact_mod_cast Nat.mod_lt N hD
  have hle : 0 ≤ ((N % D : Nat) : ℚ) / D := by positivity
  rw [hN, ofMantissaAndAccuracy_fraction _ _ hD]
  generalize N % D = r at hlt hle
  have hhalf : (1 : ℚ) / 2 ≤ (r : ℚ) / D ↔ D ≤ 2 * r := by
    rw [div_le_div_iff₀ (by norm_num) hd]
    norm_cast
    omega
  have hz : (r : ℚ) / D = 0 ↔ r = 0 := by
    rw [div_eq_zero_iff]
    norm_cast
    omega
  have heq : (r : ℚ) / D = 1 / 2 ↔ 2 * r = D := by
    rw [div_eq_div_iff hd.ne' (by norm_num)]
    norm_cast
    omega
  constructor
  · simpa using hle
  · simpa using hlt
  · rw [add_le_add_iff_left, hhalf, decide_eq_true_eq]
  · simp only [ne_eq, add_eq_left, hz, add_right_inj, heq, decide_eq_true_eq]

theorem records_exact (m : Nat) :
    Records (ExtendedMantissa.ofMantissaAndAccuracy m .exact) (m : ℚ) := by
  simpa [accuracyOfFraction, Nat.mod_one] using records_div m Nat.one_pos

def mant (n : Nat) : Nat := n * 2 ^ (52 - n.log2)

theorem mant_bounds {n : Nat} (h : 0 < n) (hn : n < 2 ^ 53) : 2 ^ 52 ≤ mant n ∧ mant n < 2 ^ 53 := by
  have hl : n.log2 < 53 := (Nat.log2_lt (by omega)).mpr hn
  have h₁ := Nat.log2_self_le (n := n) (by omega)
  have h₂ := Nat.lt_log2_self (n := n)
  have hp : 2 ^ 52 = 2 ^ n.log2 * 2 ^ (52 - n.log2) := by rw [← pow_add]; congr 1; omega
  have hp' : 2 ^ 53 = 2 ^ (n.log2 + 1) * 2 ^ (52 - n.log2) := by rw [← pow_add]; congr 1; omega
  rw [hp, hp', mant]
  exact ⟨Nat.mul_le_mul_right _ h₁, Nat.mul_lt_mul_of_pos_right h₂ (by positivity)⟩

theorem log2_mant {n : Nat} (h : 0 < n) (hn : n < 2 ^ 53) : (mant n).log2 = 52 := by
  have hb := mant_bounds h hn
  exact (Nat.log2_eq_iff (by omega)).mpr ⟨hb.1, hb.2⟩

theorem roundWithAccuracy_canonical (s : Sign) {M : Nat} {E : Int} (h₁ : 2 ^ 52 ≤ M)
    (h₂ : M < 2 ^ 53) (hE : -1074 ≤ E) :
    roundWithAccuracy Format.binary64 s M E .exact = .finite s M E (by omega) := by
  have hl : M.log2 = 52 := (Nat.log2_eq_iff (by omega)).mpr ⟨h₁, h₂⟩
  have hshift : shiftToTargetExponent Format.binary64 M E .exact = (⟨M, false, false⟩, E) := by
    rw [shiftToTargetExponent_eq .exact h₁ hE, hl, Nat.sub_self, Nat.cast_zero, add_zero]
    rfl
  have hr : (⟨M, false, false⟩ : ExtendedMantissa).roundedMantissa = M := rfl
  simp only [roundWithAccuracy, hshift, hr, dif_neg (show ¬ M = 0 by omega)]

theorem round_exact (s : Sign) {m : Nat} {e : Int} (hm : 0 < m) (hm' : m < 2 ^ 53)
    (he : -1000 ≤ e) : UnpackedFloat.round Format.binary64 s m e =
      .finite s (mant m) (e + m.log2 - 52) (by have := mant_bounds hm hm'; omega) := by
  have hb := mant_bounds hm hm'
  have hl : m.log2 < 53 := (Nat.log2_lt (by omega)).mpr hm'
  have ht : Format.binary64.targetExponent (totalExponent m e) = e + m.log2 - 52 := by
    simp only [Format.targetExponent, totalExponent, Format.mantissaBits, Format.minExponent]
    omega
  have hd : decreaseExponent m e (e + m.log2 - 52) = (mant m, e + m.log2 - 52) := by
    have he : (e - (e + (m.log2 : Int) - 52)).toNat = 52 - m.log2 := by omega
    simp only [decreaseExponent, he, Nat.shiftLeft_eq, mant, Prod.mk.injEq, true_and]
    omega
  simp only [UnpackedFloat.round, ht, hd]
  exact roundWithAccuracy_canonical s hb.1 hb.2 (by omega)

theorem value_mant {m : Nat} (hm : m < 2 ^ 53) (hm' : 0 < m) (e : Int) :
    (mant m : ℚ) * 2 ^ (e + m.log2 - 52) = m * 2 ^ e := by
  have hl : m.log2 < 53 := (Nat.log2_lt (by omega)).mpr hm
  have he : (2 : ℚ) ^ e = 2 ^ (52 - m.log2) * 2 ^ (e + m.log2 - 52) := by
    rw [← zpow_natCast, ← zpow_add₀ (by norm_num)]
    congr 1
    omega
  rw [mant, he]
  push_cast
  ring

theorem round_normal (s : Sign) {m : Nat} {e : Int} (hm : 0 < m) (he : -1000 ≤ e) :
    ∃ (M : Nat) (E : Int) (hM : 0 < M), UnpackedFloat.round Format.binary64 s m e = .finite s M E hM ∧
      2 ^ 52 ≤ M ∧ M < 2 ^ 53 ∧ e - 52 ≤ E ∧ E ≤ e + m.log2 - 51 ∧
      |(M : ℚ) * 2 ^ E - m * 2 ^ e| ≤ 2 ^ (e + m.log2 - 53) := by
  by_cases hc : m < 2 ^ 53
  · have hb := mant_bounds hm hc
    refine ⟨_, _, _, round_exact s hm hc he, hb.1, hb.2, by omega, by omega, ?_⟩
    rw [value_mant hc hm, sub_self, abs_zero]
    positivity
  · have hl : 53 ≤ m.log2 := (Nat.le_log2 (by omega)).mpr (by omega)
    have ht : Format.binary64.targetExponent (totalExponent m e) = e + m.log2 - 52 := by
      simp only [Format.targetExponent, totalExponent, Format.mantissaBits, Format.minExponent]
      omega
    have hd : decreaseExponent m e (e + m.log2 - 52) = (m, e) := by
      have he : (e - (e + (m.log2 : Int) - 52)).toNat = 0 := by omega
      simp only [decreaseExponent, he, Nat.shiftLeft_zero, Nat.cast_zero, sub_zero]
    have hrec : Records (ExtendedMantissa.ofMantissaAndAccuracy m .exact) ((m : ℚ) * 2 ^ e / 2 ^ e) := by
      rw [mul_div_cancel_right₀ _ (by positivity)]
      exact records_exact m
    obtain ⟨M, E, hM, heq, h₁, h₂, h₃, h₄, h₅⟩ :=
      roundWithAccuracy_normal s hrec (by omega) (by omega)
    simp only [UnpackedFloat.round, ht, hd]
    exact ⟨M, E, hM, heq, h₁, h₂, by omega, h₄, h₅⟩

theorem unpack_toFloat {a : UInt16} (h : 0 < a.toNat) :
    ∃ hm, a.toFloat.toModel.unpack = .finite .positive (mant a.toNat) (a.toNat.log2 - 52) hm := by
  have hlt := a.toNat_lt
  have hb := mant_bounds h (by omega)
  have hl : a.toNat.log2 < 16 := (Nat.log2_lt (by omega)).mpr hlt
  refine ⟨by omega, ?_⟩
  have hc : compare (a.toNat : Int) 0 = .gt := compare_gt_iff_gt.mpr (by omega)
  have hu : UnpackedFloat.ofUInt16 Format.binary64 a =
      .finite .positive (mant a.toNat) (a.toNat.log2 - 52) (by omega) := by
    simp only [UnpackedFloat.ofUInt16, UnpackedFloat.ofNat, UnpackedFloat.ofInt,
      UnpackedFloat.normalize, hc, Int.toNat_natCast, round_exact .positive h (by omega)
        (by norm_num : (-1000 : Int) ≤ 0), zero_add]
  show (Float.Model.pack (UnpackedFloat.ofUInt16 Format.binary64 a)).unpack = _
  rw [hu]
  exact unpack_pack_normal _ _ hb.1 hb.2 (by omega) (by omega)

theorem unpack_toFloat_zero : (UInt16.toFloat 0).toModel.unpack = .zero .positive := by rfl

def value : UnpackedFloat → ℚ
  | .finite s m e _ => (s.apply m : Int) * 2 ^ e
  | _ => 0

/-- Zero, or normal with an exponent far from the ends of the range. -/
def Tame : UnpackedFloat → Prop
  | .finite _ m e _ => 2 ^ 52 ≤ m ∧ m < 2 ^ 53 ∧ -1000 ≤ e ∧ e ≤ 900
  | .zero _ => True
  | _ => False

theorem Tame.unpack_pack {u : UnpackedFloat} (h : Tame u) : (Float.Model.pack u).unpack = u := by
  cases u with
  | infinity s => exact h.elim
  | notANumber => exact h.elim
  | zero s => cases s <;> rfl
  | finite s m e hm => exact unpack_pack_normal s hm h.1 h.2.1 h.2.2.1 h.2.2.2

theorem exponents_of_lt {m n : Nat} {e f : Int} (hm : 2 ^ 52 ≤ m) (hn : n < 2 ^ 53)
    (h : (m : ℚ) * 2 ^ e < n * 2 ^ f) : e < f ∨ e = f ∧ m < n := by
  rcases lt_trichotomy e f with hef | rfl | hef
  · exact Or.inl hef
  · have hp : (0 : ℚ) < 2 ^ e := by positivity
    exact Or.inr ⟨rfl, by exact_mod_cast lt_of_mul_lt_mul_right h hp.le⟩
  · exfalso
    have hm' : (2 : ℚ) ^ (52 : Nat) ≤ m := by exact_mod_cast hm
    have hn' : (n : ℚ) < 2 ^ (53 : Nat) := by exact_mod_cast hn
    have hle : (2 : ℚ) ^ (53 : Nat) * 2 ^ f ≤ 2 ^ (52 : Nat) * 2 ^ e := by
      rw [← zpow_natCast, ← zpow_natCast, ← zpow_add₀ (by norm_num), ← zpow_add₀ (by norm_num)]
      exact zpow_le_zpow_right₀ (by norm_num) (by push_cast; omega)
    have h₁ : (2 : ℚ) ^ (52 : Nat) * 2 ^ e ≤ m * 2 ^ e := by gcongr
    have h₂ : (n : ℚ) * 2 ^ f < 2 ^ (53 : Nat) * 2 ^ f := by gcongr
    linarith

theorem compare_of_value_lt {u v : UnpackedFloat} (hu : Tame u) (hv : Tame v)
    (h : value u < value v) : u.compare v = some .lt := by
  have hp (e : Int) : (0 : ℚ) < 2 ^ e := by positivity
  have hpos (m : Nat) (e : Int) : (0 : ℚ) ≤ m * 2 ^ e := by positivity
  rw [compare_eq_lt_iff]
  rcases u with (_ | _) | _ | _ | ⟨_ | _, m, e, hm⟩ <;> first | exact hu.elim | skip
  all_goals rcases v with (_ | _) | _ | _ | ⟨_ | _, n, f, hn⟩ <;> first | exact hv.elim | skip
  all_goals simp only [value, Sign.apply, Int.cast_neg, Int.cast_natCast, neg_mul] at h
  · exact (lt_irrefl _ h).elim
  · linarith [hpos n f]
  · exact ⟨_, rfl, _, rfl, Or.inl (by norm_num)⟩
  · exact ⟨_, rfl, _, rfl, Or.inl (by norm_num)⟩
  · have := exponents_of_lt hv.1 hu.2.1 (neg_lt_neg_iff.mp h)
    refine ⟨_, rfl, _, rfl, Or.inr ⟨rfl, ?_⟩⟩
    simp only
    omega
  · exact ⟨_, rfl, _, rfl, Or.inl (by norm_num)⟩
  · linarith [hpos m e]
  · linarith [hpos m e, hpos n f]
  · have := exponents_of_lt hu.1 hv.2.1 h
    refine ⟨_, rfl, _, rfl, Or.inr ⟨rfl, ?_⟩⟩
    simp only
    omega

theorem log2_le_of_lt {m : Nat} {e k : Int} (hm : 0 < m) (h : (m : ℚ) * 2 ^ e < 2 ^ (k + 1)) : e + m.log2 ≤ k := by
  have h₁ : ((2 ^ m.log2 : Nat) : ℚ) ≤ m := by exact_mod_cast Nat.log2_self_le (by omega)
  have h₂ : (2 : ℚ) ^ (m.log2 + e) < 2 ^ (k + 1) := by
    rw [zpow_add₀ (by norm_num), zpow_natCast]
    refine lt_of_le_of_lt ?_ h
    push_cast at h₁
    gcongr
  have := (zpow_lt_zpow_iff_right₀ (by norm_num : (1 : ℚ) < 2)).mp h₂
  omega

theorem round_tame (s : Sign) {m : Nat} {e : Int} (hm : 0 < m) (he : -900 ≤ e) (h : (m : ℚ) * 2 ^ e < 2 ^ 17) :
    ∃ (M : Nat) (E : Int) (hM : 0 < M), UnpackedFloat.round Format.binary64 s m e = .finite s M E hM ∧
      Tame (.finite s M E hM) ∧ |(M : ℚ) * 2 ^ E - m * 2 ^ e| ≤ 2 ^ (-37 : Int) := by
  have hl : e + m.log2 ≤ 16 := log2_le_of_lt hm h
  obtain ⟨M, E, hM, heq, h₁, h₂, h₃, h₄, h₅⟩ := round_normal s hm (by omega : -1000 ≤ e)
  refine ⟨M, E, hM, heq, ⟨h₁, h₂, by omega, by omega⟩, h₅.trans ?_⟩
  exact zpow_le_zpow_right₀ (by norm_num) (by omega)

/-- Rounding a number below `2 ^ 17` to a tame float loses at most `2 ^ (-37)`. -/
theorem normalize_value {z : Int} {e : Int} (he : -900 ≤ e) (hz : |(z : ℚ) * 2 ^ e| < 2 ^ 17) :
    Tame (UnpackedFloat.normalize Format.binary64 z e .positive) ∧
      |value (UnpackedFloat.normalize Format.binary64 z e .positive) - z * 2 ^ e| ≤ 2 ^ (-37 : Int) := by
  rw [abs_lt] at hz
  rcases lt_trichotomy z 0 with hneg | rfl | hpos
  · have hc : compare z 0 = .lt := compare_lt_iff_lt.mpr hneg
    obtain ⟨m, hm, rfl⟩ : ∃ m : Nat, 0 < m ∧ z = -m := ⟨z.natAbs, by omega, by omega⟩
    push_cast at hz
    obtain ⟨M, E, hM, heq, ht, herr⟩ := round_tame .negative hm he (by linarith [hz.1])
    have hn : UnpackedFloat.normalize Format.binary64 (-(m : Int)) e .positive =
        .finite .negative M E hM := by
      simp only [UnpackedFloat.normalize, hc, neg_neg, Int.toNat_natCast, heq]
    rw [hn]
    refine ⟨ht, ?_⟩
    simp only [value, Sign.apply, Int.cast_neg, Int.cast_natCast, neg_mul]
    rwa [show -((M : ℚ) * 2 ^ E) - -((m : ℚ) * 2 ^ e) = -(M * 2 ^ E - m * 2 ^ e) by ring, abs_neg]
  · have hn : UnpackedFloat.normalize Format.binary64 0 e .positive = .zero .positive := rfl
    rw [hn]
    refine ⟨trivial, ?_⟩
    simp only [value, Int.cast_zero, zero_mul, sub_zero, abs_zero]
    positivity
  · have hc : compare z 0 = .gt := compare_gt_iff_gt.mpr hpos
    obtain ⟨m, hm, rfl⟩ : ∃ m : Nat, 0 < m ∧ z = m := ⟨z.natAbs, by omega, by omega⟩
    push_cast at hz
    obtain ⟨M, E, hM, heq, ht, herr⟩ := round_tame .positive hm he hz.2
    have hn : UnpackedFloat.normalize Format.binary64 (m : Int) e .positive = .finite .positive M E hM := by
      simp only [UnpackedFloat.normalize, hc, Int.toNat_natCast, heq]
    rw [hn]
    refine ⟨ht, ?_⟩
    simpa only [value, Sign.apply, Int.cast_natCast] using herr

theorem decreaseExponent_value (s : Sign) (m : Nat) {e f : Int} (hf : f ≤ e) :
    ((s.apply (decreaseExponent m e f).1 : Int) : ℚ) * 2 ^ f = (s.apply m : Int) * 2 ^ e := by
  have he : (2 : ℚ) ^ e = 2 ^ (e - f).toNat * 2 ^ f := by
    rw [← zpow_natCast, ← zpow_add₀ (by norm_num)]
    congr 1
    omega
  have hm : (decreaseExponent m e f).1 = m * 2 ^ (e - f).toNat := by
    simp only [decreaseExponent, Nat.shiftLeft_eq]
  rw [hm, he]
  cases s <;> simp only [Sign.apply] <;> push_cast <;> ring

theorem divCore_mant {a b : Nat} (ha : 0 < a) (ha' : a < 2 ^ 16) (hb : 0 < b) (hb' : b < 2 ^ 16) :
    divCore Format.binary64 (mant a) (a.log2 - 52) (mant b) (b.log2 - 52) =
      (mant a * 2 ^ 53 / mant b, (a.log2 : Int) - b.log2 - 53,
        accuracyOfFraction (mant a * 2 ^ 53 % mant b) (mant b)) := by
  have hla : a.log2 < 16 := (Nat.log2_lt (by omega)).mpr ha'
  have hlb : b.log2 < 16 := (Nat.log2_lt (by omega)).mpr hb'
  have ht : min ((a.log2 : Int) - 52 - (b.log2 - 52)) (Format.binary64.targetExponent
      (totalExponent (mant a) (a.log2 - 52) - totalExponent (mant b) (b.log2 - 52))) =
      a.log2 - b.log2 - 53 := by
    simp only [Format.targetExponent, totalExponent, Format.mantissaBits, Format.minExponent,
      log2_mant ha (by omega : a < 2 ^ 53), log2_mant hb (by omega : b < 2 ^ 53)]
    omega
  have hs : ((a.log2 : Int) - 52 - (b.log2 - 52) - (a.log2 - b.log2 - 53)).toNat = 53 := by omega
  simp only [divCore, ht, hs, Nat.shiftLeft_eq]

theorem div_eq_mant {a b : Nat} (ha : 0 < a) (ha' : a < 2 ^ 53) (hb : 0 < b) (hb' : b < 2 ^ 53) :
    (a : ℚ) / b / 2 ^ ((a.log2 : Int) - b.log2 - 53) = ((mant a * 2 ^ 53 : Nat) : ℚ) / (mant b : Nat) := by
  have hva : (mant a : ℚ) * 2 ^ (0 + (a.log2 : Int) - 52) = a := by simpa using value_mant ha' ha 0
  have hvb : (mant b : ℚ) * 2 ^ (0 + (b.log2 : Int) - 52) = b := by simpa using value_mant hb' hb 0
  have hexp : (2 : ℚ) ^ (0 + (a.log2 : Int) - 52) =
      2 ^ 53 * 2 ^ (0 + (b.log2 : Int) - 52) * 2 ^ ((a.log2 : Int) - b.log2 - 53) := by
    rw [← zpow_natCast, ← zpow_add₀ (by norm_num), ← zpow_add₀ (by norm_num)]
    congr 1
    push_cast
    ring
  have hmant : mant b ≠ 0 := by have := mant_bounds hb hb'; omega
  have hb0 : (mant b : ℚ) ≠ 0 := by exact_mod_cast hmant
  have hw : (2 : ℚ) ^ (0 + (b.log2 : Int) - 52) ≠ 0 := by positivity
  have hw' : (2 : ℚ) ^ ((a.log2 : Int) - b.log2 - 53) ≠ 0 := by positivity
  -- only the two powers on the right of `hexp` matter, and that they are not zero
  calc (a : ℚ) / b / 2 ^ ((a.log2 : Int) - b.log2 - 53)
      = mant a * 2 ^ (0 + (a.log2 : Int) - 52) / (mant b * 2 ^ (0 + (b.log2 : Int) - 52)) /
          2 ^ ((a.log2 : Int) - b.log2 - 53) := by rw [hva, hvb]
    _ = ((mant a * 2 ^ 53 : Nat) : ℚ) / (mant b : Nat) := by
      rw [hexp]
      generalize (2 : ℚ) ^ (0 + (b.log2 : Int) - 52) = w at hw
      generalize (2 : ℚ) ^ ((a.log2 : Int) - b.log2 - 53) = w' at hw'
      push_cast
      field_simp
      norm_num

theorem quotient_rounds {a b : UInt16} (ha : 0 < a.toNat) (hb : 0 < b.toNat) :
    ∃ (m : Nat) (e : Int) (acc : Accuracy),
      a.toFloat / b.toFloat = .ofModel (Float.Model.pack
        (roundWithAccuracy Format.binary64 .positive m e acc)) ∧
      Records (ExtendedMantissa.ofMantissaAndAccuracy m acc) ((a.toNat : ℚ) / b.toNat / 2 ^ e) ∧
      2 ^ 52 ≤ m ∧ -100 ≤ e ∧ e + m.log2 ≤ 15 := by
  have hla : a.toNat.log2 < 16 := (Nat.log2_lt (by omega)).mpr a.toNat_lt
  have hlb : b.toNat.log2 < 16 := (Nat.log2_lt (by omega)).mpr b.toNat_lt
  have hlta := a.toNat_lt
  have hltb := b.toNat_lt
  have hma := mant_bounds ha (by omega)
  have hmb := mant_bounds hb (by omega)
  obtain ⟨h₁, hua⟩ := unpack_toFloat ha
  obtain ⟨h₂, hub⟩ := unpack_toFloat hb
  have hquot : 2 ^ 52 ≤ mant a.toNat * 2 ^ 53 / mant b.toNat ∧
      mant a.toNat * 2 ^ 53 / mant b.toNat < 2 ^ 54 := by
    constructor
    · rw [Nat.le_div_iff_mul_le (by omega)]
      omega
    · rw [Nat.div_lt_iff_lt_mul (by omega)]
      omega
  refine ⟨mant a.toNat * 2 ^ 53 / mant b.toNat, (a.toNat.log2 : Int) - b.toNat.log2 - 53,
    accuracyOfFraction (mant a.toNat * 2 ^ 53 % mant b.toNat) (mant b.toNat), ?_, ?_, hquot.1,
    by omega, ?_⟩
  · show Float.ofModel (Float.Model.pack (UnpackedFloat.div Format.binary64 a.toFloat.toModel.unpack
      b.toFloat.toModel.unpack)) = _
    rw [hua, hub]
    simp only [UnpackedFloat.div, divCore_mant ha hlta hb hltb]
    rfl
  · rw [div_eq_mant ha (by omega) hb (by omega)]
    exact records_div _ (by omega)
  · have : (mant a.toNat * 2 ^ 53 / mant b.toNat).log2 < 54 := (Nat.log2_lt (by omega)).mpr hquot.2
    omega

theorem quotient_zero {b : UInt16} (hb : 0 < b.toNat) :
    UInt16.toFloat 0 / b.toFloat = .ofModel (Float.Model.pack (.zero .positive)) := by
  obtain ⟨h, hub⟩ := unpack_toFloat hb
  show Float.ofModel (Float.Model.pack (UnpackedFloat.div Format.binary64
    (UInt16.toFloat 0).toModel.unpack b.toFloat.toModel.unpack)) = _
  rw [unpack_toFloat_zero, hub]
  rfl

theorem quotient_eq {a b c d : UInt16} (hb : 0 < b.toNat) (hd : 0 < d.toNat)
    (h : a.toNat * d.toNat = c.toNat * b.toNat) :
    a.toFloat / b.toFloat = c.toFloat / d.toFloat := by
  by_cases ha : a.toNat = 0
  · have hc : c.toNat = 0 := by
      rw [ha, zero_mul] at h
      rcases Nat.mul_eq_zero.mp h.symm with h | h <;> omega
    have ha' : a = 0 := UInt16.toNat_inj.mp ha
    have hc' : c = 0 := UInt16.toNat_inj.mp hc
    rw [ha', hc', quotient_zero hb, quotient_zero hd]
  · have hc : 0 < c.toNat := by
      rcases Nat.eq_zero_or_pos c.toNat with hc | hc
      · rw [hc, zero_mul] at h
        rcases Nat.mul_eq_zero.mp h with h | h <;> omega
      · exact hc
    obtain ⟨m, e, acc, hq, hr, hm, he, -⟩ := quotient_rounds (Nat.pos_of_ne_zero ha) hb
    obtain ⟨m', e', acc', hq', hr', hm', he', -⟩ := quotient_rounds hc hd
    have hx : (a.toNat : ℚ) / b.toNat = c.toNat / d.toNat := by
      rw [div_eq_div_iff (by exact_mod_cast hb.ne') (by exact_mod_cast hd.ne')]
      exact_mod_cast h
    rw [hx] at hr
    rw [hq, hq', roundWithAccuracy_congr .positive hr hr' hm hm' (by omega) (by omega)]

/-- One minus a quotient, in the double arithmetic of the C++ source. -/
theorem complement_value {a b : UInt16} (hb : 0 < b.toNat) :
    Tame (UInt16.toFloat 1 - a.toFloat / b.toFloat).toModel.unpack ∧
      |value (UInt16.toFloat 1 - a.toFloat / b.toFloat).toModel.unpack -
        (1 - (a.toNat : ℚ) / b.toNat)| ≤ 2 ^ (-36 : Int) := by
  have hone : (UInt16.toFloat 1).toModel.unpack = .finite .positive (2 ^ 52) (-52) (by norm_num) := by rfl
  have hsub (q : Float) : (UInt16.toFloat 1 - q).toModel.unpack = (Float.Model.pack
      (UnpackedFloat.sub Format.binary64 (UInt16.toFloat 1).toModel.unpack q.toModel.unpack)).unpack := rfl
  by_cases ha : a.toNat = 0
  · have ha' : a = 0 := UInt16.toNat_inj.mp ha
    subst ha'
    rw [quotient_zero hb]
    have h1 : (UInt16.toFloat 1 - Float.ofModel (Float.Model.pack (.zero .positive))).toModel.unpack =
        .finite .positive (2 ^ 52) (-52) (by norm_num) := by rfl
    rw [h1]
    refine ⟨by norm_num [Tame], ?_⟩
    norm_num [value, Sign.apply]
  · obtain ⟨m, e, acc, hq, hr, hm, he, hle⟩ := quotient_rounds (Nat.pos_of_ne_zero ha) hb
    obtain ⟨M, E, hM, heq, h₁, h₂, h₃, h₄, h₅⟩ := roundWithAccuracy_normal .positive hr hm (by omega)
    have hunp : (a.toFloat / b.toFloat).toModel.unpack = .finite .positive M E hM := by
      rw [hq, heq]
      exact unpack_pack_normal _ _ h₁ h₂ (by omega) (by omega)
    rw [hsub, hone, hunp]
    set x : ℚ := (a.toNat : ℚ) / b.toNat with hx
    have hx0 : 0 ≤ x := by positivity
    have hx1 : x ≤ 65535 := by
      have hlt := a.toNat_lt
      have h1 : (a.toNat : ℚ) ≤ 65535 := by exact_mod_cast (by omega : a.toNat ≤ 65535)
      have h2 : (1 : ℚ) ≤ b.toNat := by exact_mod_cast hb
      rw [hx, div_le_iff₀ (by linarith)]
      nlinarith
    have herr : |(M : ℚ) * 2 ^ E - x| ≤ 2 ^ (-37 : Int) :=
      h₅.trans (zpow_le_zpow_right₀ (by norm_num) (by omega))
    have hsum : ((UnpackedFloat.sub Format.binary64 (.finite .positive (2 ^ 52) (-52) (by norm_num))
        (.finite .positive M E hM))) = UnpackedFloat.normalize Format.binary64
          ((Sign.positive.apply (decreaseExponent (2 ^ 52) (-52) (min (-52) E)).1 : Int) -
            Sign.positive.apply (decreaseExponent M E (min (-52) E)).1) (min (-52) E) .positive := rfl
    have hval : (((Sign.positive.apply (decreaseExponent (2 ^ 52) (-52) (min (-52) E)).1 : Int) -
            Sign.positive.apply (decreaseExponent M E (min (-52) E)).1 : Int) : ℚ) * 2 ^ (min (-52) E) =
        1 - M * 2 ^ E := by
      rw [Int.cast_sub, sub_mul, decreaseExponent_value _ _ (min_le_left _ _),
        decreaseExponent_value _ _ (min_le_right _ _)]
      norm_num [Sign.apply]
    rw [hsum]
    have hsm : (2 : ℚ) ^ (-37 : Int) ≤ 1 := by norm_num
    rw [abs_le] at herr
    have hbound := hval ▸ abs_lt.mpr ⟨show -(2 : ℚ) ^ 17 < 1 - M * 2 ^ E by linarith, by linarith⟩
    obtain ⟨ht, hv⟩ := normalize_value (by omega) hbound
    rw [ht.unpack_pack]
    refine ⟨ht, ?_⟩
    rw [hval, abs_le] at hv
    have h36 : (2 : ℚ) ^ (-36 : Int) = 2 ^ (-37 : Int) + 2 ^ (-37 : Int) := by norm_num
    rw [abs_le, h36]
    constructor <;> linarith

theorem complement_lt {a b c d : UInt16} (hb : 0 < b.toNat) (hd : 0 < d.toNat)
    (h : c.toNat * b.toNat < a.toNat * d.toNat) :
    UInt16.toFloat 1 - a.toFloat / b.toFloat < UInt16.toFloat 1 - c.toFloat / d.toFloat := by
  obtain ⟨ht, hv⟩ := complement_value (a := a) hb
  obtain ⟨ht', hv'⟩ := complement_value (a := c) hd
  rw [float_lt_iff]
  apply compare_of_value_lt ht ht'
  rw [abs_le] at hv hv'
  have hb' : (0 : ℚ) < b.toNat := by exact_mod_cast hb
  have hd' : (0 : ℚ) < d.toNat := by exact_mod_cast hd
  have hbd : (b.toNat : ℚ) * d.toNat ≤ 2 ^ (32 : Int) := by
    have h1 : (b.toNat : ℚ) ≤ 2 ^ 16 := by exact_mod_cast b.toNat_lt.le
    have h2 : (d.toNat : ℚ) ≤ 2 ^ 16 := by exact_mod_cast d.toNat_lt.le
    calc (b.toNat : ℚ) * d.toNat ≤ 2 ^ 16 * 2 ^ 16 := by gcongr
      _ = 2 ^ (32 : Int) := by norm_num
  have hgap : (c.toNat : ℚ) / d.toNat + 2 ^ (-32 : Int) ≤ a.toNat / b.toNat := by
    have hone : (c.toNat : ℚ) * b.toNat + 1 ≤ a.toNat * d.toNat := by exact_mod_cast h
    have hstep : (2 : ℚ) ^ (-32 : Int) ≤ 1 / (b.toNat * d.toNat) := by
      rw [zpow_neg, ← one_div]
      exact one_div_le_one_div_of_le (by positivity) hbd
    calc (c.toNat : ℚ) / d.toNat + 2 ^ (-32 : Int) ≤ c.toNat / d.toNat + 1 / (b.toNat * d.toNat) := by
          gcongr
      _ = (c.toNat * b.toNat + 1) / (b.toNat * d.toNat) := by field_simp
      _ ≤ a.toNat * d.toNat / (b.toNat * d.toNat) := by gcongr
      _ = a.toNat / b.toNat := by field_simp
  have hnum : (2 : ℚ) ^ (-36 : Int) + 2 ^ (-36 : Int) < 2 ^ (-32 : Int) := by norm_num
  linarith [hv.2, hv'.1]

theorem complement_eq_iff {a b c d : UInt16} (hb : 0 < b.toNat) (hd : 0 < d.toNat) :
    UInt16.toFloat 1 - a.toFloat / b.toFloat = UInt16.toFloat 1 - c.toFloat / d.toFloat ↔
      a.toNat * d.toNat = c.toNat * b.toNat := by
  constructor
  · intro h
    rcases lt_trichotomy (a.toNat * d.toNat) (c.toNat * b.toNat) with hlt | heq | hlt
    · have hlt' := complement_lt hd hb hlt
      rw [h] at hlt'
      exact absurd hlt' (ReportOrder.lt_irrefl _)
    · exact heq
    · have hlt' := complement_lt hb hd hlt
      rw [h] at hlt'
      exact absurd hlt' (ReportOrder.lt_irrefl _)
  · intro h
    rw [quotient_eq hb hd h]

theorem complement_lt_iff {a b c d : UInt16} (hb : 0 < b.toNat) (hd : 0 < d.toNat) :
    UInt16.toFloat 1 - a.toFloat / b.toFloat < UInt16.toFloat 1 - c.toFloat / d.toFloat ↔
      c.toNat * b.toNat < a.toNat * d.toNat := by
  refine ⟨fun h => ?_, complement_lt hb hd⟩
  rcases lt_trichotomy (c.toNat * b.toNat) (a.toNat * d.toNat) with hlt | heq | hlt
  · exact hlt
  · rw [quotient_eq hb hd heq.symm] at h
    exact absurd h (ReportOrder.lt_irrefl _)
  · have h' := ReportOrder.lt_of_lt_of_le h (ReportOrder.le_of_lt (complement_lt hd hb hlt))
    exact absurd h' (ReportOrder.lt_irrefl _)

theorem complement_mem {a b : UInt16} (hb : 0 < b.toNat) (hab : a.toNat ≤ b.toNat) :
    UInt16.toFloat 0 ≤ UInt16.toFloat 1 - a.toFloat / b.toFloat ∧
      UInt16.toFloat 1 - a.toFloat / b.toFloat ≤ UInt16.toFloat 1 := by
  have hz : UInt16.toFloat 1 - UInt16.toFloat 1 / UInt16.toFloat 1 = UInt16.toFloat 0 := by decide
  have ho : UInt16.toFloat 1 - UInt16.toFloat 0 / UInt16.toFloat 1 = UInt16.toFloat 1 := by decide
  constructor
  · rcases Nat.lt_or_ge a.toNat b.toNat with h | h
    · rw [← hz]
      exact ReportOrder.le_of_lt (complement_lt (by decide) hb (by simpa using h))
    · rw [quotient_eq (c := 1) (d := 1) hb (by decide) (by simp; omega), hz]
      decide
  · rcases Nat.eq_zero_or_pos a.toNat with h | h
    · rw [quotient_eq (c := 0) (d := 1) hb (by decide) (by simp [h]), ho]
      decide
    · conv => rhs; rw [← ho]
      exact ReportOrder.le_of_lt (complement_lt hb (by decide) (by simpa using h))

end Binary64
