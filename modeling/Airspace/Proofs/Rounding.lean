import Airspace.Proofs.Value

/-! # Rounding

  Sums, differences, products and quotients of doubles stand for the exact results, rounded to
  53 digits or to the last place that there is. So a result is off by no more than a part in
  2^52 of it, and the least number that there is. How ties are decided plays no part in that.
-/

open Float.Model Float.Model.UnpackedFloat

namespace Airspace.Double

variable {s : Sign} {m n k r : Nat} {e d t : Int} {accuracy : Accuracy}

/-! ### Digits that are cut off -/

theorem mantissa_shiftRight (x : ExtendedMantissa) (k : Nat) :
    (x >>> k).mantissa = x.mantissa / 2 ^ k := by
  induction k with
  | zero => exact (Nat.div_one _).symm
  | succ k ih =>
    show (x >>> k).mantissa / 2 = _
    rw [ih, Nat.div_div_eq_div_mul, Nat.pow_succ]

theorem mantissa_ofMantissaAndAccuracy (m : Nat) (accuracy : Accuracy) :
    (ExtendedMantissa.ofMantissaAndAccuracy m accuracy).mantissa = m := by
  cases accuracy with
  | exact => rfl
  | inexact o => cases o <;> rfl

/-- Rounding goes down, or up by one. -/
theorem roundedMantissa_bounds (x : ExtendedMantissa) :
    x.mantissa ≤ x.roundedMantissa ∧ x.roundedMantissa ≤ x.mantissa + 1 := by
  obtain ⟨m, roundBit, stickyBit⟩ := x
  cases roundBit <;> cases stickyBit <;>
    simp only [ExtendedMantissa.roundedMantissa, ExtendedMantissa.accuracy,
      Accuracy.roundToNearestEven] <;> omega

/-- The exponent of the last digit that there is room for. -/
def lastPlace (m : Nat) (e : Int) : Int := max (m.log2 + e - 52) (-1074)

theorem targetExponent_eq (m : Nat) (e : Int) :
    Format.binary64.targetExponent (totalExponent m e) = lastPlace m e := by
  show max ((m.log2 : Int) + 1 + e - 53) (-1074) = _
  unfold lastPlace
  congr 1
  omega

/-- Digits are cut off up to the last place. -/
theorem shiftToTargetExponent_eq (m : Nat) (e : Int) (accuracy : Accuracy) :
    ∃ x : ExtendedMantissa, x.mantissa = m / 2 ^ (lastPlace m e - e).toNat ∧
      shiftToTargetExponent Format.binary64 m e accuracy =
        (x, e + (lastPlace m e - e).toNat) := by
  unfold shiftToTargetExponent
  rw [targetExponent_eq]
  refine ⟨_, ?_, rfl⟩
  rw [mantissa_shiftRight, mantissa_ofMantissaAndAccuracy]

/-- With the digits that are left it is so far to the last place. -/
theorem shifted_lt (m : Nat) (e : Int) : m / 2 ^ (lastPlace m e - e).toNat < 2 ^ 53 := by
  have hplace : m.log2 + 1 ≤ 53 + (lastPlace m e - e).toNat := by
    unfold lastPlace
    omega
  rw [Nat.div_lt_iff_lt_mul (by positivity), ← Nat.pow_add]
  exact Nat.lt_of_lt_of_le Nat.lt_log2_self (Nat.pow_le_pow_right two_pos hplace)

/-- Only at the least exponent there may be fewer digits than there is room for. -/
theorem le_shifted (hplace : e ≤ lastPlace m e) :
    2 ^ 52 ≤ m / 2 ^ (lastPlace m e - e).toNat ∨ lastPlace m e = -1074 := by
  by_cases hleast : lastPlace m e = -1074
  · exact .inr hleast
  · left
    have hlog : m.log2 = 52 + (lastPlace m e - e).toNat := by
      unfold lastPlace at *
      omega
    have hm : m ≠ 0 := by
      intro hzero
      rw [hzero, Nat.log2_zero] at hlog
      omega
    rw [Nat.le_div_iff_mul_le (by positivity), ← Nat.pow_add, ← hlog]
    exact Nat.log2_self_le hm

/-! ### Rounded numbers -/

theorem number_zero (s : Sign) (t : Int) : number s 0 t = 0 := by
  cases s <;> simp [number, Sign.apply]

/-- A digit more and an exponent less are the same number. -/
theorem number_double (s : Sign) (r : Nat) (t : Int) : number s (2 * r) t = number s r (t + 1) := by
  have hpower : (2 : ℝ) ^ (t + 1) = 2 ^ t * 2 := zpow_add_one₀ two_ne_zero t
  cases s
  · rw [number_negative, number_negative, hpower]
    push_cast
    ring
  · rw [number_positive, number_positive, hpower]
    push_cast
    ring

/-- A rounded number is put into a double as it is, and if a carry has made it too long, with
    one digit less. -/
theorem worth_pack_shifted (s : Sign) (hr : r ≤ 2 ^ 53) (hfull : 2 ^ 52 ≤ r ∨ t = -1074)
    (hlower : -1074 ≤ t) (hupper : t ≤ 970) {y : ExtendedMantissa}
    (hy : y.mantissa = r / 2 ^ (lastPlace r t - t).toNat) :
    worth? (Float.Model.pack (if h : y.mantissa = 0 then .zero s
      else .finite s y.mantissa (t + (lastPlace r t - t).toNat) (Nat.pos_of_ne_zero h))).unpack =
        some (number s r t) := by
  rcases Nat.lt_or_eq_of_le hr with hshort | hcarry
  · have hlog : r.log2 ≤ 52 := by
      by_cases hzero : r = 0
      · rw [hzero, Nat.log2_zero]
        omega
      · exact Nat.lt_succ_iff.mp ((Nat.log2_lt hzero).mpr hshort)
    have hstay : (lastPlace r t - t).toNat = 0 := by
      unfold lastPlace
      omega
    rw [hstay, pow_zero, Nat.div_one] at hy
    by_cases hzero : r = 0
    · rw [dif_pos (hy.trans hzero), hzero, number_zero, Alike.unpack_pack_zero]
      rfl
    · have hfits : Fits r t := ⟨hshort, hlower, by omega, hfull⟩
      simp only [hy, hstay, dif_neg hzero, Int.ofNat_zero, add_zero]
      rw [unpack_pack hfits]
      rfl
  · have hstep : (lastPlace r t - t).toNat = 1 := by
      unfold lastPlace
      rw [hcarry, Nat.log2_two_pow]
      omega
    have hdigits : y.mantissa = 2 ^ 52 := by
      rw [hy, hstep, hcarry]
      rfl
    have hfits : Fits (2 ^ 52) (t + 1) := ⟨by decide, by omega, by omega, .inl (Nat.le_refl _)⟩
    simp only [hdigits, hstep, dif_neg (show ¬ 2 ^ 52 = 0 by decide), Int.ofNat_one]
    rw [unpack_pack hfits, hcarry]
    exact congrArg (fun x : ℝ => some (x : EReal)) (number_double s (2 ^ 52) t).symm

/-- Rounding goes to the last place, up or down. -/
theorem worth_roundWithAccuracy (s : Sign) (accuracy : Accuracy) (hplace : e ≤ lastPlace m e)
    (hupper : lastPlace m e ≤ 970) :
    ∃ r, m / 2 ^ (lastPlace m e - e).toNat ≤ r ∧ r ≤ m / 2 ^ (lastPlace m e - e).toNat + 1 ∧
      worth? (Float.Model.pack (roundWithAccuracy Format.binary64 s m e accuracy)).unpack =
        some (number s r (lastPlace m e)) := by
  obtain ⟨x, hx, hfirst⟩ := shiftToTargetExponent_eq m e accuracy
  have hplace' : e + ((lastPlace m e - e).toNat : Int) = lastPlace m e := by omega
  rw [hplace'] at hfirst
  obtain ⟨hdown, hup⟩ := roundedMantissa_bounds x
  obtain ⟨y, hy, hsecond⟩ := shiftToTargetExponent_eq x.roundedMantissa (lastPlace m e) .exact
  rw [hx] at hdown hup
  refine ⟨x.roundedMantissa, hdown, hup, ?_⟩
  have hlength := shifted_lt m e
  have hleast : -1074 ≤ lastPlace m e := by
    unfold lastPlace
    omega
  unfold roundWithAccuracy
  simp only [hfirst, hsecond]
  refine worth_pack_shifted s (by omega) ?_ hleast hupper hy
  rcases le_shifted hplace with hfull | hleast
  · exact .inl (Nat.le_trans hfull hdown)
  · exact .inr hleast

/-! ### Errors -/

/-- A number with a sign. -/
def signed : Sign → ℝ → ℝ
  | .negative, x => -x
  | .positive, x => x

theorem number_eq_signed (s : Sign) (m : Nat) (e : Int) : number s m e = signed s (m * 2 ^ e) := by
  cases s
  · exact number_negative m e
  · exact number_positive m e

theorem abs_signed_sub (s : Sign) (x y : ℝ) : |signed s x - signed s y| = |x - y| := by
  cases s
  · show |-x - -y| = _
    rw [← abs_neg]
    congr 1
    ring
  · rfl

theorem abs_signed (s : Sign) (x : ℝ) : |signed s x| = |x| := by
  cases s
  · exact abs_neg x
  · rfl

/-- At another place than the least one there are digits. -/
theorem of_lastPlace_ne (hplace : e ≤ lastPlace m e) (h : lastPlace m e ≠ -1074) :
    lastPlace m e = m.log2 + e - 52 ∧ m ≠ 0 := by
  unfold lastPlace at *
  refine ⟨by omega, ?_⟩
  rintro rfl
  rw [Nat.log2_zero] at *
  omega

theorem two_pow_log2_le {X : ℝ} (hm : (m : ℝ) ≤ X) (hne : m ≠ 0) : (2 : ℝ) ^ m.log2 ≤ X := by
  refine le_trans ?_ hm
  exact_mod_cast Nat.log2_self_le hne

/-- The last place is at most a part in 2^52 of the number. -/
theorem power_lastPlace_le {X : ℝ} (hm : (m : ℝ) ≤ X) (hplace : e ≤ lastPlace m e) :
    (2 : ℝ) ^ lastPlace m e ≤ X * 2 ^ e / 2 ^ 52 + least := by
  have hX : 0 ≤ X := le_trans (Nat.cast_nonneg m) hm
  by_cases h : lastPlace m e = -1074
  · -- at the least place nothing is left of the relative bound
    have hterm : 0 ≤ X * 2 ^ e / 2 ^ 52 := by positivity
    rw [h]
    exact le_add_of_nonneg_left hterm
  · obtain ⟨hlog, hne⟩ := of_lastPlace_ne hplace h
    have hpower : (2 : ℝ) ^ lastPlace m e = 2 ^ m.log2 * 2 ^ e / 2 ^ 52 := by
      rw [hlog, zpow_sub₀ two_ne_zero, zpow_add₀ two_ne_zero]
      rfl
    have hle : (2 : ℝ) ^ m.log2 * 2 ^ e / 2 ^ 52 ≤ X * 2 ^ e / 2 ^ 52 := by
      gcongr
      exact two_pow_log2_le hm hne
    rw [hpower]
    exact le_add_of_le_of_nonneg hle least_pos.le

/-- There is room for the last place of a number that is not too large. -/
theorem lastPlace_le {X : ℝ} (hm : (m : ℝ) ≤ X) (hplace : e ≤ lastPlace m e)
    (hsmall : X * 2 ^ e ≤ largest) : lastPlace m e ≤ 970 := by
  by_cases h : lastPlace m e = -1074
  · omega
  · obtain ⟨hlog, hne⟩ := of_lastPlace_ne hplace h
    have hpower : (2 : ℝ) ^ ((m.log2 : Int) + e) ≤ 2 ^ (1000 : Int) := by
      rw [zpow_add₀ two_ne_zero, zpow_natCast]
      refine le_trans ?_ hsmall
      gcongr
      exact two_pow_log2_le hm hne
    have hsum := (zpow_le_zpow_iff_right₀ one_lt_two).mp hpower
    omega

/-- A number whose digits before the point are known is rounded from these. -/
theorem near_roundWithAccuracy (s : Sign) (accuracy : Accuracy) {X : ℝ} (hdown : (m : ℝ) ≤ X)
    (hup : X ≤ m + 1) (hplace : e ≤ lastPlace m e) (hsmall : X * 2 ^ e ≤ largest) :
    ∃ v : ℝ,
      worth? (Float.Model.pack (roundWithAccuracy Format.binary64 s m e accuracy)).unpack = some v ∧
        Near (signed s (X * 2 ^ e)) v := by
  obtain ⟨r, hr, hr', hworth⟩ :=
    worth_roundWithAccuracy s accuracy hplace (lastPlace_le hdown hplace hsmall)
  refine ⟨_, hworth, ?_⟩
  have hX : 0 ≤ X := le_trans (Nat.cast_nonneg m) hdown
  have hplaces : (2 : ℝ) ^ lastPlace m e = 2 ^ e * 2 ^ (lastPlace m e - e).toNat := by
    rw [← zpow_natCast, ← zpow_add₀ two_ne_zero]
    congr 1
    omega
  generalize hk : (lastPlace m e - e).toNat = k at *
  -- before the cut there is a whole number of steps, and it is one of the two next to `X`
  have hfloor : m / 2 ^ k * 2 ^ k ≤ m := Nat.div_mul_le_self m _
  have hceiling : m + 1 ≤ (m / 2 ^ k + 1) * 2 ^ k := by
    have hmod := Nat.mod_lt m (Nat.two_pow_pos k)
    have hsplit := Nat.div_add_mod m (2 ^ k)
    rw [Nat.add_mul, Nat.one_mul, Nat.mul_comm (m / 2 ^ k)]
    omega
  have hfloor' : ((m / 2 ^ k : Nat) : ℝ) * 2 ^ k ≤ m := by exact_mod_cast hfloor
  have hceiling' : (m : ℝ) + 1 ≤ ((m / 2 ^ k : Nat) + 1) * 2 ^ k := by exact_mod_cast hceiling
  have hrdown : ((m / 2 ^ k : Nat) : ℝ) ≤ r := by exact_mod_cast hr
  have hrup : (r : ℝ) ≤ (m / 2 ^ k : Nat) + 1 := by exact_mod_cast hr'
  have hstep : |(r : ℝ) * 2 ^ k - X| ≤ 2 ^ k := by
    have hpos : (0 : ℝ) < 2 ^ k := by positivity
    rw [abs_le]
    constructor <;> nlinarith
  have herror : |(r : ℝ) * 2 ^ lastPlace m e - X * 2 ^ e| ≤ 2 ^ lastPlace m e := by
    have hfactor : (r : ℝ) * 2 ^ lastPlace m e - X * 2 ^ e = (r * 2 ^ k - X) * 2 ^ e := by
      rw [hplaces]
      ring
    have hpos : (0 : ℝ) < 2 ^ e := by positivity
    rw [hfactor, abs_mul, abs_of_pos hpos, hplaces, mul_comm (2 ^ e : ℝ)]
    gcongr
  have hvalue : 0 ≤ X * 2 ^ e := by positivity
  unfold Near
  rw [number_eq_signed, abs_signed_sub, abs_signed, abs_of_nonneg hvalue]
  exact le_trans herror (power_lastPlace_le hdown hplace)

/-! ### Exact results -/

theorem signed_mul (s u : Sign) (x y : ℝ) : signed s x * signed u y = signed (s * u) (x * y) := by
  cases s <;> cases u
  · show -x * -y = x * y
    ring
  · show -x * y = -(x * y)
    ring
  · show x * -y = -(x * y)
    ring
  · rfl

theorem signed_div (s u : Sign) (x y : ℝ) : signed s x / signed u y = signed (s / u) (x / y) := by
  cases s <;> cases u
  · exact neg_div_neg_eq x y
  · exact neg_div y x
  · exact div_neg x
  · rfl

/-- With more digits and a smaller exponent the number is the same. -/
theorem shiftLeft_mul (m k : Nat) (e : Int) :
    ((m <<< k : Nat) : ℝ) * 2 ^ (e - k) = m * 2 ^ e := by
  rw [Nat.shiftLeft_eq, zpow_sub₀ two_ne_zero, zpow_natCast]
  push_cast
  field_simp

theorem log2_shiftLeft (hm : 0 < m) (k : Nat) : (m <<< k).log2 = m.log2 + k := by
  have hdown := Nat.log2_self_le (Nat.ne_of_gt hm)
  have hup := @Nat.lt_log2_self m
  rw [Nat.shiftLeft_eq, Nat.log2_eq_iff (by positivity), Nat.pow_add, Nat.add_right_comm,
    Nat.pow_add (m := m.log2 + 1)]
  have hpos := Nat.two_pow_pos k
  exact ⟨Nat.mul_le_mul_right _ hdown, Nat.mul_lt_mul_of_pos_right hup hpos⟩

/-- A whole number times a power of two is rounded. -/
theorem near_round (s : Sign) (hm : 0 < m) (hsmall : (m : ℝ) * 2 ^ e ≤ largest) :
    ∃ v : ℝ, worth? (Float.Model.pack (UnpackedFloat.round Format.binary64 s m e)).unpack = some v ∧
      Near (signed s (m * 2 ^ e)) v := by
  have hsame : lastPlace (m <<< (e - lastPlace m e).toNat) (e - (e - lastPlace m e).toNat) =
      lastPlace m e := by
    have hlog := log2_shiftLeft hm (e - lastPlace m e).toNat
    conv_lhs => rw [lastPlace, hlog]
    conv_rhs => rw [lastPlace]
    congr 1
    omega
  have hvalue := shiftLeft_mul m (e - lastPlace m e).toNat e
  have hround := near_roundWithAccuracy s .exact (le_refl _)
    (le_add_of_nonneg_right zero_le_one) (by rw [hsame]; omega) (by rw [hvalue]; exact hsmall)
  rw [hvalue] at hround
  unfold UnpackedFloat.round
  rw [targetExponent_eq]
  exact hround

/-- A whole number with a sign. -/
theorem near_normalize (k e : Int) (zeroSign : Sign) (hsmall : |(k : ℝ) * 2 ^ e| ≤ largest) :
    ∃ v : ℝ,
      worth? (Float.Model.pack (UnpackedFloat.normalize Format.binary64 k e zeroSign)).unpack = some v ∧
        Near (k * 2 ^ e) v := by
  unfold UnpackedFloat.normalize
  rcases lt_trichotomy k 0 with hneg | rfl | hpos
  · have hdigits : (((-k).toNat : Nat) : ℝ) = -k := by
      have hcast : (((-k).toNat : Nat) : Int) = -k := Int.toNat_of_nonneg (by omega)
      exact_mod_cast hcast
    have hvalue : signed .negative (((-k).toNat : Nat) * 2 ^ e) = (k : ℝ) * 2 ^ e := by
      rw [hdigits]
      show -(-(k : ℝ) * 2 ^ e) = _
      ring
    have hround := near_round (m := (-k).toNat) (e := e) .negative (by omega)
      (le_trans (by rw [hdigits, neg_mul]; exact neg_le_abs _) hsmall)
    rw [hvalue] at hround
    rw [compare_lt_iff_lt.mpr hneg]
    exact hround
  · refine ⟨0, ?_, ?_⟩
    · rw [compare_eq_iff_eq.mpr rfl, Alike.unpack_pack_zero]
      rfl
    · rw [Int.cast_zero, zero_mul]
      exact .refl 0
  · have hdigits : ((k.toNat : Nat) : ℝ) = k := by
      have hcast : ((k.toNat : Nat) : Int) = k := Int.toNat_of_nonneg hpos.le
      exact_mod_cast hcast
    have hvalue : signed .positive ((k.toNat : Nat) * 2 ^ e) = (k : ℝ) * 2 ^ e := by
      rw [hdigits]
      rfl
    have hround := near_round (m := k.toNat) (e := e) .positive (by omega)
      (le_trans (le_abs_self _) (by rw [hdigits]; exact hsmall))
    rw [hvalue] at hround
    rw [compare_gt_iff_gt.mpr hpos]
    exact hround

/-! ### Operations -/

/-- What stands for a real number is a zero, or has digits that fit. -/
theorem of_worth {x : Float.Model} {r : ℝ} (h : worth? x.unpack = some r) :
    (∃ s, x.unpack = .zero s ∧ r = 0) ∨
      ∃ s m e hm, x.unpack = .finite s m e hm ∧ r = number s m e ∧ Fits m e := by
  cases hx : x.unpack with
  | notANumber =>
    rw [hx] at h
    cases h
  | infinity s =>
    rw [hx] at h
    cases s
    · exact absurd (Option.some.inj h) (EReal.bot_ne_coe r)
    · exact absurd (Option.some.inj h) (EReal.top_ne_coe r)
  | zero s =>
    rw [hx] at h
    exact .inl ⟨s, rfl, (EReal.coe_injective (Option.some.inj h)).symm⟩
  | finite s m e hm =>
    rw [hx] at h
    exact .inr ⟨s, m, e, hm, rfl, (EReal.coe_injective (Option.some.inj h)).symm,
      fits_of_unpack hx⟩

/-- Digits brought to a smaller exponent. -/
theorem decreaseExponent_mul (s : Sign) (m : Nat) (h : d ≤ e) :
    ((s.apply (decreaseExponent m e d).1 : Int) : ℝ) * 2 ^ d = number s m e := by
  have hvalue := shiftLeft_mul m (e - d).toNat e
  have hexp : e - ((e - d).toNat : Int) = d := by omega
  rw [hexp] at hvalue
  rw [number_eq_signed, ← hvalue]
  unfold decreaseExponent
  cases s
  · show ((-((m <<< (e - d).toNat : Nat) : Int) : Int) : ℝ) * 2 ^ d = -_
    rw [Int.cast_neg, Int.cast_natCast, neg_mul]
  · rfl

/-- What fits is kept without rounding. -/
theorem worth_pack (h : Fits m e) (s : Sign) (hm : 0 < m) :
    worth? (Float.Model.pack (.finite s m e hm)).unpack = some (number s m e) := by
  rw [unpack_pack h]
  rfl

variable {x y : Float} {a b : ℝ}

/-- A sum is rounded. -/
theorem Stands.add (hx : Stands x a) (hy : Stands y b) (hsmall : |a + b| ≤ largest) :
    ∃ v, Stands (x + y) v ∧ Near (a + b) v := by
  show ∃ v : ℝ, worth? (Float.Model.pack (UnpackedFloat.add Format.binary64 x.toModel.unpack
    y.toModel.unpack)).unpack = some v ∧ _
  rcases of_worth hx with ⟨s, hxu, rfl⟩ | ⟨s, m, e, hm, hxu, rfl, hfits⟩ <;>
    rcases of_worth hy with ⟨u, hyu, rfl⟩ | ⟨u, n, d, hn, hyu, rfl, hfits'⟩ <;>
    rw [hxu, hyu]
  · refine ⟨0, ?_, ?_⟩
    · cases s <;> cases u <;> rfl
    · rw [add_zero]
      exact .refl 0
  · -- with a zero the other number comes back as it is
    rw [zero_add]
    exact ⟨_, worth_pack hfits' u hn, .refl _⟩
  · rw [add_zero]
    exact ⟨_, worth_pack hfits s hm, .refl _⟩
  · -- two numbers are brought to the smaller exponent, and their digits added
    have hsum : number s m e + number u n d =
        ((s.apply (decreaseExponent m e (min e d)).1 + u.apply (decreaseExponent n d (min e d)).1 :
          Int) : ℝ) * 2 ^ min e d := by
      rw [← decreaseExponent_mul s m (min_le_left e d),
        ← decreaseExponent_mul u n (min_le_right e d), Int.cast_add, add_mul]
    rw [hsum] at hsmall ⊢
    exact near_normalize _ _ .positive hsmall

theorem number_neg_sign (s : Sign) (m : Nat) (e : Int) : number (-s) m e = -number s m e := by
  cases s
  · show number .positive m e = -number .negative m e
    rw [number_positive, number_negative, neg_neg]
  · show number .negative m e = -number .positive m e
    rw [number_positive, number_negative]

/-- A difference is rounded. -/
theorem Stands.sub (hx : Stands x a) (hy : Stands y b) (hsmall : |a - b| ≤ largest) :
    ∃ v, Stands (x - y) v ∧ Near (a - b) v := by
  show ∃ v : ℝ, worth? (Float.Model.pack (UnpackedFloat.sub Format.binary64 x.toModel.unpack
    y.toModel.unpack)).unpack = some v ∧ _
  rcases of_worth hx with ⟨s, hxu, rfl⟩ | ⟨s, m, e, hm, hxu, rfl, hfits⟩ <;>
    rcases of_worth hy with ⟨u, hyu, rfl⟩ | ⟨u, n, d, hn, hyu, rfl, hfits'⟩ <;>
    rw [hxu, hyu]
  · refine ⟨0, ?_, ?_⟩
    · cases s <;> cases u <;> rfl
    · rw [sub_zero]
      exact .refl 0
  · rw [zero_sub, ← number_neg_sign]
    exact ⟨_, worth_pack hfits' (-u) hn, .refl _⟩
  · rw [sub_zero]
    exact ⟨_, worth_pack hfits s hm, .refl _⟩
  · -- a difference does not go through the sum, so the digits are brought together once more
    have hdifference : number s m e - number u n d =
        ((s.apply (decreaseExponent m e (min e d)).1 - u.apply (decreaseExponent n d (min e d)).1 :
          Int) : ℝ) * 2 ^ min e d := by
      rw [← decreaseExponent_mul s m (min_le_left e d),
        ← decreaseExponent_mul u n (min_le_right e d), Int.cast_sub, sub_mul]
    rw [hdifference] at hsmall ⊢
    exact near_normalize _ _ .positive hsmall

/-- The digits of a product reach to the last place. -/
theorem le_lastPlace_mul (h : Fits m e) (h' : Fits n d) (hm : 0 < m) (hn : 0 < n) :
    e + d ≤ lastPlace (m * n) (e + d) := by
  have hlong : 2 ^ 52 ≤ m * n → 52 ≤ (m * n).log2 := fun hle =>
    (Nat.le_log2 (Nat.mul_ne_zero (Nat.ne_of_gt hm) (Nat.ne_of_gt hn))).mpr hle
  unfold lastPlace
  rcases h.full with hfull | hleast
  · have hlog := hlong (le_trans hfull (Nat.le_mul_of_pos_right m hn))
    omega
  · rcases h'.full with hfull | hleast'
    · have hlog := hlong (le_trans hfull (Nat.le_mul_of_pos_left n hm))
      omega
    · omega

/-- A product is rounded. -/
theorem Stands.mul (hx : Stands x a) (hy : Stands y b) (hsmall : |a * b| ≤ largest) :
    ∃ v, Stands (x * y) v ∧ Near (a * b) v := by
  show ∃ v : ℝ, worth? (Float.Model.pack (UnpackedFloat.mul Format.binary64 x.toModel.unpack
    y.toModel.unpack)).unpack = some v ∧ _
  rcases of_worth hx with ⟨s, hxu, rfl⟩ | ⟨s, m, e, hm, hxu, rfl, hfits⟩ <;>
    rcases of_worth hy with ⟨u, hyu, rfl⟩ | ⟨u, n, d, hn, hyu, rfl, hfits'⟩ <;>
    rw [hxu, hyu]
  · rw [mul_zero]
    exact ⟨0, congrArg worth? (Alike.unpack_pack_zero (s * u)), .refl 0⟩
  · rw [zero_mul]
    exact ⟨0, congrArg worth? (Alike.unpack_pack_zero (s * u)), .refl 0⟩
  · rw [mul_zero]
    exact ⟨0, congrArg worth? (Alike.unpack_pack_zero (s * u)), .refl 0⟩
  · have hproduct : number s m e * number u n d = signed (s * u) ((m * n : Nat) * 2 ^ (e + d)) := by
      rw [number_eq_signed, number_eq_signed, signed_mul, zpow_add₀ two_ne_zero, Nat.cast_mul]
      congr 1
      ring
    rw [hproduct, abs_signed] at hsmall
    rw [hproduct]
    exact near_roundWithAccuracy (s * u) .exact (le_refl _) (le_add_of_nonneg_right zero_le_one)
      (le_lastPlace_mul hfits hfits' hm hn) (le_trans (le_abs_self _) hsmall)

/-! ### Quotients -/

/-- A quotient is computed with as many digits as reach to the last place. -/
theorem divCore_eq (m : Nat) (e : Int) (n : Nat) (d : Int) (hm : 0 < m) (hn : 0 < n) :
    ∃ M E accuracy, divCore Format.binary64 m e n d = (M / n, E, accuracy) ∧
      (M : ℝ) / n * 2 ^ E = m * 2 ^ e / (n * 2 ^ d) ∧ E ≤ lastPlace (M / n) E := by
  set E : Int := min (e - d) (max (m.log2 + 1 + e - (n.log2 + 1 + d) - 53) (-1074)) with hE
  set k := (e - d - E).toNat with hk
  have hshift : (e - d) - (k : Int) = E := by omega
  refine ⟨m <<< k, E, accuracyOfFraction ((m <<< k) % n) n, rfl, ?_, ?_⟩
  · have hvalue := shiftLeft_mul m k (e - d)
    rw [hshift, zpow_sub₀ two_ne_zero] at hvalue
    rw [div_mul_eq_mul_div, hvalue]
    field_simp
  · by_cases hleast : E ≤ -1074
    · unfold lastPlace
      omega
    · -- above the least exponent the quotient has 53 digits
      have hroom : n.log2 + 1 + 52 ≤ m.log2 + k := by omega
      have hmdown := Nat.log2_self_le (Nat.ne_of_gt hm)
      have hnup := @Nat.lt_log2_self n
      have hlong : 2 ^ 52 ≤ (m <<< k) / n := by
        rw [Nat.le_div_iff_mul_le hn, Nat.shiftLeft_eq]
        calc 2 ^ 52 * n ≤ 2 ^ 52 * 2 ^ (n.log2 + 1) := Nat.mul_le_mul_left _ hnup.le
          _ = 2 ^ (n.log2 + 1 + 52) := by rw [← Nat.pow_add, Nat.add_comm]
          _ ≤ 2 ^ (m.log2 + k) := Nat.pow_le_pow_right two_pos hroom
          _ = 2 ^ m.log2 * 2 ^ k := Nat.pow_add _ _ _
          _ ≤ m * 2 ^ k := Nat.mul_le_mul_right _ hmdown
      have hlog := (Nat.le_log2 (by omega)).mpr hlong
      unfold lastPlace
      omega

/-- A quotient is rounded. -/
theorem Stands.div (hx : Stands x a) (hy : Stands y b) (hb : b ≠ 0) (hsmall : |a / b| ≤ largest) :
    ∃ v, Stands (x / y) v ∧ Near (a / b) v := by
  show ∃ v : ℝ, worth? (Float.Model.pack (UnpackedFloat.div Format.binary64 x.toModel.unpack
    y.toModel.unpack)).unpack = some v ∧ _
  rcases of_worth hy with ⟨u, hyu, rfl⟩ | ⟨u, n, d, hn, hyu, rfl, hfits'⟩
  · exact absurd rfl hb
  · rcases of_worth hx with ⟨s, hxu, rfl⟩ | ⟨s, m, e, hm, hxu, rfl, hfits⟩ <;> rw [hxu, hyu]
    · rw [zero_div]
      exact ⟨0, congrArg worth? (Alike.unpack_pack_zero (s / u)), .refl 0⟩
    · obtain ⟨M, E, accuracy, hcore, hvalue, hplace⟩ := divCore_eq m e n d hm hn
      have hquotient : number s m e / number u n d = signed (s / u) ((M : ℝ) / n * 2 ^ E) := by
        rw [number_eq_signed, number_eq_signed, signed_div, hvalue]
      rw [hquotient, abs_signed] at hsmall
      -- the remainder is dropped, and rounding only knows that there is one
      have hdown : ((M / n : Nat) : ℝ) ≤ (M : ℝ) / n := Nat.cast_div_le
      have hup : (M : ℝ) / n ≤ ((M / n : Nat) : ℝ) + 1 := by
        have hpos : (0 : ℝ) < n := by exact_mod_cast hn
        rw [div_le_iff₀ hpos]
        have hnat : M ≤ (M / n + 1) * n := by
          have hsplit := Nat.div_add_mod M n
          have hmod := Nat.mod_lt M hn
          rw [Nat.add_mul, Nat.one_mul, Nat.mul_comm (M / n)]
          omega
        exact_mod_cast hnat
      rw [hquotient]
      show ∃ v : ℝ, worth? (Float.Model.pack (match divCore Format.binary64 m e n d with
        | (q, E, accuracy) => roundWithAccuracy Format.binary64 (s / u) q E accuracy)).unpack =
          some v ∧ _
      rw [hcore]
      exact near_roundWithAccuracy (s / u) accuracy hdown hup hplace
        (le_trans (le_abs_self _) hsmall)

/-! ### Several operations -/

/-- A double stands for a number that is off by at most `δ`. -/
def Within (x : Float) (a δ : ℝ) : Prop := ∃ v, Stands x v ∧ |v - a| ≤ δ

variable {δ ε M : ℝ}

theorem Stands.within (hx : Stands x a) : Within x a 0 :=
  ⟨a, hx, by rw [sub_self, abs_zero]⟩

/-- Rounding of a number of moderate size. -/
theorem Near.le (h : Near a b) (ha : |a| ≤ M) (hM : 1 ≤ M) : |b - a| ≤ M / 2 ^ 51 := by
  have hleast := least_le
  unfold Near at h
  have hpart : |a| / 2 ^ 52 ≤ M / 2 ^ 52 := by gcongr
  have hone : 1 / 2 ^ 52 ≤ M / 2 ^ 52 := by gcongr
  have htwice : M / 2 ^ 51 = M / 2 ^ 52 + M / 2 ^ 52 := by ring
  linarith

theorem le_largest (h : |a| ≤ M) (hM : M ≤ 2 ^ 100) : |a| ≤ largest := by
  have hpower : (2 : ℝ) ^ (100 : Int) ≤ 2 ^ (1000 : Int) :=
    zpow_le_zpow_right₀ one_le_two (by decide)
  exact le_trans (le_trans h hM) hpower

/-- One more operation adds its own error to those of the operands. -/
theorem Within.of_near {z : Float} {c : ℝ}
    (hz : |c| ≤ largest → ∃ v, Stands z v ∧ Near c v) (hc : |c| ≤ M) (hone : 1 ≤ M)
    (hM : M ≤ 2 ^ 100) (hoff : |c - a| ≤ δ) : Within z a (δ + M / 2 ^ 51) := by
  obtain ⟨v, hv, hnear⟩ := hz (le_largest hc hM)
  have hround := hnear.le hc hone
  have hsplit := abs_add_le (v - c) (c - a)
  rw [sub_add_sub_cancel] at hsplit
  exact ⟨v, hv, by linarith⟩

theorem abs_le_of_off {v : ℝ} (h : |v - a| ≤ δ) : |v| ≤ |a| + δ := by
  have hdifference := abs_sub_abs_le_abs_sub v a
  linarith

theorem Within.add (hx : Within x a δ) (hy : Within y b ε) (hM : |a| + δ + (|b| + ε) ≤ M)
    (hone : 1 ≤ M) (hM' : M ≤ 2 ^ 100) : Within (x + y) (a + b) (δ + ε + M / 2 ^ 51) := by
  obtain ⟨v, hv, hδ⟩ := hx
  obtain ⟨w, hw, hε⟩ := hy
  have hsize : |v + w| ≤ M :=
    le_trans (le_trans (abs_add_le v w) (add_le_add (abs_le_of_off hδ) (abs_le_of_off hε))) hM
  have hoff : |v + w - (a + b)| ≤ δ + ε := by
    rw [add_sub_add_comm]
    exact le_trans (abs_add_le _ _) (add_le_add hδ hε)
  exact .of_near (hv.add hw) hsize hone hM' hoff

theorem Within.sub (hx : Within x a δ) (hy : Within y b ε) (hM : |a| + δ + (|b| + ε) ≤ M)
    (hone : 1 ≤ M) (hM' : M ≤ 2 ^ 100) : Within (x - y) (a - b) (δ + ε + M / 2 ^ 51) := by
  obtain ⟨v, hv, hδ⟩ := hx
  obtain ⟨w, hw, hε⟩ := hy
  have hsize : |v - w| ≤ M :=
    le_trans (le_trans (abs_sub v w) (add_le_add (abs_le_of_off hδ) (abs_le_of_off hε))) hM
  have hoff : |v - w - (a - b)| ≤ δ + ε := by
    rw [sub_sub_sub_comm]
    exact le_trans (abs_sub _ _) (add_le_add hδ hε)
  exact .of_near (hv.sub hw) hsize hone hM' hoff

theorem Within.mul (hx : Within x a δ) (hy : Within y b ε) (hM : (|a| + δ) * (|b| + ε) ≤ M)
    (hone : 1 ≤ M) (hM' : M ≤ 2 ^ 100) :
    Within (x * y) (a * b) (δ * (|b| + ε) + |a| * ε + M / 2 ^ 51) := by
  obtain ⟨v, hv, hδ⟩ := hx
  obtain ⟨w, hw, hε⟩ := hy
  have hv' := abs_le_of_off hδ
  have hw' := abs_le_of_off hε
  have hsize : |v * w| ≤ M := by
    rw [abs_mul]
    exact le_trans (mul_le_mul hv' hw' (abs_nonneg w) (le_trans (abs_nonneg v) hv')) hM
  have hoff : |v * w - a * b| ≤ δ * (|b| + ε) + |a| * ε := by
    have hsplit : v * w - a * b = (v - a) * w + a * (w - b) := by ring
    rw [hsplit]
    refine le_trans (abs_add_le _ _) (add_le_add ?_ ?_)
    · rw [abs_mul]
      exact mul_le_mul hδ hw' (abs_nonneg w) (le_trans (abs_nonneg _) hδ)
    · rw [abs_mul]
      exact mul_le_mul_of_nonneg_left hε (abs_nonneg a)
  exact .of_near (hv.mul hw) hsize hone hM' hoff

theorem Within.mono (hx : Within x a δ) (h : δ ≤ ε) : Within x a ε := by
  obtain ⟨v, hv, hδ⟩ := hx
  exact ⟨v, hv, le_trans hδ h⟩

end Airspace.Double
