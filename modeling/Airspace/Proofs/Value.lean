import Airspace.Proofs.Double
import Mathlib

/-! # The values of doubles

  A double that is not an infinity and not not-a-number stands for a real number, its digits
  times a power of two. The digits are as many as fit, which is what makes the order of doubles,
  first by exponent and then by digits, the order of their values.
-/

open Float.Model Float.Model.UnpackedFloat

namespace Airspace.Double

/-! ### Digits that fit -/

/-- Digits and an exponent that a double can hold as they are: no more digits than there is
    room for, and no fewer unless the exponent is the least. -/
structure Fits (m : Nat) (e : Int) : Prop where
  lt : m < 2 ^ 53
  lower : -1074 ≤ e
  upper : e ≤ 971
  full : 2 ^ 52 ≤ m ∨ e = -1074

variable {s t : Sign} {m n : Nat} {e d : Int}

/-- The leading digit of a number that is not among the least is left out. -/
theorem toNat_one_append {w : Nat} (v : BitVec w) : (1#1 ++ v).toNat = 2 ^ w + v.toNat := by
  rw [BitVec.toNat_append, ← Nat.shiftLeft_add_eq_or_of_lt v.isLt, Nat.shiftLeft_eq]
  simp

/-- What is read from a double fits. -/
theorem fits_of_unpack {x : Float.Model} {hm : 0 < m} (h : x.unpack = .finite s m e hm) :
    Fits m e := by
  have hdigits := (@unpackMantissa Format.binary64 x.toBits.toBitVec).isLt
  have hexponent := (@unpackExponent Format.binary64 x.toBits.toBitVec).isLt
  change _ < 2 ^ 52 at hdigits
  change _ < 2 ^ 11 at hexponent
  unfold Float.Model.unpack UnpackedFloat.unpack at h
  dsimp only at h
  split at h
  · split at h <;> cases h
  · next hnotLast =>
    have hbelow : (@unpackExponent Format.binary64 x.toBits.toBitVec).toNat ≠ 2047 :=
      fun heq => hnotLast (BitVec.eq_of_toNat_eq heq)
    split at h
    · next hfirst =>
      split at h
      · cases h
      · -- the exponent field of the least numbers is empty
        cases h
        have hzero : (@unpackExponent Format.binary64 x.toBits.toBitVec).toNat = 0 := by
          rw [hfirst]
          rfl
        rw [hzero]
        exact ⟨by omega, by decide, by decide, .inr (by decide)⟩
    · next hnotFirst =>
      have habove : (@unpackExponent Format.binary64 x.toBits.toBitVec).toNat ≠ 0 :=
        fun heq => hnotFirst (BitVec.eq_of_toNat_eq heq)
      cases h
      rw [toNat_one_append]
      show Fits (2 ^ 52 + _) ((_ : Nat) - (1075 : Int))
      exact ⟨by omega, by omega, by omega, .inl (by omega)⟩

theorem ofBitVec_unpackSign (s : Sign) (v : BitVec 11) (w : BitVec 52) :
    Sign.ofBitVec (unpackSign (packComponents Format.binary64 s v w)) = s := by
  simp only [unpackSign, packComponents, BitVec.extractLsb]
  rw [BitVec.extractLsb'_append_eq_of_le (by decide), BitVec.extractLsb'_append_eq_of_le (by decide)]
  cases s <;> rfl

/-- What fits is read from a double as it was put there. -/
theorem unpack_pack (h : Fits m e) (hm : 0 < m) :
    (Float.Model.pack (.finite s m e hm)).unpack = .finite s m e hm := by
  obtain ⟨hlt, hlower, hupper, hfull⟩ := h
  have hfield : (e + Format.binary64.exponentBias +
      Format.binary64.mantissaBitsWithoutImplicit).toNat = (e + 1075).toNat := by
    show (e + (1023 : Nat) + (52 : Nat)).toNat = _
    omega
  have hroom : ¬ 2 ^ Format.binary64.exponentBits ≤ (e + 1075).toNat + 1 := by
    show ¬ 2 ^ 11 ≤ _
    omega
  show UnpackedFloat.unpack _ (UnpackedFloat.pack _ _) = _
  rw [UnpackedFloat.pack]
  simp only [hfield]
  rw [if_neg hroom]
  by_cases hnormal : 2 ^ 52 ≤ m
  · have hlog : m.log2 + 1 = Format.binary64.mantissaBits :=
      congrArg (· + 1) ((Nat.log2_eq_iff (Nat.ne_of_gt hm)).mpr ⟨hnormal, hlt⟩)
    have hvector : (BitVec.ofNat 11 (e + 1075).toNat).toNat = (e + 1075).toNat := by
      rw [BitVec.toNat_ofNat, Nat.mod_eq_of_lt (by omega)]
    have hdigits : (1#1 ++ BitVec.ofNat 52 m).toNat = m := by
      rw [toNat_one_append, BitVec.toNat_ofNat]
      omega
    have hnotLast : BitVec.ofNat 11 (e + 1075).toNat ≠ -1#11 := by
      intro heq
      have hnat := congrArg BitVec.toNat heq
      rw [hvector] at hnat
      change _ = 2047 at hnat
      omega
    have hnotFirst : BitVec.ofNat 11 (e + 1075).toNat ≠ 0#11 := by
      intro heq
      have hnat := congrArg BitVec.toNat heq
      rw [hvector] at hnat
      change _ = 0 at hnat
      omega
    rw [if_pos hlog, UnpackedFloat.unpack]
    simp only [unpackMantissa_packComponents, unpackExponent_packComponents, ofBitVec_unpackSign,
      hdigits, hvector]
    rw [if_neg hnotLast, if_neg hnotFirst]
    congr 1
    show ((e + 1075).toNat : Int) - ((1023 : Nat) + (52 : Nat)) = e
    omega
  · have hleast : e = -1074 := hfull.resolve_left hnormal
    have hshort : m.log2 + 1 ≠ Format.binary64.mantissaBits := by
      have hlog := (Nat.log2_lt (Nat.ne_of_gt hm)).mpr (Nat.lt_of_not_le hnormal)
      show m.log2 + 1 ≠ 53
      omega
    have hdigits : (BitVec.ofNat 52 m).toNat = m := by
      rw [BitVec.toNat_ofNat, Nat.mod_eq_of_lt (Nat.lt_of_not_le hnormal)]
    have hsome : BitVec.ofNat 52 m ≠ 0#52 := by
      intro heq
      have hnat := congrArg BitVec.toNat heq
      rw [hdigits] at hnat
      change m = 0 at hnat
      omega
    rw [if_neg hshort, UnpackedFloat.unpack]
    simp only [unpackMantissa_packComponents, unpackExponent_packComponents, ofBitVec_unpackSign,
      hdigits]
    rw [if_neg (by decide), if_pos trivial, dif_neg hsome]
    subst hleast
    rfl

/-! ### Values -/

/-- The real number that digits, an exponent and a sign stand for. -/
noncomputable def number (s : Sign) (m : Nat) (e : Int) : ℝ := (s.apply m : Int) * (2 : ℝ) ^ e

/-- What a value stands for, if it stands for anything. -/
noncomputable def worth? : UnpackedFloat → Option EReal
  | .notANumber => none
  | .infinity .negative => some ⊥
  | .infinity .positive => some ⊤
  | .zero _ => some 0
  | .finite s m e _ => some (number s m e)

/-- What a double stands for, if it is not not-a-number. -/
noncomputable def value? (x : Float) : Option EReal := worth? x.toModel.unpack

/-- A double stands for a real number. -/
def Stands (x : Float) (r : ℝ) : Prop := value? x = some (r : EReal)

theorem Stands.unique {x : Float} {r r' : ℝ} (h : Stands x r) (h' : Stands x r') : r = r' :=
  EReal.coe_injective (Option.some.inj (h.symm.trans h'))

theorem number_positive (m : Nat) (e : Int) : number .positive m e = m * (2 : ℝ) ^ e := by
  unfold number
  rw [Sign.apply, Int.cast_natCast]

theorem number_negative (m : Nat) (e : Int) : number .negative m e = -(m * (2 : ℝ) ^ e) := by
  unfold number
  rw [Sign.apply, Int.cast_neg, Int.cast_natCast, neg_mul]

theorem number_pos (hm : 0 < m) : 0 < number .positive m e := by
  rw [number_positive]
  positivity

theorem number_neg (hm : 0 < m) : number .negative m e < 0 := by
  rw [number_negative, neg_lt_zero]
  positivity

/-- Only not-a-number stands for nothing. -/
theorem isNaN_iff_value {x : Float} : x.isNaN = true ↔ value? x = none := by
  show x.toModel.unpack.isNaN = true ↔ worth? x.toModel.unpack = none
  cases x.toModel.unpack with
  | notANumber => exact iff_of_true rfl rfl
  | infinity s => cases s <;> exact iff_of_false Bool.false_ne_true (Option.some_ne_none _)
  | _ => exact iff_of_false Bool.false_ne_true (Option.some_ne_none _)

/-- The digits of a double with their sign, and its exponent. -/
def digits? (x : Float) : Option (Int × Int) :=
  match x.toModel.unpack with
  | .zero _ => some (0, 0)
  | .finite s m e _ => some (s.apply m, e)
  | _ => none

/-- A double stands for its digits times a power of two. -/
theorem stands_of_digits {x : Float} {k e : Int} (h : digits? x = some (k, e)) :
    Stands x (k * (2 : ℝ) ^ e) := by
  unfold digits? at h
  unfold Stands value?
  cases hx : x.toModel.unpack with
  | notANumber =>
    rw [hx] at h
    cases h
  | infinity s =>
    rw [hx] at h
    cases h
  | zero s =>
    rw [hx] at h
    obtain ⟨rfl, rfl⟩ := Prod.mk.inj (Option.some.inj h)
    rw [Int.cast_zero, zero_mul]
    rfl
  | finite s m d hm =>
    rw [hx] at h
    obtain ⟨rfl, rfl⟩ := Prod.mk.inj (Option.some.inj h)
    rfl

theorem stands_of_eq {x : Float} {r : ℝ} (k e : Int) (h : digits? x = some (k, e))
    (hr : k * (2 : ℝ) ^ e = r) : Stands x r :=
  hr ▸ stands_of_digits h

/-! ### The order -/

/-- Of two numbers above zero the one with the larger exponent is larger, and of two with
    the same exponent the one with more digits. -/
theorem number_lt_number (h : Fits m e) (h' : Fits n d) (hlt : e < d ∨ e = d ∧ m < n) :
    number .positive m e < number .positive n d := by
  rw [number_positive, number_positive]
  rcases hlt with hexp | ⟨rfl, hdigits⟩
  · -- the larger exponent is not the least, so there all digits are taken
    have hfull : 2 ^ 52 ≤ n := h'.full.resolve_right (by have := h.lower; omega)
    have hm : (m : ℝ) < 2 ^ 53 := by exact_mod_cast h.lt
    have hn : (2 : ℝ) ^ 52 ≤ n := by exact_mod_cast hfull
    calc (m : ℝ) * 2 ^ e < 2 ^ 53 * 2 ^ e := by gcongr
      _ = 2 ^ 52 * 2 ^ (e + 1) := by rw [zpow_add_one₀ two_ne_zero]; ring
      _ ≤ 2 ^ 52 * 2 ^ d := by gcongr; exacts [one_le_two, hexp]
      _ ≤ n * 2 ^ d := by gcongr
  · have hdigits' : (m : ℝ) < n := by exact_mod_cast hdigits
    gcongr

/-- Numbers above zero compare as exponents and digits do. -/
theorem compare_number (h : Fits m e) (h' : Fits n d) :
    (compare e d).then (compare m n) =
      compare (number .positive m e : EReal) (number .positive n d : EReal) := by
  have hthen : ∀ o : Ordering, o ≠ .eq → o.then (compare m n) = o := by
    intro o ho
    cases o with
    | eq => exact absurd rfl ho
    | _ => rfl
  rcases lt_trichotomy e d with hexp | rfl | hexp
  · rw [compare_lt_iff_lt.mpr hexp, hthen _ (by decide), eq_comm, compare_lt_iff_lt]
    exact EReal.coe_lt_coe (number_lt_number h h' (.inl hexp))
  · rw [compare_eq_iff_eq.mpr rfl]
    show compare m n = _
    rcases lt_trichotomy m n with hdigits | rfl | hdigits
    · rw [compare_lt_iff_lt.mpr hdigits, eq_comm, compare_lt_iff_lt]
      exact EReal.coe_lt_coe (number_lt_number h h' (.inr ⟨rfl, hdigits⟩))
    · rw [compare_eq_iff_eq.mpr rfl, compare_eq_iff_eq.mpr rfl]
    · rw [compare_gt_iff_gt.mpr hdigits, eq_comm, compare_gt_iff_gt]
      exact EReal.coe_lt_coe (number_lt_number h' h (.inr ⟨rfl, hdigits⟩))
  · rw [compare_gt_iff_gt.mpr hexp, hthen _ (by decide), eq_comm, compare_gt_iff_gt]
    exact EReal.coe_lt_coe (number_lt_number h' h (.inl hexp))

/-- Numbers below zero compare the other way round. -/
theorem swap_compare (r q : ℝ) :
    (compare (r : EReal) q).swap = compare ((-r : ℝ) : EReal) ((-q : ℝ) : EReal) := by
  rcases lt_trichotomy r q with hlt | rfl | hgt
  · rw [compare_lt_iff_lt.mpr (EReal.coe_lt_coe hlt), eq_comm, Ordering.swap, compare_gt_iff_gt]
    exact EReal.coe_lt_coe (neg_lt_neg hlt)
  · rw [compare_eq_iff_eq.mpr rfl, compare_eq_iff_eq.mpr rfl, Ordering.swap]
  · rw [compare_gt_iff_gt.mpr (EReal.coe_lt_coe hgt), eq_comm, Ordering.swap, compare_lt_iff_lt]
    exact EReal.coe_lt_coe (neg_lt_neg hgt)

/-- Values compare as what they stand for does. -/
theorem compare_eq_worth (x y : Float.Model) : UnpackedFloat.compare x.unpack y.unpack =
    (worth? x.unpack).bind fun a => (worth? y.unpack).map (compare a) := by
  have hlt : ∀ {a b : EReal}, a < b → some Ordering.lt = some (compare a b) := fun h =>
    congrArg some (compare_lt_iff_lt.mpr h).symm
  have hgt : ∀ {a b : EReal}, b < a → some Ordering.gt = some (compare a b) := fun h =>
    congrArg some (compare_gt_iff_gt.mpr h).symm
  have heq : ∀ a : EReal, some Ordering.eq = some (compare a a) := fun a =>
    congrArg some (compare_eq_iff_eq.mpr rfl).symm
  have hneg : ∀ {m e} (_ : 0 < m), (number .negative m e : EReal) < 0 := fun hm =>
    EReal.coe_lt_coe (number_neg hm)
  have hpos : ∀ {m e} (_ : 0 < m), (0 : EReal) < number .positive m e := fun hm =>
    EReal.coe_lt_coe (number_pos hm)
  cases hx : x.unpack with
  | notANumber => rfl
  | infinity s =>
    cases hy : y.unpack with
    | notANumber => cases s <;> rfl
    | infinity t =>
      cases s <;> cases t
      exacts [heq ⊥, hlt bot_lt_top, hgt bot_lt_top, heq ⊤]
    | zero t =>
      cases s
      exacts [hlt (EReal.bot_lt_coe 0), hgt (EReal.coe_lt_top 0)]
    | finite t n d hn =>
      cases s
      exacts [hlt (EReal.bot_lt_coe _), hgt (EReal.coe_lt_top _)]
  | zero s =>
    cases hy : y.unpack with
    | notANumber => rfl
    | infinity t =>
      cases t
      exacts [hgt (EReal.bot_lt_coe 0), hlt (EReal.coe_lt_top 0)]
    | zero t => exact heq 0
    | finite t n d hn =>
      cases t
      exacts [hgt (hneg hn), hlt (hpos hn)]
  | finite s m e hm =>
    cases hy : y.unpack with
    | notANumber => cases s <;> rfl
    | infinity t =>
      cases s <;> cases t
      exacts [hgt (EReal.bot_lt_coe _), hlt (EReal.coe_lt_top _), hgt (EReal.bot_lt_coe _),
        hlt (EReal.coe_lt_top _)]
    | zero t =>
      cases s
      exacts [hlt (hneg hm), hgt (hpos hm)]
    | finite t n d hn =>
      -- of two numbers with the same sign the digits decide, below zero the other way round
      have hdigits := compare_number (fits_of_unpack hx) (fits_of_unpack hy)
      cases s <;> cases t
      · refine congrArg some ?_
        show ((compare e d).then (compare m n)).swap = compare _ _
        rw [hdigits, number_negative, number_negative, ← number_positive, ← number_positive]
        exact swap_compare _ _
      · exact hlt ((hneg hm).trans (hpos hn))
      · exact hgt ((hneg hn).trans (hpos hm))
      · exact congrArg some hdigits

variable {x y : Float}

theorem lt_iff_value : x < y ↔ ∃ a b, value? x = some a ∧ value? y = some b ∧ a < b := by
  rw [lt_iff_compare, compare_eq_worth]
  simp only [Option.bind_eq_some_iff, Option.map_eq_some_iff, compare_lt_iff_lt]
  unfold value?
  grind

theorem Stands.lt_iff {r q : ℝ} (hx : Stands x r) (hy : Stands y q) : x < y ↔ r < q := by
  rw [lt_iff_value]
  constructor
  · rintro ⟨a, b, ha, hb, hlt⟩
    rw [Option.some.inj (ha.symm.trans hx), Option.some.inj (hb.symm.trans hy)] at hlt
    exact EReal.coe_lt_coe_iff.mp hlt
  · exact fun hlt => ⟨r, q, hx, hy, EReal.coe_lt_coe hlt⟩

/-! ### Sizes -/

/-- The least number above zero. -/
noncomputable def least : ℝ := 2 ^ (-1074 : Int)

/-- Up to this number there is room for results. -/
noncomputable def largest : ℝ := 2 ^ (1000 : Int)

theorem least_pos : 0 < least := zpow_pos two_pos _

theorem least_le : least ≤ 1 / 2 ^ 52 := by
  have hpower : (2 : ℝ) ^ (-1074 : Int) ≤ 2 ^ (-52 : Int) :=
    zpow_le_zpow_right₀ one_le_two (by decide)
  exact le_trans hpower (by norm_num)

/-- A result is off by no more than a part in 2^52, and the least number. -/
def Near (exact result : ℝ) : Prop := |result - exact| ≤ |exact| / 2 ^ 52 + least

theorem Near.refl (x : ℝ) : Near x x := by
  unfold Near
  rw [sub_self, abs_zero]
  have hleast := least_pos
  positivity

end Airspace.Double
