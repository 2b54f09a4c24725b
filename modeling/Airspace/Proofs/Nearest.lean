import Airspace.Plane.Segment
import Airspace.Proofs.Rounding

/-! # The nearest point in degrees

  With degrees of latitude and longitude taken as equal lengths, the foot of the perpendicular,
  kept within a segment, is the point of the segment that is nearest. Computed in doubles it is
  off by much less than the rounding of coordinates would suggest to be harmful: where the
  segment is so short that the ratio along it is uncertain, all its points are equally good.
-/

namespace Airspace.Point

/-! ### Exact places -/

section Exact

variable {K : Type} [Field K]

/-- The squared distance to a point on the line through a segment, by its ratio. -/
theorem squaredLength_between (p a b : Point K) (t : K) :
    squaredLength p (between a b t) = squaredLength p a -
      2 * t * ((p.lat - a.lat) * (b.lat - a.lat) + (p.lon - a.lon) * (b.lon - a.lon)) +
        t * t * squaredLength a b := by
  simp only [squaredLength, between]
  ring

variable [LinearOrder K] [IsStrictOrderedRing K]

/-- A ratio kept within the segment is one. -/
theorem clampUnit_mem (t : K) : 0 ≤ clampUnit t ∧ clampUnit t ≤ 1 := by
  unfold clampUnit
  by_cases hlow : t < 0
  · rw [if_pos hlow]
    exact ⟨le_refl 0, zero_le_one⟩
  · rw [if_neg hlow]
    by_cases hhigh : 1 < t
    · rw [if_pos hhigh]
      exact ⟨zero_le_one, le_refl 1⟩
    · rw [if_neg hhigh]
      exact ⟨not_lt.mp hlow, not_lt.mp hhigh⟩

/-- No point of a segment is nearer than the foot of the perpendicular, kept within it. -/
theorem squaredLength_foot_le {p a b : Point K} (hab : 0 < squaredLength a b) {t : K} (h₀ : 0 ≤ t)
    (h₁ : t ≤ 1) :
    squaredLength p (between a b (clampUnit (footRatio p a b))) ≤
      squaredLength p (between a b t) := by
  set L := squaredLength a b with hL
  set f := footRatio p a b with hf
  have hfoot : (p.lat - a.lat) * (b.lat - a.lat) + (p.lon - a.lon) * (b.lon - a.lon) = f * L := by
    rw [hf, footRatio, ← hL, div_mul_cancel₀ _ hab.ne']
  -- the difference of the two squares is that of two squares about the foot
  have hsquares : ∀ c, squaredLength p (between a b t) - squaredLength p (between a b c) =
      L * ((t - c) * (t + c - 2 * f)) := by
    intro c
    rw [squaredLength_between, squaredLength_between, hfoot, ← hL]
    ring
  have hsign : ∀ c, 0 ≤ (t - c) * (t + c - 2 * f) →
      squaredLength p (between a b c) ≤ squaredLength p (between a b t) := by
    intro c hc
    rw [← sub_nonneg, hsquares c]
    exact mul_nonneg hab.le hc
  apply hsign
  unfold clampUnit
  by_cases hlow : f < 0
  · rw [if_pos hlow]
    exact mul_nonneg (by linarith) (by linarith)
  · rw [if_neg hlow]
    by_cases hhigh : 1 < f
    · rw [if_pos hhigh]
      exact mul_nonneg_of_nonpos_of_nonpos (by linarith) (by linarith)
    · rw [if_neg hhigh]
      have hsquare : (t - f) * (t + f - 2 * f) = (t - f) ^ 2 := by ring
      rw [hsquare]
      exact sq_nonneg _

end Exact

/-! ### Distances in degrees -/

/-- The distance in degrees. -/
noncomputable def degrees (P Q : Point ℝ) : ℝ := √(squaredLength P Q)

theorem degrees_eq_dist (P Q : Point ℝ) :
    degrees P Q = dist (Complex.mk P.lat P.lon) (Complex.mk Q.lat Q.lon) := by
  rw [Complex.dist_mk, degrees, squaredLength]
  congr 1
  ring

theorem degrees_triangle (P Q R : Point ℝ) : degrees P R ≤ degrees P Q + degrees Q R := by
  rw [degrees_eq_dist, degrees_eq_dist, degrees_eq_dist]
  exact dist_triangle _ _ _

theorem degrees_nonneg (P Q : Point ℝ) : 0 ≤ degrees P Q := Real.sqrt_nonneg _

/-- A place is no farther than the differences of its coordinates together. -/
theorem degrees_le_add (P Q : Point ℝ) : degrees P Q ≤ |Q.lat - P.lat| + |Q.lon - P.lon| := by
  rw [degrees, Real.sqrt_le_left (by positivity), squaredLength]
  nlinarith [abs_mul_abs_self (Q.lat - P.lat), abs_mul_abs_self (Q.lon - P.lon),
    mul_nonneg (abs_nonneg (Q.lat - P.lat)) (abs_nonneg (Q.lon - P.lon))]

/-- The coordinates differ by no more than the distance. -/
theorem abs_sub_le_degrees (P Q : Point ℝ) :
    |Q.lat - P.lat| ≤ degrees P Q ∧ |Q.lon - P.lon| ≤ degrees P Q := by
  rw [degrees, squaredLength]
  constructor
  · apply Real.abs_le_sqrt
    nlinarith [mul_self_nonneg (Q.lon - P.lon)]
  · apply Real.abs_le_sqrt
    nlinarith [mul_self_nonneg (Q.lat - P.lat)]

/-- Points of a segment are as far apart as their ratios say. -/
theorem degrees_between (A B : Point ℝ) (s t : ℝ) :
    degrees (between A B s) (between A B t) = |t - s| * degrees A B := by
  have hsquare : squaredLength (between A B s) (between A B t) =
      (t - s) ^ 2 * squaredLength A B := by
    simp only [squaredLength, between]
    ring
  rw [degrees, hsquare, Real.sqrt_mul (sq_nonneg _), Real.sqrt_sq_eq_abs, degrees]

/-! ### Places in doubles -/

/-- A place in doubles stands for a real place. -/
structure Stands (p : Position) (P : Point ℝ) : Prop where
  lat : Double.Stands p.lat P.lat
  lon : Double.Stands p.lon P.lon

/-- A place on the map. -/
structure OnMap (P : Point ℝ) : Prop where
  lat : |P.lat| ≤ 90
  lon : |P.lon| ≤ 180

/-- A place whose coordinates are at most a full turn. -/
structure WithinTurn (P : Point ℝ) : Prop where
  lat : |P.lat| ≤ 360
  lon : |P.lon| ≤ 360

theorem OnMap.withinTurn {P : Point ℝ} (h : P.OnMap) : P.WithinTurn :=
  ⟨le_trans h.lat (by norm_num), le_trans h.lon (by norm_num)⟩

end Airspace.Point

namespace Airspace.Double

variable {x y z w : Float} {a b c d : ℝ}

theorem stands_zero : Stands 0 0 := stands_of_eq 0 0 (by decide +kernel) (by norm_num)

theorem stands_one : Stands 1 1 := stands_of_eq (2 ^ 52) (-52) (by decide +kernel) (by norm_num)

/-- The ratio is kept within the segment without rounding. -/
theorem Stands.clampUnit (h : Stands x a) : Stands (Airspace.clampUnit x) (Airspace.clampUnit a) := by
  unfold Airspace.clampUnit
  by_cases hlow : a < 0
  · rw [if_pos hlow, if_pos ((h.lt_iff stands_zero).mpr hlow)]
    exact stands_zero
  · rw [if_neg hlow, if_neg fun hx => hlow ((h.lt_iff stands_zero).mp hx)]
    by_cases hhigh : 1 < a
    · rw [if_pos hhigh, if_pos ((stands_one.lt_iff h).mpr hhigh)]
      exact stands_one
    · rw [if_neg hhigh, if_neg fun hx => hhigh ((stands_one.lt_iff h).mp hx)]
      exact h

/-- A difference of two coordinates. -/
theorem within_sub (hx : Stands x a) (hy : Stands y b) (h : |a| + |b| ≤ 1024) :
    Within (x - y) (a - b) (1 / 2 ^ 41) :=
  (hx.within.sub hy.within (by linarith : |a| + 0 + (|b| + 0) ≤ 1024) (by norm_num)
    (by norm_num)).mono (by norm_num)

/-- A product of two differences. -/
theorem within_mul (hx : Within x a (1 / 2 ^ 41)) (hy : Within y b (1 / 2 ^ 41)) (ha : |a| ≤ 540)
    (hb : |b| ≤ 360) : Within (x * y) (a * b) (1 / 2 ^ 30) := by
  have hsize : (|a| + 1 / 2 ^ 41) * (|b| + 1 / 2 ^ 41) ≤ 2 ^ 18 := by
    have hproduct : (|a| + 1 / 2 ^ 41) * (|b| + 1 / 2 ^ 41) ≤ (540 + 1) * (360 + 1) := by
      gcongr <;> norm_num
    exact le_trans hproduct (by norm_num)
  exact (hx.mul hy hsize (by norm_num) (by norm_num)).mono (by linarith)

/-- A sum of two such products. -/
theorem within_dot (hx : Within x a (1 / 2 ^ 41)) (hy : Within y b (1 / 2 ^ 41))
    (hz : Within z c (1 / 2 ^ 41)) (hw : Within w d (1 / 2 ^ 41)) (ha : |a| ≤ 540) (hb : |b| ≤ 360)
    (hc : |c| ≤ 540) (hd : |d| ≤ 360) :
    Within (x * y + z * w) (a * b + c * d) (1 / 2 ^ 28) := by
  have hab : |a * b| ≤ 540 * 360 := by
    rw [abs_mul]
    gcongr
  have hcd : |c * d| ≤ 540 * 360 := by
    rw [abs_mul]
    gcongr
  have hsize : |a * b| + 1 / 2 ^ 30 + (|c * d| + 1 / 2 ^ 30) ≤ 2 ^ 19 := by
    norm_num at hab hcd ⊢
    linarith
  exact ((within_mul hx hy ha hb).add (within_mul hz hw hc hd) hsize (by norm_num)
    (by norm_num)).mono (by norm_num)

/-! ### The ratio along a segment -/

/-- Numbers that are near each other stay so within the segment. -/
theorem abs_clampUnit_sub_le (s t : ℝ) :
    |Airspace.clampUnit s - Airspace.clampUnit t| ≤ |s - t| := by
  have hle := le_abs_self (s - t)
  have hge := neg_le_abs (s - t)
  unfold Airspace.clampUnit
  rw [abs_le]
  split_ifs <;> constructor <;> linarith

theorem clampUnit_of_nonpos {t : ℝ} (h : t ≤ 0) : Airspace.clampUnit t = 0 := by
  unfold Airspace.clampUnit
  by_cases hlow : t < 0
  · exact if_pos hlow
  · have hzero : t = 0 := le_antisymm h (not_lt.mp hlow)
    rw [if_neg hlow, if_neg (by linarith), hzero]

theorem clampUnit_of_one_le {t : ℝ} (h : 1 ≤ t) : Airspace.clampUnit t = 1 := by
  unfold Airspace.clampUnit
  rw [if_neg (by linarith)]
  by_cases hhigh : 1 < t
  · exact if_pos hhigh
  · rw [if_neg hhigh]
    exact le_antisymm (not_lt.mp hhigh) h

section Ratio

variable {N N' L L' t η : ℝ}

/-- The ratio of a numerator and a divisor that are both a little off, where the divisor is not
    too small and the foot of the perpendicular not far from the segment. -/
theorem abs_ratio_sub_le_of_near (hN : |N' - N| ≤ η) (hL : |L' - L| ≤ η) (hη : 100 * η ≤ L)
    (hη₀ : 0 < η) (hfoot : |N / L| ≤ 2) (ht : Near (N' / L') t) :
    |t - N / L| ≤ 4 * η / L + 1 / 2 ^ 50 := by
  have hLpos : 0 < L := by linarith
  have hdown : 99 / 100 * L ≤ L' := by linarith [neg_le_of_abs_le hL]
  have hLpos' : 0 < L' := by linarith
  -- the exact ratio of the two numbers
  have hsplit : N' / L' - N / L = ((N' - N) - N / L * (L' - L)) / L' := by
    field_simp
    ring
  have hratio : |N' / L' - N / L| ≤ 4 * η / L := by
    rw [hsplit, abs_div, abs_of_pos hLpos', div_le_div_iff₀ hLpos' hLpos]
    have hnumerator : |(N' - N) - N / L * (L' - L)| ≤ 3 * η := by
      refine le_trans (abs_sub _ _) ?_
      rw [abs_mul]
      have hproduct : |N / L| * |L' - L| ≤ 2 * η :=
        mul_le_mul hfoot hL (abs_nonneg _) (by norm_num)
      linarith
    have hproduct : |(N' - N) - N / L * (L' - L)| * L ≤ 3 * η * L := by gcongr
    nlinarith
  have hquarter : 4 * η / L ≤ 1 := by
    rw [div_le_one hLpos]
    linarith
  -- and its rounding
  have hsize : |N' / L'| ≤ 3 := by
    have hbound := abs_le_of_off hratio
    linarith
  have hround : |t - N' / L'| ≤ 1 / 2 ^ 50 := by
    have hleast := least_le
    unfold Near at ht
    have hpart : |N' / L'| / 2 ^ 52 ≤ 3 / 2 ^ 52 := by gcongr
    have hsum : (3 : ℝ) / 2 ^ 52 + 1 / 2 ^ 52 = 1 / 2 ^ 50 := by norm_num
    linarith
  have htriangle := abs_sub_le t (N' / L') (N / L)
  linarith

/-- Where the foot of the perpendicular is far from the segment, both are kept at the same end. -/
theorem abs_ratio_sub_le (hN : |N' - N| ≤ η) (hL : |L' - L| ≤ η) (hη : 100 * η ≤ L) (hη₀ : 0 < η)
    (ht : Near (N' / L') t) :
    |Airspace.clampUnit t - Airspace.clampUnit (N / L)| ≤ 4 * η / L + 1 / 2 ^ 50 := by
  have hLpos : 0 < L := by linarith
  by_cases hfoot : |N / L| ≤ 2
  · exact le_trans (abs_clampUnit_sub_le _ _) (abs_ratio_sub_le_of_near hN hL hη hη₀ hfoot ht)
  · obtain ⟨hNdown, hNup⟩ := abs_le.mp hN
    obtain ⟨hLdown, hLup⟩ := abs_le.mp hL
    have hLpos' : 0 < L' := by linarith
    have hbound : 0 ≤ 4 * η / L + 1 / 2 ^ 50 := by positivity
    have hleast := least_le
    obtain ⟨htdown, htup⟩ := abs_le.mp ht
    have hsame : Airspace.clampUnit t = Airspace.clampUnit (N / L) := by
      rcases lt_abs.mp (not_le.mp hfoot) with habove | hbelow
      · rw [lt_div_iff₀ hLpos] at habove
        have hratio : 3 / 2 ≤ N' / L' := by
          rw [le_div_iff₀ hLpos']
          linarith
        rw [abs_of_nonneg (by linarith)] at htdown
        have hone : 1 ≤ N / L := by
          rw [le_div_iff₀ hLpos]
          linarith
        rw [clampUnit_of_one_le hone, clampUnit_of_one_le]
        linarith
      · rw [← neg_div, lt_div_iff₀ hLpos] at hbelow
        have hratio : N' / L' ≤ -3 / 2 := by
          rw [div_le_iff₀ hLpos']
          linarith
        rw [abs_of_nonpos (by linarith)] at htup
        have hnonpos : N / L ≤ 0 := by
          rw [div_le_iff₀ hLpos]
          linarith
        rw [clampUnit_of_nonpos hnonpos, clampUnit_of_nonpos]
        linarith
    rw [hsame, sub_self, abs_zero]
    exact hbound

end Ratio

end Airspace.Double

namespace Airspace.Point

open Double

variable {p a b : Position} {P A B : Point ℝ} {κ : ℝ} {r : Float}

/-! ### The nearest point in doubles -/

/-- The differences of coordinates. -/
theorem abs_sub_le_of_onMap (hA : A.OnMap) (hB : B.OnMap) :
    |B.lat - A.lat| ≤ 360 ∧ |B.lon - A.lon| ≤ 360 := by
  have hlat := le_trans (abs_sub B.lat A.lat) (add_le_add hB.lat hA.lat)
  have hlon := le_trans (abs_sub B.lon A.lon) (add_le_add hB.lon hA.lon)
  exact ⟨by linarith, by linarith⟩

theorem abs_sub_le_of_withinTurn (hP : P.WithinTurn) (hA : A.OnMap) :
    |P.lat - A.lat| ≤ 540 ∧ |P.lon - A.lon| ≤ 540 := by
  have hlat := le_trans (abs_sub P.lat A.lat) (add_le_add hP.lat hA.lat)
  have hlon := le_trans (abs_sub P.lon A.lon) (add_le_add hP.lon hA.lon)
  exact ⟨by linarith, by linarith⟩

/-- The points of a segment on the map are on the map. -/
theorem OnMap.between (hA : A.OnMap) (hB : B.OnMap) (h₀ : 0 ≤ κ) (h₁ : κ ≤ 1) :
    (between A B κ).OnMap := by
  have hconvex : ∀ {x y M : ℝ}, |x| ≤ M → |y| ≤ M → |x + κ * (y - x)| ≤ M := by
    intro x y M hx hy
    have hsplit : x + κ * (y - x) = (1 - κ) * x + κ * y := by ring
    rw [hsplit]
    refine le_trans (abs_add_le _ _) ?_
    rw [abs_mul, abs_mul, abs_of_nonneg h₀, abs_of_nonneg (by linarith)]
    nlinarith
  exact ⟨hconvex hA.lat hB.lat, hconvex hA.lon hB.lon⟩

/-- A coordinate of a point of a segment. -/
theorem within_coordinate {x y : Float} {u v : ℝ} (hx : Double.Stands x u)
    (hy : Double.Stands y v) (hr : Double.Stands r κ) (h₀ : 0 ≤ κ) (h₁ : κ ≤ 1) (hu : |u| ≤ 180)
    (hv : |v - u| ≤ 360) (hsum : |v| + |u| ≤ 1024) :
    Within (x + r * (y - x)) (u + κ * (v - u)) (1 / 2 ^ 39) := by
  have hκ : |κ| ≤ 1 := by rwa [abs_of_nonneg h₀]
  have hsize : (|κ| + 0) * (|v - u| + 1 / 2 ^ 41) ≤ 512 := by
    have hproduct : (|κ| + 0) * (|v - u| + 1 / 2 ^ 41) ≤ (1 + 0) * (360 + 1) := by
      gcongr
      norm_num
    exact le_trans hproduct (by norm_num)
  have hstep : Within (r * (y - x)) (κ * (v - u)) (1 / 2 ^ 40) :=
    (hr.within.mul (within_sub hy hx hsum) hsize (by norm_num) (by norm_num)).mono (by linarith)
  have hsize' : |u| + 0 + (|κ * (v - u)| + 1 / 2 ^ 40) ≤ 1024 := by
    have hproduct : |κ * (v - u)| ≤ 1 * 360 := by
      rw [abs_mul]
      gcongr
    linarith
  exact (hx.within.add hstep hsize' (by norm_num) (by norm_num)).mono (by norm_num)

/-- A point of a segment in doubles. -/
theorem exists_stands_between (ha : a.Stands A) (hb : b.Stands B) (hA : A.OnMap) (hB : B.OnMap)
    (hr : Double.Stands r κ) (h₀ : 0 ≤ κ) (h₁ : κ ≤ 1) :
    ∃ Q, (Point.between a b r).Stands Q ∧ degrees (Point.between A B κ) Q ≤ 1 / 2 ^ 38 := by
  obtain ⟨hlat, hlon⟩ := abs_sub_le_of_onMap hA hB
  have hAlat := hA.lat
  have hBlat := hB.lat
  have hAlon := hA.lon
  have hBlon := hB.lon
  obtain ⟨v, hv, hvoff⟩ := within_coordinate ha.lat hb.lat hr h₀ h₁ (by linarith) hlat (by linarith)
  obtain ⟨w, hw, hwoff⟩ := within_coordinate ha.lon hb.lon hr h₀ h₁ hAlon hlon (by linarith)
  refine ⟨⟨v, w⟩, ⟨hv, hw⟩, le_trans (degrees_le_add _ _) ?_⟩
  have hsum : (1 : ℝ) / 2 ^ 39 + 1 / 2 ^ 39 = 1 / 2 ^ 38 := by norm_num
  show |v - (A.lat + κ * (B.lat - A.lat))| + |w - (A.lon + κ * (B.lon - A.lon))| ≤ _
  linarith

/-- How far a place in doubles is from a point of the segment that is nearest, if it stands for
    a point at another ratio. -/
theorem degrees_le_of_ratio {Q : Point ℝ} {δ s : ℝ}
    (hQ : degrees (Point.between A B κ) Q ≤ 1 / 2 ^ 38) (hs : |κ - s| * degrees A B ≤ δ) :
    degrees P Q ≤ degrees P (Point.between A B s) + δ + 1 / 2 ^ 38 := by
  have hfirst := degrees_triangle P (Point.between A B s) Q
  have hsecond := degrees_triangle (Point.between A B s) (Point.between A B κ) Q
  rw [degrees_between A B s κ] at hsecond
  linarith

/-- The squared length under which a segment counts as a single place. -/
theorem exists_stands_shortest : ∃ z, Double.Stands 1e-9 z ∧ 1 / 2 ^ 30 ≤ z ∧ z ≤ 1 / 2 ^ 29 := by
  have hdigits : digits? 1e-9 = some (4835703278458517, -82) := by decide +kernel
  exact ⟨_, stands_of_digits hdigits, by norm_num, by norm_num⟩

/-- Numerator and divisor of the ratio are sums of two products. -/
theorem within_ratio (hp : p.Stands P) (ha : a.Stands A) (hb : b.Stands B) (hP : P.WithinTurn)
    (hA : A.OnMap) (hB : B.OnMap) :
    Within (squaredLength a b) (squaredLength A B) (1 / 2 ^ 28) ∧
      Within ((p.lat - a.lat) * (b.lat - a.lat) + (p.lon - a.lon) * (b.lon - a.lon))
        ((P.lat - A.lat) * (B.lat - A.lat) + (P.lon - A.lon) * (B.lon - A.lon)) (1 / 2 ^ 28) := by
  have hAlat := hA.lat
  have hBlat := hB.lat
  have hAlon := hA.lon
  have hBlon := hB.lon
  have hPlat := hP.lat
  have hPlon := hP.lon
  obtain ⟨hlat, hlon⟩ := abs_sub_le_of_onMap hA hB
  obtain ⟨hlat', hlon'⟩ := abs_sub_le_of_withinTurn hP hA
  have hu := within_sub hb.lat ha.lat (by linarith)
  have hv := within_sub hb.lon ha.lon (by linarith)
  have hu' := within_sub hp.lat ha.lat (by linarith)
  have hv' := within_sub hp.lon ha.lon (by linarith)
  exact ⟨within_dot hu hu hv hv (by linarith) hlat (by linarith) hlon,
    within_dot hu' hu hv' hv hlat' hlat hlon' hlon⟩

/-- The numerator of the ratio is not large. -/
theorem abs_numerator_le (hP : P.WithinTurn) (hA : A.OnMap) (hB : B.OnMap) :
    |(P.lat - A.lat) * (B.lat - A.lat) + (P.lon - A.lon) * (B.lon - A.lon)| ≤ 2 ^ 19 - 1 := by
  obtain ⟨hlat, hlon⟩ := abs_sub_le_of_onMap hA hB
  obtain ⟨hlat', hlon'⟩ := abs_sub_le_of_withinTurn hP hA
  have hfirst : |(P.lat - A.lat) * (B.lat - A.lat)| ≤ 540 * 360 := by
    rw [abs_mul]
    gcongr
  have hsecond : |(P.lon - A.lon) * (B.lon - A.lon)| ≤ 540 * 360 := by
    rw [abs_mul]
    gcongr
  refine le_trans (abs_add_le _ _) (le_trans (add_le_add hfirst hsecond) (by norm_num))

/-- On a segment that is not too short the ratio is precise enough. -/
theorem ratio_mul_degrees_le {N N' L' t : ℝ} (hA : A.OnMap) (hB : B.OnMap)
    (hlong : 1 / 2 ^ 10 ≤ degrees A B) (hN : |N' - N| ≤ 1 / 2 ^ 28)
    (hL : |L' - squaredLength A B| ≤ 1 / 2 ^ 28) (ht : Near (N' / L') t) :
    |clampUnit t - clampUnit (N / squaredLength A B)| * degrees A B ≤ 1 / 2 ^ 15 := by
  have hpos : 0 < degrees A B := lt_of_lt_of_le (by norm_num) hlong
  have hsquare : squaredLength A B = degrees A B * degrees A B := by
    rw [degrees, Real.mul_self_sqrt]
    unfold squaredLength
    nlinarith [mul_self_nonneg (B.lat - A.lat), mul_self_nonneg (B.lon - A.lon)]
  have hsize : degrees A B ≤ 720 := by
    obtain ⟨hlat, hlon⟩ := abs_sub_le_of_onMap hA hB
    exact le_trans (degrees_le_add A B) (by linarith)
  have hdivisor : 100 * (1 / 2 ^ 28) ≤ squaredLength A B := by
    rw [hsquare]
    nlinarith
  have hratio := abs_ratio_sub_le hN hL hdivisor (by norm_num) ht
  have hfirst : 4 * (1 / 2 ^ 28) / squaredLength A B * degrees A B ≤ 1 / 2 ^ 16 := by
    rw [hsquare, ← div_div, div_mul_cancel₀ _ hpos.ne', div_le_iff₀ hpos]
    linarith
  have hsecond : 1 / 2 ^ 50 * degrees A B ≤ 1 / 2 ^ 16 := by linarith
  calc |clampUnit t - clampUnit (N / squaredLength A B)| * degrees A B
      ≤ (4 * (1 / 2 ^ 28) / squaredLength A B + 1 / 2 ^ 50) * degrees A B := by gcongr
    _ = 4 * (1 / 2 ^ 28) / squaredLength A B * degrees A B + 1 / 2 ^ 50 * degrees A B := by ring
    _ ≤ 1 / 2 ^ 15 := by linarith

/-- The nearest point of a segment, computed in doubles, is hardly farther away than any point
    of the segment. -/
theorem nearestOn_le (hp : p.Stands P) (ha : a.Stands A) (hb : b.Stands B) (hP : P.WithinTurn)
    (hA : A.OnMap) (hB : B.OnMap) :
    ∃ Q, (p.nearestOn a b).Stands Q ∧ Q.WithinTurn ∧
      ∀ t, 0 ≤ t → t ≤ 1 → degrees P Q ≤ degrees P (Point.between A B t) + 1 / 500 := by
  obtain ⟨⟨L', hL', hLoff⟩, N', hN', hNoff⟩ := within_ratio hp ha hb hP hA hB
  obtain ⟨z, hz, hzdown, hzup⟩ := exists_stands_shortest
  unfold nearestOn
  by_cases hshort : squaredLength a b < 1e-9
  · -- the segment is so short that its beginning is as good as any point
    rw [if_pos hshort]
    refine ⟨A, ha, hA.withinTurn, fun t h₀ h₁ => ?_⟩
    have hL : squaredLength A B ≤ (1 / 2 ^ 10) ^ 2 := by
      have hlt := (hL'.lt_iff hz).mp hshort
      have hdown := neg_le_of_abs_le hLoff
      norm_num at hdown hzup ⊢
      linarith
    have hlength : degrees A B ≤ 1 / 2 ^ 10 := Real.sqrt_le_iff.mpr ⟨by norm_num, hL⟩
    have hbegin : degrees (Point.between A B 0) A ≤ 1 / 2 ^ 38 := by
      have hsame : Point.between A B 0 = A := by simp [Point.between]
      rw [hsame, degrees_eq_dist, dist_self]
      norm_num
    have hstep : |0 - t| * degrees A B ≤ 1 / 2 ^ 10 := by
      rw [zero_sub, abs_neg, abs_of_nonneg h₀]
      nlinarith [degrees_nonneg A B]
    refine le_trans (degrees_le_of_ratio hbegin hstep) ?_
    norm_num
    linarith
  · rw [if_neg hshort]
    have hL : 1 / 2 ^ 30 ≤ L' := le_trans hzdown (not_lt.mp fun hlt => hshort ((hL'.lt_iff hz).mpr hlt))
    have hLpos : 0 < L' := lt_of_lt_of_le (by norm_num) hL
    have hsize : |N' / L'| ≤ 2 ^ 49 := by
      have hN := le_trans (abs_le_of_off hNoff) (add_le_add (abs_numerator_le hP hA hB) (le_refl _))
      rw [abs_div, abs_of_pos hLpos, div_le_iff₀ hLpos]
      refine le_trans hN ?_
      norm_num at hL ⊢
      linarith
    obtain ⟨t', ht', hnear⟩ := hN'.div hL' hLpos.ne' (le_largest hsize (by norm_num))
    obtain ⟨h₀', h₁'⟩ := clampUnit_mem t'
    obtain ⟨Q, hQ, hQoff⟩ := exists_stands_between ha hb hA hB ht'.clampUnit h₀' h₁'
    refine ⟨Q, hQ, ?_, fun t h₀ h₁ => ?_⟩
    · have hpoint := hA.between hB h₀' h₁'
      obtain ⟨hlat, hlon⟩ := abs_sub_le_degrees (Point.between A B (clampUnit t')) Q
      have hlat' := abs_le_of_off (le_trans hlat hQoff)
      have hlon' := abs_le_of_off (le_trans hlon hQoff)
      have hpointlat := hpoint.lat
      have hpointlon := hpoint.lon
      exact ⟨by linarith, by linarith⟩
    · by_cases hlong : 1 / 2 ^ 10 ≤ degrees A B
      · -- the foot of the perpendicular is nearest, and the ratio is close to it
        have hfoot := degrees_le_of_ratio (P := P) hQoff
          (ratio_mul_degrees_le hA hB hlong hNoff hLoff hnear)
        have hpos : 0 < squaredLength A B := by
          have hroot : 0 < √(squaredLength A B) := lt_of_lt_of_le (by norm_num) hlong
          exact Real.sqrt_pos.mp hroot
        have hbest : degrees P (Point.between A B (clampUnit (footRatio P A B))) ≤
            degrees P (Point.between A B t) :=
          Real.sqrt_le_sqrt (squaredLength_foot_le hpos h₀ h₁)
        refine le_trans hfoot ?_
        norm_num at hbest ⊢
        unfold footRatio at hbest
        linarith
      · -- on a short segment any ratio is good
        have hstep : |clampUnit t' - t| * degrees A B ≤ 1 / 2 ^ 10 := by
          have hratio : |clampUnit t' - t| ≤ 1 := by
            rw [abs_le]
            exact ⟨by linarith, by linarith⟩
          nlinarith [degrees_nonneg A B, abs_nonneg (clampUnit t' - t)]
        refine le_trans (degrees_le_of_ratio hQoff hstep) ?_
        norm_num
        linarith

end Airspace.Point
