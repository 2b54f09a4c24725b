import Airspace.Proofs.Nearest

/-! # Great circles and degrees

  On the globe no place is farther away than its distance in degrees says, with every degree
  taken as long as one of latitude: degrees of longitude are shorter towards the poles, and the
  way along a great circle is shorter than any other. The converse fails: near a pole, and
  across the meridian where longitudes begin again, places that are far apart in degrees
  are close.
-/

open Real

namespace Airspace.Point

/-! ### Two sides of a right angle -/

/-- The sine grows ever more slowly. -/
theorem mul_sin_le {u v : ℝ} (hu : 0 ≤ u) (huv : u ≤ v) (hv : 0 < v) (hπ : v ≤ π) :
    u * sin v ≤ v * sin u := by
  have hconcave := strictConcaveOn_sin_Icc.concaveOn.2 (Set.mem_Icc.mpr ⟨le_refl 0, pi_pos.le⟩)
    (Set.mem_Icc.mpr ⟨hv.le, hπ⟩) (sub_nonneg.mpr ((div_le_one hv).mpr huv))
    (div_nonneg hu hv.le) (sub_add_cancel 1 (u / v))
  simp only [smul_eq_mul, mul_zero, zero_add, sin_zero, div_mul_cancel₀ u hv.ne'] at hconcave
  rw [div_mul_eq_mul_div, div_le_iff₀ hv] at hconcave
  linarith

/-- The cosine with a parabola added that is level at `ρ` is least there. -/
theorem cos_add_sq_ge {ρ z : ℝ} (hρ : 0 < ρ) (hρπ : ρ ≤ π) (hz : 0 ≤ z) (hzπ : z ≤ π) :
    cos ρ + sin ρ / (2 * ρ) * ρ ^ 2 ≤ cos z + sin ρ / (2 * ρ) * z ^ 2 := by
  set κ := sin ρ / (2 * ρ) with hκ
  have hderiv : ∀ w, HasDerivAt (fun w => cos w + κ * w ^ 2) (-sin w + κ * (2 * w)) w := by
    intro w
    have hsquare : HasDerivAt (fun w : ℝ => w ^ 2) (2 * w) w := by simpa using hasDerivAt_pow 2 w
    exact (hasDerivAt_cos w).add (hsquare.const_mul κ)
  have hcontinuous : Continuous fun w : ℝ => cos w + κ * w ^ 2 := by fun_prop
  have hslope : ∀ w, ρ * (-sin w + κ * (2 * w)) = w * sin ρ - ρ * sin w := by
    intro w
    rw [hκ]
    field_simp
    ring
  rcases le_total z ρ with hle | hge
  · -- towards `ρ` the sum falls
    have hfalls : AntitoneOn (fun w => cos w + κ * w ^ 2) (Set.Icc 0 ρ) := by
      refine antitoneOn_of_deriv_nonpos (convex_Icc 0 ρ) hcontinuous.continuousOn
        (fun w _ => (hderiv w).differentiableAt.differentiableWithinAt) fun w hw => ?_
      rw [interior_Icc] at hw
      rw [(hderiv w).deriv]
      have hsine := mul_sin_le hw.1.le hw.2.le hρ hρπ
      have hproduct := hslope w
      by_contra hpos
      nlinarith [mul_pos hρ (not_le.mp hpos)]
    exact hfalls ⟨hz, hle⟩ ⟨hρ.le, le_refl ρ⟩ hle
  · -- and beyond `ρ` it rises
    have hrises : MonotoneOn (fun w => cos w + κ * w ^ 2) (Set.Icc ρ π) := by
      refine monotoneOn_of_deriv_nonneg (convex_Icc ρ π) hcontinuous.continuousOn
        (fun w _ => (hderiv w).differentiableAt.differentiableWithinAt) fun w hw => ?_
      rw [interior_Icc] at hw
      rw [(hderiv w).deriv]
      have hsine := mul_sin_le hρ.le hw.1.le (hρ.trans hw.1) hw.2.le
      have hproduct := hslope w
      by_contra hneg
      nlinarith [mul_pos hρ (neg_pos.mpr (not_le.mp hneg))]
    exact hrises ⟨le_refl ρ, hρπ⟩ ⟨hge, hzπ⟩ hge

/-- On the globe the hypotenuse of a right angle is shorter than in the plane. -/
theorem cos_le_cos_mul_cos {x y ρ : ℝ} (hρ : x ^ 2 + y ^ 2 = ρ ^ 2) (hpos : 0 < ρ)
    (hρπ : ρ ≤ π / 2) : cos ρ ≤ cos x * cos y := by
  have hπ := pi_pos
  -- the two sides of the product formula have the squares of `ρ` between them
  have hbound : ∀ w, w ^ 2 ≤ 2 * ρ ^ 2 → |w| ≤ π := by
    intro w hw
    have hsquare : w ^ 2 ≤ π ^ 2 := by nlinarith
    exact abs_le_of_sq_le_sq hsquare hπ.le
  have hsum := hbound (x + y) (by nlinarith [sq_nonneg (x - y)])
  have hdifference := hbound (x - y) (by nlinarith [sq_nonneg (x + y)])
  have hfirst := cos_add_sq_ge hpos (by linarith) (abs_nonneg (x + y)) hsum
  have hsecond := cos_add_sq_ge hpos (by linarith) (abs_nonneg (x - y)) hdifference
  rw [cos_abs, sq_abs] at hfirst hsecond
  have hproduct : cos (x + y) + cos (x - y) = 2 * (cos x * cos y) := by
    rw [cos_add, cos_sub]
    ring
  have hsquares : sin ρ / (2 * ρ) * (x + y) ^ 2 + sin ρ / (2 * ρ) * (x - y) ^ 2 =
      2 * (sin ρ / (2 * ρ) * ρ ^ 2) := by
    rw [← hρ]
    ring
  linarith

/-! ### Distances on the globe -/

/-- Degrees to radians. -/
noncomputable def radians (x : ℝ) : ℝ := x * (π / 180)

/-- Degrees to radians, halved. -/
noncomputable def halfRadians (x : ℝ) : ℝ := x * (π / 360)

theorem abs_halfRadians (x : ℝ) : |halfRadians x| = |x| * (π / 360) := by
  have hπ := pi_pos
  unfold halfRadians
  rw [abs_mul, abs_of_pos (by positivity : 0 < π / 360)]

/-- Half of no more than half a turn is no more than a right angle. -/
theorem abs_halfRadians_le {x : ℝ} (h : |x| ≤ 180) : |halfRadians x| ≤ π / 2 := by
  rw [abs_halfRadians]
  nlinarith [pi_pos]

/-- The square of half the chord between two places on a globe of radius 1. -/
noncomputable def haversine (P Q : Point ℝ) : ℝ :=
  sin (halfRadians (Q.lat - P.lat)) ^ 2 +
    cos (radians P.lat) * cos (radians Q.lat) * sin (halfRadians (Q.lon - P.lon)) ^ 2

/-- The great-circle distance in kilometres: twice the arcsine, on a globe of radius 6371. -/
noncomputable def greatCircle (P Q : Point ℝ) : ℝ := 12742 * arcsin √(haversine P Q)

/-- How many kilometres a degree of latitude is long. -/
noncomputable def kmPerDegree : ℝ := radians 6371

theorem kmPerDegree_mul (x : ℝ) : kmPerDegree * x = 12742 * halfRadians x := by
  unfold kmPerDegree radians halfRadians
  ring

/-- No two places are farther apart than half the circumference. -/
theorem greatCircle_le_half (P Q : Point ℝ) : greatCircle P Q ≤ 180 * kmPerDegree := by
  have harc := arcsin_le_pi_div_two √(haversine P Q)
  rw [mul_comm, kmPerDegree_mul]
  unfold greatCircle halfRadians
  linarith

theorem haversine_le (P Q : Point ℝ) : haversine P Q ≤
    1 - (cos (halfRadians (Q.lat - P.lat)) * cos (halfRadians (Q.lon - P.lon))) ^ 2 := by
  set x := halfRadians (Q.lat - P.lat) with hx
  set y := halfRadians (Q.lon - P.lon)
  have hturn : radians Q.lat - radians P.lat = 2 * x := by
    rw [hx]
    unfold radians halfRadians
    ring
  -- of two latitudes with one difference those on both sides of the equator are the widest
  have hproduct : cos (radians P.lat) * cos (radians Q.lat) ≤ cos x ^ 2 := by
    have hminus := cos_sub (radians Q.lat) (radians P.lat)
    have hplus := cos_add (radians Q.lat) (radians P.lat)
    have hone := cos_le_one (radians Q.lat + radians P.lat)
    have hdouble := cos_sq x
    rw [hturn] at hminus
    linarith
  have hsine := sin_sq_add_cos_sq x
  have hsine' := sin_sq_add_cos_sq y
  have hsquare : cos (radians P.lat) * cos (radians Q.lat) * sin y ^ 2 ≤ cos x ^ 2 * sin y ^ 2 := by
    gcongr
  unfold haversine
  rw [mul_pow]
  nlinarith

/-- The differences of two places in degrees, halved and in radians, are the sides of a right
    angle. -/
theorem halfRadians_sq (P Q : Point ℝ) :
    halfRadians (Q.lat - P.lat) ^ 2 + halfRadians (Q.lon - P.lon) ^ 2 =
      halfRadians (degrees P Q) ^ 2 := by
  have hsquare : degrees P Q ^ 2 = squaredLength P Q := by
    rw [degrees, sq_sqrt]
    unfold squaredLength
    nlinarith [mul_self_nonneg (Q.lat - P.lat), mul_self_nonneg (Q.lon - P.lon)]
  unfold halfRadians
  rw [mul_pow, mul_pow, mul_pow, hsquare, squaredLength]
  ring

/-- On the globe no place is farther away than in degrees. -/
theorem greatCircle_le (P Q : Point ℝ) : greatCircle P Q ≤ kmPerDegree * degrees P Q := by
  set ρ := halfRadians (degrees P Q) with hρ
  have hπ := pi_pos
  have hnonneg := degrees_nonneg P Q
  have hρ₀ : 0 ≤ ρ := by
    rw [hρ]
    unfold halfRadians
    positivity
  have harc : arcsin √(haversine P Q) ≤ ρ := by
    -- half the arc is at most a right angle, so only a shorter `ρ` needs the right angle
    by_cases hfar : π / 2 ≤ ρ
    · exact le_trans (arcsin_le_pi_div_two _) hfar
    · have hright := halfRadians_sq P Q
      rw [← hρ] at hright
      have hbound : √(haversine P Q) ≤ sin ρ := by
        have hcos : cos ρ ≤ cos (halfRadians (Q.lat - P.lat)) * cos (halfRadians (Q.lon - P.lon)) := by
          rcases hρ₀.lt_or_eq with hpos | hzero
          · exact cos_le_cos_mul_cos hright hpos (not_le.mp hfar).le
          · -- the two places are the same
            rw [← hzero, zero_pow two_ne_zero] at hright
            have hx := pow_eq_zero_iff two_ne_zero |>.mp
              (le_antisymm (by nlinarith) (sq_nonneg (halfRadians (Q.lat - P.lat))))
            have hy := pow_eq_zero_iff two_ne_zero |>.mp
              (le_antisymm (by nlinarith) (sq_nonneg (halfRadians (Q.lon - P.lon))))
            rw [← hzero, hx, hy, cos_zero, mul_one]
        have hcos₀ : 0 ≤ cos ρ := cos_nonneg_of_mem_Icc ⟨by linarith, (not_le.mp hfar).le⟩
        have hsin₀ : 0 ≤ sin ρ := sin_nonneg_of_nonneg_of_le_pi hρ₀ (by linarith)
        have hle := haversine_le P Q
        have hone := sin_sq_add_cos_sq ρ
        rw [sqrt_le_left hsin₀]
        nlinarith
      rw [← arcsin_sin (by linarith) (not_le.mp hfar).le]
      exact monotone_arcsin hbound
  rw [kmPerDegree_mul]
  unfold greatCircle
  linarith

/-- Along a meridian, and from a pole, the distance is that of the latitudes. -/
theorem greatCircle_of_haversine {P Q : Point ℝ}
    (h : haversine P Q = sin (halfRadians (Q.lat - P.lat)) ^ 2) (hlat : |Q.lat - P.lat| ≤ 180) :
    greatCircle P Q = kmPerDegree * |Q.lat - P.lat| := by
  have hπ := pi_pos
  have hquarter := abs_halfRadians_le hlat
  have hsine : |sin (halfRadians (Q.lat - P.lat))| = sin |halfRadians (Q.lat - P.lat)| :=
    abs_sin_eq_sin_abs_of_abs_le_pi (by linarith)
  unfold greatCircle
  rw [h, sqrt_sq_eq_abs, hsine, arcsin_sin (by linarith [abs_nonneg (halfRadians (Q.lat - P.lat))])
    hquarter, abs_halfRadians, kmPerDegree_mul, halfRadians]

/-- The converse up to a factor, which grows towards the poles, for places whose longitudes
    differ by no more than half a turn. -/
theorem degrees_le_greatCircle {P Q : Point ℝ} {c : ℝ} (hc : 0 < c) (hP : c ≤ cos (radians P.lat))
    (hQ : c ≤ cos (radians Q.lat)) (hlat : |Q.lat - P.lat| ≤ 180) (hlon : |Q.lon - P.lon| ≤ 180) :
    kmPerDegree * degrees P Q ≤ π / 2 / c * greatCircle P Q := by
  have hπ := pi_pos
  set x := halfRadians (Q.lat - P.lat) with hx
  set y := halfRadians (Q.lon - P.lon) with hy
  set ρ := halfRadians (degrees P Q) with hρ
  have hright : x ^ 2 + y ^ 2 = ρ ^ 2 := halfRadians_sq P Q
  have hsine : ∀ z, |z| ≤ π / 2 → (2 / π * z) ^ 2 ≤ sin z ^ 2 := by
    intro z hz
    have hslope := mul_abs_le_abs_sin hz
    have hsquare := pow_le_pow_left₀ (by positivity) hslope 2
    rwa [mul_pow, sq_abs, ← mul_pow, sq_abs] at hsquare
  have hxsine := hsine x (abs_halfRadians_le hlat)
  have hysine := hsine y (abs_halfRadians_le hlon)
  have hone : c ≤ 1 := le_trans hP (cos_le_one _)
  -- up to a right angle a sine is at least `2 / π` of its arc
  have hlower : (c * (2 / π * ρ)) ^ 2 ≤ haversine P Q := by
    have hproduct : c * c ≤ cos (radians P.lat) * cos (radians Q.lat) :=
      mul_le_mul hP hQ hc.le (hc.le.trans hP)
    have hfirst : c * c * (2 / π * x) ^ 2 ≤ sin x ^ 2 :=
      le_trans (mul_le_of_le_one_left (sq_nonneg _) (mul_le_one₀ hone hc.le hone)) hxsine
    have hsecond : c * c * (2 / π * y) ^ 2 ≤ cos (radians P.lat) * cos (radians Q.lat) * sin y ^ 2 :=
      mul_le_mul hproduct hysine (sq_nonneg _) ((mul_pos hc hc).le.trans hproduct)
    have hsum : (c * (2 / π * ρ)) ^ 2 = c * c * (2 / π * x) ^ 2 + c * c * (2 / π * y) ^ 2 := by
      have hexpand : (c * (2 / π * ρ)) ^ 2 = c * c * (2 / π) ^ 2 * ρ ^ 2 := by ring
      rw [hexpand, ← hright]
      ring
    rw [hsum]
    exact add_le_add hfirst hsecond
  have harc : c * (2 / π * ρ) ≤ arcsin √(haversine P Q) := by
    have hroot : c * (2 / π * ρ) ≤ √(haversine P Q) := le_sqrt_of_sq_le hlower
    have hunit : √(haversine P Q) ≤ 1 := by
      rw [sqrt_le_one]
      nlinarith [haversine_le P Q, sq_nonneg (cos x * cos y)]
    have hnonneg : 0 ≤ arcsin √(haversine P Q) := arcsin_nonneg.mpr (sqrt_nonneg _)
    have hsin := sin_le hnonneg
    rw [sin_arcsin (by linarith [sqrt_nonneg (haversine P Q)]) hunit] at hsin
    exact le_trans hroot hsin
  have hscale : 12742 * ρ = π / 2 / c * (12742 * (c * (2 / π * ρ))) := by
    field_simp
  rw [kmPerDegree_mul, ← hρ, hscale]
  unfold greatCircle
  gcongr

end Airspace.Point
