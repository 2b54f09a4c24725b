import Airspace.Proofs.Exact
import Airspace.Proofs.Nearest
import Airspace.Sphere

/-! # The foot of the perpendicular in exact fractions

  The distance to a segment is measured at the foot of the perpendicular, kept within the
  segment. In exact fractions no point of the segment is nearer in degrees, and it makes no
  difference which end of the segment comes first. A segment too short for that counts as its
  first end, which is as near as any of its points but for the little there is of it.

  The only divisor is the squared length, and no segment that is so short as to have none is
  divided by.
-/

namespace Airspace.Point

variable {p a b : Point ℚ}

/-! ### Long and short segments -/

theorem nearestOn_of_short (h : squaredLength a b < 1e-9) : p.nearestOn a b = a := by
  unfold nearestOn
  rw [if_pos h]

theorem nearestOn_of_long (h : 1e-9 ≤ squaredLength a b) :
    p.nearestOn a b = between a b (clampUnit (footRatio p a b)) := by
  unfold nearestOn
  rw [if_neg (not_lt.mpr h)]

theorem squaredLength_pos_of_long (h : 1e-9 ≤ squaredLength a b) : 0 < squaredLength a b :=
  lt_of_lt_of_le (by norm_num) h

/-! ### The other direction -/

theorem squaredLength_comm (a b : Point ℚ) : squaredLength b a = squaredLength a b := by
  unfold squaredLength
  ring

/-- The ratio of the foot counts from the end that comes first. -/
theorem footRatio_comm (p : Point ℚ) (h : squaredLength a b ≠ 0) :
    footRatio p b a = 1 - footRatio p a b := by
  have hdots : (p.lat - b.lat) * (a.lat - b.lat) + (p.lon - b.lon) * (a.lon - b.lon) =
      squaredLength a b - ((p.lat - a.lat) * (b.lat - a.lat) +
        (p.lon - a.lon) * (b.lon - a.lon)) := by
    unfold squaredLength
    ring
  unfold footRatio
  rw [squaredLength_comm, hdots, sub_div, div_self h]

/-- The two ends of the unit are treated alike. -/
theorem clampUnit_one_sub (t : ℚ) : clampUnit (1 - t) = 1 - clampUnit t := by
  unfold clampUnit
  split_ifs <;> linarith

/-- The nearest point does not depend on the direction of the segment. -/
theorem nearestOn_comm (p : Point ℚ) (h : 1e-9 ≤ squaredLength a b) :
    p.nearestOn b a = p.nearestOn a b := by
  have hback : 1e-9 ≤ squaredLength b a := squaredLength_comm a b ▸ h
  rw [nearestOn_of_long hback, nearestOn_of_long h,
    footRatio_comm p (squaredLength_pos_of_long h).ne', clampUnit_one_sub, between_comm]

/-! ### The real plane -/

/-- The place in the real plane. -/
def real (p : Point ℚ) : Point ℝ := ⟨p.lat, p.lon⟩

theorem squaredLength_real (a b : Point ℚ) :
    squaredLength a.real b.real = ((squaredLength a b : ℚ) : ℝ) := by
  simp only [squaredLength, real]
  push_cast
  rfl

theorem footRatio_real (p a b : Point ℚ) :
    footRatio p.real a.real b.real = ((footRatio p a b : ℚ) : ℝ) := by
  unfold footRatio
  rw [squaredLength_real]
  simp only [real]
  push_cast
  rfl

theorem clampUnit_real (t : ℚ) : clampUnit (t : ℝ) = ((clampUnit t : ℚ) : ℝ) := by
  have hlow : (t : ℝ) < 0 ↔ t < 0 := by exact_mod_cast Iff.rfl
  have hhigh : 1 < (t : ℝ) ↔ 1 < t := by exact_mod_cast Iff.rfl
  unfold clampUnit
  simp only [hlow, hhigh]
  split_ifs <;> simp

theorem between_real (a b : Point ℚ) (t : ℚ) :
    between a.real b.real (t : ℝ) = (between a b t).real := by
  simp only [between, real]
  push_cast
  rfl

/-- No point of the real segment is nearer than the foot that fractions give. -/
theorem squaredLength_nearestOn_le (p : Point ℚ) (h : 1e-9 ≤ squaredLength a b) {s : ℝ}
    (h₀ : 0 ≤ s) (h₁ : s ≤ 1) :
    squaredLength p.real (p.nearestOn a b).real ≤
      squaredLength p.real (between a.real b.real s) := by
  have hpositive : 0 < squaredLength a.real b.real := by
    rw [squaredLength_real]
    exact_mod_cast squaredLength_pos_of_long h
  rw [nearestOn_of_long h, ← between_real, ← clampUnit_real, ← footRatio_real]
  exact squaredLength_foot_le hpositive h₀ h₁

/-- A short segment does not lead far from its first end. -/
theorem degrees_between_lt (h : squaredLength a b < 1e-9) {s : ℝ} (h₀ : 0 ≤ s) (h₁ : s ≤ 1) :
    degrees a.real (between a.real b.real s) < √1e-9 := by
  have hshort : squaredLength a.real b.real < 1e-9 := by
    rw [squaredLength_real]
    have hcast : ((1e-9 : ℚ) : ℝ) = 1e-9 := by norm_num
    rw [← hcast]
    exact_mod_cast h
  have hbegin : between a.real b.real 0 = a.real := by simp [between]
  have hratio : degrees a.real (between a.real b.real s) = s * degrees a.real b.real := by
    have hsegment := degrees_between a.real b.real 0 s
    rwa [hbegin, sub_zero, abs_of_nonneg h₀] at hsegment
  calc degrees a.real (between a.real b.real s)
      = s * degrees a.real b.real := hratio
    _ ≤ degrees a.real b.real := mul_le_of_le_one_left (degrees_nonneg _ _) h₁
    _ < √1e-9 := Real.sqrt_lt_sqrt_iff_of_pos (by norm_num) |>.mpr hshort

/-! ### The divisor -/

/-- The nearest point by a division of one's own, while all else stays exact. -/
def nearestOnBy (division : ℚ → ℚ → ℚ) (p a b : Point ℚ) : Point ℚ :=
  letI : Div ℚ := ⟨division⟩
  nearestOn p a b

/-- What a division makes of a divisor that is zero does not show. -/
theorem nearestOnBy_eq {division : ℚ → ℚ → ℚ} (h : ∀ x y, y ≠ 0 → division x y = x / y)
    (p a b : Point ℚ) : nearestOnBy division p a b = p.nearestOn a b := by
  by_cases hshort : squaredLength a b < 1e-9
  · rw [nearestOn_of_short hshort]
    unfold nearestOnBy nearestOn
    rw [if_pos hshort]
  · have hlong := not_lt.mp hshort
    rw [nearestOn_of_long hlong]
    unfold nearestOnBy nearestOn
    rw [if_neg hshort]
    have hratio := h ((p.lat - a.lat) * (b.lat - a.lat) + (p.lon - a.lon) * (b.lon - a.lon))
      (squaredLength a b) (squaredLength_pos_of_long hlong).ne'
    exact congrArg (fun ratio => between a b (clampUnit ratio)) hratio

/-- The distance to a segment is measured at its nearest point. Unless the segment is short,
    that is a point of it than which no other is nearer, in whichever direction the segment is
    taken; a short segment counts as its first end, and no point of it is far from there. Nowhere
    is divided by zero. -/
theorem nearestOn_nearest (p a b : Point ℚ) :
    (∀ (g : Globe) (q c d : Position), g.distanceToSegment q c d = g.distance q (q.nearestOn c d)) ∧
      (1e-9 ≤ squaredLength a b →
        (∃ t, 0 ≤ t ∧ t ≤ 1 ∧ p.nearestOn a b = between a b t) ∧
          (∀ s : ℝ, 0 ≤ s → s ≤ 1 → squaredLength p.real (p.nearestOn a b).real ≤
            squaredLength p.real (between a.real b.real s)) ∧
          p.nearestOn b a = p.nearestOn a b) ∧
      (squaredLength a b < 1e-9 →
        p.nearestOn a b = a ∧
          ∀ s : ℝ, 0 ≤ s → s ≤ 1 → degrees a.real (between a.real b.real s) < √1e-9) ∧
      ∀ division : ℚ → ℚ → ℚ, (∀ x y, y ≠ 0 → division x y = x / y) →
        nearestOnBy division p a b = p.nearestOn a b := by
  refine ⟨fun _ _ _ _ => rfl, ?_, ?_, fun _ h => nearestOnBy_eq h p a b⟩
  · intro hlong
    obtain ⟨h₀, h₁⟩ := clampUnit_mem (footRatio p a b)
    refine ⟨⟨_, h₀, h₁, nearestOn_of_long hlong⟩, ?_, nearestOn_comm p hlong⟩
    intro s hs₀ hs₁
    exact squaredLength_nearestOn_le p hlong hs₀ hs₁
  · intro hshort
    refine ⟨nearestOn_of_short hshort, ?_⟩
    intro s hs₀ hs₁
    exact degrees_between_lt hshort hs₀ hs₁

/-- Before, beside and beyond a slope, in both directions, and at a slope that is hardly there. -/
theorem nearestOn_nearest_slope :
    let foot (p : Point ℚ) := p.nearestOn ⟨0, 0⟩ ⟨2, 1⟩
    foot ⟨-1, 1⟩ = ⟨0, 0⟩ ∧ foot ⟨0, 5 / 2⟩ = ⟨1, 1 / 2⟩ ∧ foot ⟨3, 3⟩ = ⟨2, 1⟩ ∧
      (⟨0, 5 / 2⟩ : Point ℚ).nearestOn ⟨2, 1⟩ ⟨0, 0⟩ = ⟨1, 1 / 2⟩ ∧
      squaredLength (⟨0, 5 / 2⟩ : Point ℚ).real (⟨1, 1 / 2⟩ : Point ℚ).real ≤
        squaredLength (⟨0, 5 / 2⟩ : Point ℚ).real
          (between (⟨0, 0⟩ : Point ℚ).real (⟨2, 1⟩ : Point ℚ).real (√2 / 2)) ∧
      (⟨3, 3⟩ : Point ℚ).nearestOn ⟨0, 0⟩ ⟨2e-6, 1e-6⟩ = ⟨0, 0⟩ ∧
      nearestOnBy (fun x y => if y = 0 then 7 else x / y) ⟨3, 3⟩ ⟨0, 0⟩ ⟨0, 0⟩ = ⟨0, 0⟩ := by
  intro foot
  have hlong : (1e-9 : ℚ) ≤ squaredLength ⟨0, 0⟩ ⟨2, 1⟩ := by norm_num [squaredLength]
  have hfoot : ∀ p, foot p = between ⟨0, 0⟩ ⟨2, 1⟩ (clampUnit ((2 * p.lat + p.lon) / 5)) := by
    intro p
    have hratio : footRatio p ⟨0, 0⟩ ⟨2, 1⟩ = (2 * p.lat + p.lon) / 5 := by
      norm_num [footRatio, squaredLength]
      ring
    rw [← hratio]
    exact nearestOn_of_long hlong
  have hbeside : foot ⟨0, 5 / 2⟩ = ⟨1, 1 / 2⟩ := by norm_num [hfoot, between, clampUnit]
  obtain ⟨-, hslope, -, -⟩ := nearestOn_nearest ⟨0, 5 / 2⟩ ⟨0, 0⟩ ⟨2, 1⟩
  obtain ⟨-, hnearest, hback⟩ := hslope hlong
  obtain ⟨-, -, hshort, -⟩ := nearestOn_nearest ⟨3, 3⟩ ⟨0, 0⟩ ⟨2e-6, 1e-6⟩
  obtain ⟨-, -, hpoint, hdivision⟩ := nearestOn_nearest ⟨3, 3⟩ ⟨0, 0⟩ ⟨0, 0⟩
  refine ⟨by norm_num [hfoot, between, clampUnit], hbeside,
    by norm_num [hfoot, between, clampUnit], hback.trans hbeside, ?_,
    (hshort (by norm_num [squaredLength])).1, ?_⟩
  · have hroot : √2 / 2 ≤ 1 := by
      rw [div_le_one (by norm_num), Real.sqrt_le_left (by norm_num)]
      norm_num
    have hle := hnearest (√2 / 2) (by positivity) hroot
    rwa [show (⟨0, 5 / 2⟩ : Point ℚ).nearestOn ⟨0, 0⟩ ⟨2, 1⟩ = ⟨1, 1 / 2⟩ from hbeside] at hle
  · rw [hdivision _ fun x y hy => if_neg hy]
    exact (hpoint (by norm_num [squaredLength])).1

end Airspace.Point
