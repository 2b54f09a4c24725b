import Mathlib.Algebra.Order.Field.Rat
import Mathlib.Tactic.Linarith
import Mathlib.Tactic.FieldSimp
import Mathlib.Tactic.Ring
import Airspace.Plane.Crossing
import Airspace.Plane.Segment

/-! # Crossings in exact fractions

  In exact fractions the parts of the crossing test agree with each other. Where an edge covers
  the longitude of a point, all that is left to ask is on which side of the edge the point
  lies, and the answer does not depend on the direction of the edge. Everything else about
  crossings follows from this one equation.
-/

namespace Airspace

theorem least_eq_min (x y : ℚ) : least x y = min x y := by
  unfold least
  rw [beq_self_eq_true, if_pos rfl, min_def]
  split_ifs <;> linarith

theorem greatest_eq_max (x y : ℚ) : greatest x y = max x y := by
  unfold greatest
  rw [beq_self_eq_true, if_pos rfl, max_def]
  split_ifs <;> linarith

namespace Point

variable {p a b : Point ℚ}

/-- The area that tells on which side of the line through `a` and `b` the point `p` lies. Where
    `b` is at the larger longitude, it is not negative at the points on the line and at those
    of smaller latitude. -/
def side (p a b : Point ℚ) : ℚ :=
  (p.lon - a.lon) * (b.lat - a.lat) - (p.lat - a.lat) * (b.lon - a.lon)

theorem le_latitudeOn_iff (h : a.lon < b.lon) : p.lat ≤ latitudeOn p a b ↔ 0 ≤ side p a b := by
  have hpositive : 0 < b.lon - a.lon := sub_pos.mpr h
  rw [latitudeOn, ← sub_le_iff_le_add, le_div_iff₀ hpositive, side, sub_nonneg]

/-- The line through two points does not depend on their order. -/
theorem latitudeOn_comm (h : a.lon ≠ b.lon) : latitudeOn p a b = latitudeOn p b a := by
  have hforth : b.lon - a.lon ≠ 0 := sub_ne_zero.mpr h.symm
  have hback : a.lon - b.lon ≠ 0 := sub_ne_zero.mpr h
  unfold latitudeOn
  field_simp
  ring

theorem meets_comm (p a b : Point ℚ) : p.meets a b = p.meets b a := by
  unfold meets
  by_cases h : a.lon = b.lon
  · simp [h]
  · rw [latitudeOn_comm h, least_eq_min, least_eq_min, greatest_eq_max, greatest_eq_max,
      greatest_eq_max, greatest_eq_max, min_comm a.lon, max_comm a.lon, max_comm a.lat,
      bne_comm (a := a.lon), Bool.beq_comm (a := a.lat)]

theorem meets_of_lon_eq (h : a.lon = b.lon) : p.meets a b = false := by
  simp [meets, h]

/-- The side is a balance of the distances from the two ends, in either component. -/
theorem side_eq (p a b : Point ℚ) :
    side p a b = (p.lon - a.lon) * (b.lat - p.lat) + (a.lat - p.lat) * (b.lon - p.lon) := by
  unfold side
  ring

theorem side_nonneg (hlow : a.lon ≤ p.lon) (hhigh : p.lon ≤ b.lon) (ha : p.lat ≤ a.lat)
    (hb : p.lat ≤ b.lat) : 0 ≤ side p a b := by
  rw [side_eq]
  exact add_nonneg (mul_nonneg (sub_nonneg.mpr hlow) (sub_nonneg.mpr hb))
    (mul_nonneg (sub_nonneg.mpr ha) (sub_nonneg.mpr hhigh))

theorem side_neg (hlow : a.lon < p.lon) (hhigh : p.lon ≤ b.lon) (ha : a.lat < p.lat)
    (hb : b.lat < p.lat) : side p a b < 0 := by
  rw [side_eq]
  have hfirst : (p.lon - a.lon) * (b.lat - p.lat) < 0 :=
    mul_neg_of_pos_of_neg (sub_pos.mpr hlow) (sub_neg.mpr hb)
  have hsecond : (a.lat - p.lat) * (b.lon - p.lon) ≤ 0 :=
    mul_nonpos_of_nonpos_of_nonneg (sub_nonpos.mpr ha.le) (sub_nonneg.mpr hhigh)
  linarith

/-- The ray meets an edge towards larger longitudes if the edge covers the longitude of its
    point, the upper end included, and the point is not beyond the edge. -/
theorem meets_iff (h : a.lon < b.lon) :
    p.meets a b = true ↔ a.lon < p.lon ∧ p.lon ≤ b.lon ∧ 0 ≤ side p a b := by
  unfold meets
  rw [least_eq_min, greatest_eq_max, greatest_eq_max, min_eq_left h.le, max_eq_right h.le]
  simp only [Bool.and_eq_true, decide_eq_true_eq, bne_iff_ne, Bool.or_eq_true, beq_iff_eq,
    le_latitudeOn_iff h, le_max_iff]
  constructor
  · rintro ⟨⟨⟨⟨hlow, hhigh⟩, hlat⟩, -⟩, hside⟩
    refine ⟨hlow, hhigh, ?_⟩
    rcases hside with hlevel | hside
    · -- an edge along a meridian is met from all latitudes up to its own
      have hle : p.lat ≤ a.lat := by
        rcases hlat with ha | hb
        · exact ha
        · exact hlevel ▸ hb
      exact side_nonneg hlow.le hhigh hle (hlevel ▸ hle)
    · exact hside
  · rintro ⟨hlow, hhigh, hside⟩
    refine ⟨⟨⟨⟨hlow, hhigh⟩, ?_⟩, h.ne⟩, .inr hside⟩
    by_contra hbeyond
    obtain ⟨ha, hb⟩ := not_or.mp hbeyond
    have hneg := side_neg hlow hhigh (not_le.mp ha) (not_le.mp hb)
    linarith

/-! ### Points of an edge -/

theorem between_zero (a b : Point ℚ) : between a b 0 = a := by simp [between]

theorem between_one (a b : Point ℚ) : between a b 1 = b := by simp [between]

theorem between_comm (a b : Point ℚ) (t : ℚ) : between b a (1 - t) = between a b t := by
  unfold between
  congr 1 <;> ring

theorem side_between_left (p a b : Point ℚ) (t : ℚ) :
    side p a (between a b t) = t * side p a b := by
  unfold side between
  ring

theorem side_between_right (p a b : Point ℚ) (t : ℚ) :
    side p (between a b t) b = (1 - t) * side p a b := by
  unfold side between
  ring

variable {t : ℚ}

/-- An edge that is cut inside is met exactly if one of its parts is, and never are both: the
    cut itself belongs to the lower part. -/
theorem meets_cut_of_lt (h : a.lon < b.lon) (h₀ : 0 < t) (h₁ : t < 1) :
    p.meets a b = (p.meets a (between a b t) ^^ p.meets (between a b t) b) := by
  have hpositive : 0 < b.lon - a.lon := sub_pos.mpr h
  have hleft : a.lon < (between a b t).lon := by
    show a.lon < a.lon + t * (b.lon - a.lon)
    nlinarith
  have hright : (between a b t).lon < b.lon := by
    show a.lon + t * (b.lon - a.lon) < b.lon
    nlinarith
  have hlower : 0 ≤ side p a (between a b t) ↔ 0 ≤ side p a b := by
    rw [side_between_left, mul_nonneg_iff_of_pos_left h₀]
  have hupper : 0 ≤ side p (between a b t) b ↔ 0 ≤ side p a b := by
    rw [side_between_right, mul_nonneg_iff_of_pos_left (sub_pos.mpr h₁)]
  -- the part that does not cover the longitude of the point is missed
  by_cases hp : p.lon ≤ (between a b t).lon
  · have hmiss : p.meets (between a b t) b = false := by
      rw [Bool.eq_false_iff, ne_eq, meets_iff hright]
      exact fun hmeets => absurd hmeets.1 (not_lt.mpr hp)
    rw [hmiss, Bool.xor_false, Bool.eq_iff_iff, meets_iff h, meets_iff hleft, hlower]
    exact ⟨fun ⟨hlow, _, hside⟩ => ⟨hlow, hp, hside⟩,
      fun ⟨hlow, _, hside⟩ => ⟨hlow, hp.trans hright.le, hside⟩⟩
  · have hmiss : p.meets a (between a b t) = false := by
      rw [Bool.eq_false_iff, ne_eq, meets_iff hleft]
      exact fun hmeets => hp hmeets.2.1
    rw [hmiss, Bool.false_xor, Bool.eq_iff_iff, meets_iff h, meets_iff hright, hupper]
    have hbehind := not_le.mp hp
    exact ⟨fun ⟨_, hhigh, hside⟩ => ⟨hbehind, hhigh, hside⟩,
      fun ⟨_, hhigh, hside⟩ => ⟨hleft.trans hbehind, hhigh, hside⟩⟩

theorem meets_cut (p a b : Point ℚ) (h₀ : 0 ≤ t) (h₁ : t ≤ 1) :
    p.meets a b = (p.meets a (between a b t) ^^ p.meets (between a b t) b) := by
  have hself : ∀ c : Point ℚ, p.meets c c = false := fun c => meets_of_lon_eq rfl
  rcases h₀.eq_or_lt with rfl | h₀
  · rw [between_zero, hself, Bool.false_xor]
  rcases h₁.eq_or_lt with rfl | h₁
  · rw [between_one, hself, Bool.xor_false]
  rcases lt_trichotomy a.lon b.lon with h | h | h
  · exact meets_cut_of_lt h h₀ h₁
  · -- all points of the edge are at the same longitude
    have hq : (between a b t).lon = a.lon := by
      show a.lon + t * (b.lon - a.lon) = a.lon
      rw [h]
      ring
    rw [meets_of_lon_eq h, meets_of_lon_eq hq.symm, meets_of_lon_eq (hq.trans h)]
    rfl
  · have hback := meets_cut_of_lt (p := p) h (sub_pos.mpr h₁) (sub_lt_self 1 h₀)
    rw [between_comm] at hback
    rw [meets_comm, hback, meets_comm p b, meets_comm p (between a b t) a, Bool.xor_comm]

/-! ### Points before an edge -/

/-- From a point that is not beyond either end of an edge, the ray meets the edge exactly if
    the ends are on different sides of the ray. -/
theorem meets_of_before (ha : p.lat ≤ a.lat) (hb : p.lat ≤ b.lat) :
    p.meets a b = (decide (a.lon < p.lon) ^^ decide (b.lon < p.lon)) := by
  have hforth : ∀ {a b : Point ℚ}, p.lat ≤ a.lat → p.lat ≤ b.lat → a.lon < b.lon →
      p.meets a b = (decide (a.lon < p.lon) ^^ decide (b.lon < p.lon)) := by
    intro a b ha hb h
    rw [Bool.eq_iff_iff, meets_iff h]
    by_cases hlow : a.lon < p.lon
    · by_cases hhigh : b.lon < p.lon
      · simp [hlow, hhigh]
      · have hcovers := not_lt.mp hhigh
        simp [hlow, hhigh, hcovers, side_nonneg hlow.le hcovers ha hb]
    · have hhigh : ¬ b.lon < p.lon := fun hlt => hlow (h.trans hlt)
      simp [hlow, hhigh]
  rcases lt_trichotomy a.lon b.lon with h | h | h
  · exact hforth ha hb h
  · rw [meets_of_lon_eq h, h, Bool.xor_self]
  · rw [meets_comm, hforth hb ha h, Bool.xor_comm]

/-- An edge that the ray meets covers the longitude of its point and is not all before it. -/
theorem covers_of_meets (h : p.meets a b = true) :
    (a.lon < p.lon ∨ b.lon < p.lon) ∧ (p.lon ≤ a.lon ∨ p.lon ≤ b.lon) ∧
      (p.lat ≤ a.lat ∨ p.lat ≤ b.lat) := by
  unfold meets at h
  rw [least_eq_min, greatest_eq_max, greatest_eq_max] at h
  simp only [Bool.and_eq_true, decide_eq_true_eq, min_lt_iff, le_max_iff] at h
  obtain ⟨⟨⟨⟨hlow, hhigh⟩, hlat⟩, -⟩, -⟩ := h
  exact ⟨hlow, hhigh, hlat⟩

end Point

end Airspace
