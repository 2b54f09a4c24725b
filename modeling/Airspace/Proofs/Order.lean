import Airspace.Proofs.Double
import Mathlib.Data.Prod.Lex
import Mathlib.Order.Compare

/-! # The order of doubles

  Doubles that are numbers are ordered like triples of integers: first by sign and
  magnitude (infinite, finite or zero), then by the exponent, then by the digits. Only
  not-a-number has no place in this order. So what is below a number is below everything
  that is not below that number.
-/

open Float.Model Float.Model.UnpackedFloat

namespace Airspace.Double

/-! ### The order of unpacked values -/

/-- The place of a value in the order; below zero exponents and digits count downwards. -/
def rank? : UnpackedFloat → Option (Int ×ₗ Int ×ₗ Int)
  | .notANumber => none
  | .infinity .negative => some (toLex (-2, toLex (0, 0)))
  | .finite .negative m e _ => some (toLex (-1, toLex (-e, -(m : Int))))
  | .zero _ => some (toLex (0, toLex (0, 0)))
  | .finite .positive m e _ => some (toLex (1, toLex (e, (m : Int))))
  | .infinity .positive => some (toLex (2, toLex (0, 0)))

theorem compare_neg (a b : Int) : compare (-a) (-b) = (compare a b).swap := by
  rw [Int.compare_swap]
  simp only [compare, compareOfLessAndEq]
  grind

theorem compare_natCast (m n : Nat) : compare (m : Int) (n : Int) = compare m n := by
  simp only [compare, compareOfLessAndEq]
  grind

/-- Values compare as their places do, and there is no comparison without a place. -/
theorem compare_eq_rank (u v : UnpackedFloat) :
    UnpackedFloat.compare u v = (rank? u).bind fun a => (rank? v).map (compare a) := by
  cases u with
  | notANumber => rfl
  | infinity s =>
    cases v with
    | infinity t => cases s <;> cases t <;> rfl
    | finite t => cases s <;> cases t <;> rfl
    | _ => cases s <;> rfl
  | zero s =>
    cases v with
    | infinity t => cases t <;> rfl
    | finite t => cases t <;> rfl
    | _ => rfl
  | finite s m e _ =>
    cases v with
    | infinity t => cases s <;> cases t <;> rfl
    | finite t n d _ =>
      -- within one sign the exponents decide, and the digits where they are equal
      cases s <;> cases t
      · show some ((compare e d).then (compare m n)).swap =
          some ((compare (-e) (-d)).then (compare (-(m : Int)) (-(n : Int))))
        rw [compare_neg, compare_neg, compare_natCast, Ordering.swap_then]
      · rfl
      · rfl
      · show some ((compare e d).then (compare m n)) =
          some ((compare e d).then (compare (m : Int) (n : Int)))
        rw [compare_natCast]
    | _ => cases s <;> rfl

/-! ### The order of doubles -/

variable {a b c : Float}

theorem lt_iff_rank : a < b ↔
    ∃ x y, rank? a.toModel.unpack = some x ∧ rank? b.toModel.unpack = some y ∧ x < y := by
  rw [lt_iff_compare, compare_eq_rank]
  simp only [Option.bind_eq_some_iff, Option.map_eq_some_iff, compare_lt_iff_lt]
  grind

theorem le_iff_rank : a ≤ b ↔
    ∃ x y, rank? a.toModel.unpack = some x ∧ rank? b.toModel.unpack = some y ∧ x ≤ y := by
  rw [le_iff_compare, compare_eq_rank]
  cases rank? a.toModel.unpack <;> cases rank? b.toModel.unpack <;>
    simp [← Ordering.ne_gt_iff_isLE, compare_le_iff_le]

theorem lt_of_lt_of_le (hab : a < b) (hbc : b ≤ c) : a < c := by
  obtain ⟨x, y, hx, hy, hxy⟩ := lt_iff_rank.mp hab
  obtain ⟨y', z, hy', hz, hyz⟩ := le_iff_rank.mp hbc
  obtain rfl : y = y' := Option.some.inj (hy.symm.trans hy')
  exact lt_iff_rank.mpr ⟨x, z, hx, hz, hxy.trans_le hyz⟩

end Airspace.Double
