import Mathlib.Data.List.Rotate
import Airspace.Proofs.Exact
import Airspace.Proofs.Rings

/-! # Ways to write a boundary

  In exact fractions the even-odd rule sees the boundary and not how it is written down. It
  does not matter at which vertex a ring begins, in which direction it runs, whether vertices
  are repeated and whether further points of its edges are listed. And where a chord cuts a
  ring in two, every point of the ring lies in exactly one of the parts, those on the chord and
  those level with its ends included.

  All of this is read off the path around the ring: it is cut at a vertex into two paths, and
  the edges of either are counted by themselves.
-/

namespace Airspace

variable {p : Point ℚ}

/-! ### Paths in both directions -/

theorem Point.meets_refl (p a : Point ℚ) : p.meets a a = false := Point.meets_of_lon_eq rfl

/-- A path is met as often on the way back. -/
theorem Point.crosses_path_reverse (p : Point ℚ) (vs : List (Point ℚ)) :
    p.crosses (path vs.reverse) = p.crosses (path vs) := by
  induction vs with
  | nil => rfl
  | cons v vs ih =>
    cases vs with
    | nil => rfl
    | cons w vs =>
      -- the first edge of the path is the last one on the way back
      have hback : path (v :: w :: vs).reverse = path (w :: vs).reverse ++ [(w, v)] := by
        rw [List.reverse_cons, List.reverse_cons, List.append_assoc, List.singleton_append,
          path_append_cons]
        rfl
      have hforth : path (v :: w :: vs) = (v, w) :: path (w :: vs) := rfl
      rw [hback, hforth, crosses_append, crosses_singleton, crosses_cons, ih, meets_comm p w v,
        Bool.xor_comm]

/-- An edge with a further point on it counts as before. -/
theorem Point.crosses_cut {a b : Point ℚ} {t : ℚ} (h₀ : 0 ≤ t) (h₁ : t ≤ 1) :
    p.crosses (path [a, between a b t, b]) = p.crosses (path [a, b]) := by
  show p.crosses [(a, between a b t), (between a b t, b)] = p.crosses [(a, b)]
  rw [crosses_cons, crosses_singleton, crosses_singleton, ← meets_cut p a b h₀ h₁]

namespace Ring

/-- What counts is the path around the ring. -/
theorem contains_cons (v : Point ℚ) (vs : List (Point ℚ)) :
    contains (v :: vs) p = p.crosses (path (v :: vs ++ [v])) := by
  rw [contains_eq_crosses, edges_cons]

/-- A ring is a path from one of its vertices to another one and a path from there back. -/
theorem contains_eq_paths (a b : Point ℚ) (xs ys : List (Point ℚ)) :
    contains (a :: xs ++ b :: ys) p =
      (p.crosses (path (a :: xs ++ [b])) ^^ p.crosses (path (b :: ys ++ [a]))) := by
  have hback : a :: (xs ++ b :: ys) ++ [a] = a :: xs ++ b :: (ys ++ [a]) := by
    rw [List.cons_append, List.append_assoc, List.cons_append, List.cons_append]
  rw [List.cons_append, contains_cons, hback, path_append_cons, Point.crosses_append]
  rfl

/-- A ring may begin anywhere. -/
theorem contains_append_comm (xs ys : List (Point ℚ)) :
    contains (ys ++ xs) p = contains (xs ++ ys) p := by
  cases xs with
  | nil => rw [List.append_nil, List.nil_append]
  | cons x xs =>
    cases ys with
    | nil => rw [List.append_nil, List.nil_append]
    | cons y ys => rw [contains_eq_paths, contains_eq_paths, Bool.xor_comm]

theorem contains_rotate (vs : List (Point ℚ)) (n : Nat) :
    contains (vs.rotate n) p = contains vs p := by
  rw [List.rotate_eq_drop_append_take_mod, contains_append_comm, List.take_append_drop]

theorem contains_reverse (vs : List (Point ℚ)) : contains vs.reverse p = contains vs p := by
  cases vs with
  | nil => rfl
  | cons v vs =>
    have hturned : path (v :: vs.reverse ++ [v]) = path (v :: vs ++ [v]).reverse := by
      rw [List.reverse_concat, List.reverse_cons, List.cons_append]
    -- the ring on the way back ends with `v`, and may as well begin with it
    rw [List.reverse_cons, contains_append_comm, List.singleton_append, contains_cons, hturned,
      Point.crosses_path_reverse, contains_cons]

/-- The two paths, where the ring does not begin with the first of them. -/
theorem contains_around (xs ys zs : List (Point ℚ)) (a b : Point ℚ) :
    contains (xs ++ a :: ys ++ b :: zs) p =
      (p.crosses (path (a :: ys ++ [b])) ^^ p.crosses (path (b :: (zs ++ xs) ++ [a]))) := by
  have hturned : a :: ys ++ b :: zs ++ xs = a :: ys ++ b :: (zs ++ xs) := by
    rw [List.append_assoc]
    rfl
  rw [List.append_assoc, contains_append_comm, hturned, contains_eq_paths]

/-- Between two vertices a ring may take another path that counts the same. -/
theorem contains_congr (xs zs : List (Point ℚ)) {ys : List (Point ℚ)} {a b : Point ℚ}
    (h : p.crosses (path (a :: ys ++ [b])) = p.crosses (path [a, b])) :
    contains (xs ++ a :: ys ++ b :: zs) p = contains (xs ++ a :: b :: zs) p := by
  have hstraight := contains_around (p := p) xs [] zs a b
  rw [List.append_assoc] at hstraight
  rw [contains_around, h]
  exact hstraight.symm

/-- The way from a vertex to itself is no way. -/
theorem contains_repeated (xs ys : List (Point ℚ)) (v : Point ℚ) :
    contains (xs ++ v :: v :: ys) p = contains (xs ++ v :: ys) p := by
  have hpath : path (v :: (v :: ys ++ xs) ++ [v]) = (v, v) :: path (v :: (ys ++ xs) ++ [v]) := rfl
  rw [contains_append_comm, contains_append_comm (v :: ys) xs, List.cons_append, List.cons_append,
    contains_cons, contains_cons, ← List.cons_append, hpath, Point.crosses_cons,
    Point.meets_refl, Bool.false_xor]
  rfl

variable {t : ℚ}

theorem contains_inserted (xs ys : List (Point ℚ)) (a b : Point ℚ) (h₀ : 0 ≤ t) (h₁ : t ≤ 1) :
    contains (xs ++ a :: Point.between a b t :: b :: ys) p = contains (xs ++ a :: b :: ys) p := by
  have hcut : p.crosses (path (a :: [Point.between a b t] ++ [b])) = p.crosses (path [a, b]) :=
    Point.crosses_cut h₀ h₁
  have hsame := contains_congr xs ys hcut
  rw [List.append_assoc] at hsame
  exact hsame

theorem contains_inserted_last (xs : List (Point ℚ)) (a b : Point ℚ) (h₀ : 0 ≤ t) (h₁ : t ≤ 1) :
    contains (a :: xs ++ [b, Point.between b a t]) p = contains (a :: xs ++ [b]) p := by
  rw [contains_append_comm, contains_append_comm [b]]
  exact contains_inserted [] xs b a h₀ h₁

/-- The two parts of a ring on either side of a chord share the chord, and it counts twice or
    not at all. -/
theorem contains_chord (xs ys zs : List (Point ℚ)) (a b : Point ℚ) :
    contains (xs ++ a :: ys ++ b :: zs) p =
      (contains (a :: ys ++ [b]) p ^^ contains (xs ++ a :: b :: zs) p) := by
  -- the chord leads back to `a` in the near part, and on to `b` in the other one
  have hnear : contains (a :: ys ++ [b]) p =
      (p.crosses (path (a :: ys ++ [b])) ^^ p.meets b a) := by
    rw [contains_eq_paths]
    exact congrArg (_ ^^ ·) (Point.crosses_singleton p (b, a))
  have hfar : contains (xs ++ a :: b :: zs) p =
      (p.meets b a ^^ p.crosses (path (b :: (zs ++ xs) ++ [a]))) := by
    have hpaths := contains_around (p := p) xs [] zs a b
    rw [List.append_assoc] at hpaths
    rw [Point.meets_comm p b a]
    exact hpaths.trans (congrArg (· ^^ _) (Point.crosses_singleton p (a, b)))
  rw [contains_around, hnear, hfar, Bool.xor_assoc, ← Bool.xor_assoc (p.meets b a),
    Bool.xor_self, Bool.false_xor]

end Ring

/-! ### Rings of a region -/

namespace Region

theorem sweep_exact (p : Point ℚ) (vs : List (Point ℚ)) : sweep p none vs = ringHits p vs :=
  sweep_eq_ringHits p.meets_refl (z := .null) rfl vs

/-- A ring that stands alone is tested by its parity, be it as short as may be. -/
theorem contains_ring {vs : List (Point ℚ)} (hvs : ∀ v ∈ vs, v.isNull = false) :
    contains vs p 0 = Ring.contains vs p := by
  match vs with
  | [] => rfl
  | [v] =>
    show false = p.crosses [(v, v)]
    rw [Point.crosses_singleton, Point.meets_refl]
  | [v, w] =>
    show false = p.crosses [(v, w), (w, v)]
    rw [Point.crosses_cons, Point.crosses_singleton, Point.meets_comm p v w, Bool.xor_self]
  | u :: v :: w :: vs =>
    rw [contains_eq (Nat.le_add_left 3 _), sweep_exact, ringHits_of_solid hvs]
    rfl

end Region

/-! ### One boundary, many ways to write it -/

/-- Whether a point lies in a ring does not depend on how the boundary is written: not on where
    it begins, on its direction, on repeated vertices and on further points listed on its
    edges, the edge back to the beginning included. A chord between two vertices cuts a ring
    into two parts such that each point of the ring lies in exactly one of them, and each other
    point in neither or in both. All this is said of rings of any length, and a ring without a
    separator in it is tested by this rule. -/
theorem Ring.contains_however_written (p : Point ℚ) :
    (∀ vs, (∀ v ∈ vs, v.isNull = false) → Region.contains vs p 0 = Ring.contains vs p) ∧
      (∀ vs n, Ring.contains (vs.rotate n) p = Ring.contains vs p) ∧
      (∀ vs, Ring.contains vs.reverse p = Ring.contains vs p) ∧
      (∀ xs v ys, Ring.contains (xs ++ v :: v :: ys) p = Ring.contains (xs ++ v :: ys) p) ∧
      (∀ xs a b ys t, 0 ≤ t → t ≤ 1 → Ring.contains (xs ++ a :: .between a b t :: b :: ys) p =
        Ring.contains (xs ++ a :: b :: ys) p) ∧
      (∀ a xs b t, 0 ≤ t → t ≤ 1 → Ring.contains (a :: xs ++ [b, .between b a t]) p =
        Ring.contains (a :: xs ++ [b]) p) ∧
      ∀ xs a ys b zs, Ring.contains (xs ++ a :: ys ++ b :: zs) p =
        (Ring.contains (a :: ys ++ [b]) p ^^ Ring.contains (xs ++ a :: b :: zs) p) := by
  refine ⟨fun vs hvs => Region.contains_ring hvs, contains_rotate, contains_reverse,
    fun xs v ys => contains_repeated xs ys v, ?_, ?_, fun xs a ys b zs =>
    contains_chord xs ys zs a b⟩
  · intro xs a b ys t h₀ h₁
    exact contains_inserted xs ys a b h₀ h₁
  · intro a xs b t h₀ h₁
    exact contains_inserted_last xs a b h₀ h₁

/-- A field and the point in its middle, written backwards, with a point listed in the middle of
    an edge, and cut in two through the point. -/
theorem Ring.contains_however_written_field :
    let field : List (Point ℚ) := [⟨1, 1⟩, ⟨1, 9⟩, ⟨9, 9⟩, ⟨9, 1⟩]
    let middle : Point ℚ := ⟨5, 5⟩
    Region.contains field middle 0 = true ∧ Ring.contains field.reverse middle = true ∧
      Ring.contains [⟨1, 1⟩, ⟨1, 9⟩, ⟨5, 9⟩, ⟨9, 9⟩, ⟨9, 1⟩] middle = true ∧
      Ring.contains [⟨1, 1⟩, ⟨1, 9⟩, ⟨9, 9⟩, ⟨9, 1⟩, ⟨5, 1⟩] middle = true ∧
      (Ring.contains [⟨1, 1⟩, ⟨1, 9⟩, ⟨9, 9⟩] middle ^^
        Ring.contains [⟨1, 1⟩, ⟨9, 9⟩, ⟨9, 1⟩] middle) = true := by
  intro field middle
  obtain ⟨hregion, -, hreverse, -, hinserted, hlast, hchord⟩ :=
    Ring.contains_however_written middle
  have hfield : Ring.contains field middle = true := by decide +kernel
  have hhalf : (0 : ℚ) ≤ 1 / 2 ∧ (1 / 2 : ℚ) ≤ 1 := by decide +kernel
  refine ⟨(hregion field (by decide +kernel)).trans hfield, (hreverse field).trans hfield,
    ?_, ?_, ?_⟩
  · have heast : Point.between (⟨1, 9⟩ : Point ℚ) ⟨9, 9⟩ (1 / 2) = ⟨5, 9⟩ := by
      unfold Point.between
      norm_num
    exact heast ▸ (hinserted [⟨1, 1⟩] ⟨1, 9⟩ ⟨9, 9⟩ [⟨9, 1⟩] (1 / 2) hhalf.1 hhalf.2).trans hfield
  · have hwest : Point.between (⟨9, 1⟩ : Point ℚ) ⟨1, 1⟩ (1 / 2) = ⟨5, 1⟩ := by
      unfold Point.between
      norm_num
    exact hwest ▸ (hlast ⟨1, 1⟩ [⟨1, 9⟩, ⟨9, 9⟩] ⟨9, 1⟩ (1 / 2) hhalf.1 hhalf.2).trans hfield
  · exact (hchord [] ⟨1, 1⟩ [⟨1, 9⟩] ⟨9, 9⟩ [⟨9, 1⟩]).symm.trans hfield

end Airspace
