import Airspace.Plane.Crossing

/-! # Doubles up to the sign of zero

  Two doubles that compare as equal are the same number, or the two zeros. The sign of
  a zero is the one thing that a place can differ in from a place it is equal to, and no
  test of the plane lets it show: sums, differences and products of alike numbers are
  alike, and so are quotients by the same number. Hence an edge may be traced from
  either of two equal vertices, and a ray meets it all the same.

  Not-a-number is unlike everything here, itself included, and is on no side of any
  other number.
-/

open Float.Model Float.Model.UnpackedFloat

namespace Airspace.Double

/-! ### Alike values -/

/-- Two values are alike if they are the same, or both zero. -/
inductive Alike : UnpackedFloat → UnpackedFloat → Prop
  /-- The same value. -/
  | refl (u : UnpackedFloat) : Alike u u
  /-- Two zeros of any signs. -/
  | zeros (s t : Sign) : Alike (.zero s) (.zero t)

namespace Alike

theorem symm {u v : UnpackedFloat} (h : Alike u v) : Alike v u := by
  cases h with
  | refl => exact .refl _
  | zeros s t => exact .zeros t s

theorem trans {u v w : UnpackedFloat} (h : Alike u v) (h' : Alike v w) : Alike u w := by
  cases h with
  | refl => exact h'
  | zeros s t =>
    cases h' with
    | refl => exact .zeros s t
    | zeros _ r => exact .zeros s r

/-- Packing a zero keeps it a zero. -/
theorem unpack_pack_zero (s : Sign) : (Float.Model.pack (.zero s)).unpack = .zero s := by
  cases s <;> rfl

/-- Alike values stay alike when they are packed. -/
theorem pack {u v : UnpackedFloat} (h : Alike u v) :
    Alike (Float.Model.pack u).unpack (Float.Model.pack v).unpack := by
  cases h with
  | refl => exact .refl _
  | zeros s t =>
    rw [unpack_pack_zero, unpack_pack_zero]
    exact .zeros s t

variable {f : Format} {u u' v v' : UnpackedFloat}

/-- An operation takes alike values to alike values if it does so with two zeros on either
    side. -/
theorem operate {op : UnpackedFloat → UnpackedFloat → UnpackedFloat}
    (hleft : ∀ s t v, Alike (op (.zero s) v) (op (.zero t) v))
    (hright : ∀ u s t, Alike (op u (.zero s)) (op u (.zero t)))
    (h : Alike u u') (h' : Alike v v') : Alike (op u v) (op u' v') := by
  have hfirst : Alike (op u v) (op u' v) := by
    cases h with
    | refl => exact .refl _
    | zeros s t => exact hleft s t v
  have hsecond : Alike (op u' v) (op u' v') := by
    cases h' with
    | refl => exact .refl _
    | zeros s t => exact hright u' s t
  exact hfirst.trans hsecond

/-- Sums of alike values are alike. -/
theorem add (h : Alike u u') (h' : Alike v v') :
    Alike (UnpackedFloat.add f u v) (UnpackedFloat.add f u' v') := by
  refine operate ?_ ?_ h h'
  · intro s t v
    cases v with
    | zero r => cases s <;> cases t <;> cases r <;> exact .zeros _ _
    | _ => exact .refl _
  · intro u s t
    cases u with
    | zero r => cases s <;> cases t <;> cases r <;> exact .zeros _ _
    | _ => exact .refl _

/-- Differences of alike values are alike. -/
theorem sub (h : Alike u u') (h' : Alike v v') :
    Alike (UnpackedFloat.sub f u v) (UnpackedFloat.sub f u' v') := by
  refine operate ?_ ?_ h h'
  · intro s t v
    cases v with
    | zero r => cases s <;> cases t <;> cases r <;> exact .zeros _ _
    | _ => exact .refl _
  · intro u s t
    cases u with
    | zero r => cases s <;> cases t <;> cases r <;> exact .zeros _ _
    | _ => exact .refl _

/-- Products of alike values are alike. -/
theorem mul (h : Alike u u') (h' : Alike v v') :
    Alike (UnpackedFloat.mul f u v) (UnpackedFloat.mul f u' v') := by
  refine operate ?_ ?_ h h'
  · -- a zero times a number is a zero, and times an infinity it is not-a-number
    intro s t v
    cases v with
    | zero r => exact .zeros _ _
    | finite r => exact .zeros _ _
    | _ => exact .refl _
  · intro u s t
    cases u with
    | zero r => exact .zeros _ _
    | finite r => exact .zeros _ _
    | _ => exact .refl _

/-- Alike values divided by the same value are alike. The divisors have to be the same:
    the two zeros lead to infinities of opposite signs. -/
theorem div (h : Alike u u') : Alike (UnpackedFloat.div f u v) (UnpackedFloat.div f u' v) := by
  cases h with
  | refl => exact .refl _
  | zeros s t =>
    cases v with
    | infinity r => exact .zeros _ _
    | finite r => exact .zeros _ _
    | _ => exact .refl _

/-- Comparisons do not tell alike values apart. -/
theorem compare_eq (h : Alike u u') (h' : Alike v v') :
    UnpackedFloat.compare u v = UnpackedFloat.compare u' v' := by
  cases h with
  | refl =>
    cases h' with
    | refl => rfl
    | zeros s t =>
      cases u with
      | infinity r => cases r <;> rfl
      | finite r => cases r <;> rfl
      | _ => rfl
  | zeros s t =>
    cases h' with
    | refl =>
      cases v with
      | infinity r => cases r <;> rfl
      | finite r => cases r <;> rfl
      | _ => rfl
    | zeros _ _ => rfl

end Alike

/-- Values that compare as equal are alike. -/
theorem alike_of_compare {u v : UnpackedFloat} (h : UnpackedFloat.compare u v = some .eq) :
    Alike u v := by
  match u, v with
  | .notANumber, _ => cases h
  | .infinity s, .infinity t =>
    cases s <;> cases t
    · exact .refl _
    · cases h
    · cases h
    · exact .refl _
  | .infinity s, .notANumber => cases h
  | .infinity s, .zero _ => cases s <;> cases h
  | .infinity s, .finite .. => cases s <;> cases h
  | .zero _, .notANumber => cases h
  | .zero _, .infinity t => cases t <;> cases h
  | .zero s, .zero t => exact .zeros s t
  | .zero _, .finite t .. => cases t <;> cases h
  | .finite .., .notANumber => cases h
  | .finite .., .infinity t => cases t <;> cases h
  | .finite s .., .zero _ => cases s <;> cases h
  | .finite s m e _, .finite t n d _ =>
    -- numbers of different signs are not equal, and below zero the order is turned round
    have hsame : (compare e d).then (compare m n) = .eq ∧ s = t := by
      cases s <;> cases t
      · exact ⟨Ordering.swap_eq_eq.mp (Option.some.inj h), rfl⟩
      · cases h
      · cases h
      · exact ⟨Option.some.inj h, rfl⟩
    obtain ⟨heq, rfl⟩ := hsame
    obtain ⟨hexp, hman⟩ := Ordering.then_eq_eq.mp heq
    obtain rfl := Std.LawfulEqOrd.compare_eq_iff_eq.mp hexp
    obtain rfl := Std.LawfulEqOrd.compare_eq_iff_eq.mp hman
    exact .refl _

/-- Alike values that are not equal have the same difference as any values alike to
    them: at most one of them is a zero, and taking it away or taking from it leaves
    no trace of its sign. -/
theorem Alike.sub_eq {f : Format} {u u' v v' : UnpackedFloat} (h : Alike u u') (h' : Alike v v')
    (hne : UnpackedFloat.compare u v ≠ some .eq) :
    UnpackedFloat.sub f u v = UnpackedFloat.sub f u' v' := by
  cases h with
  | refl =>
    cases h' with
    | refl => rfl
    | zeros s t =>
      cases u with
      | zero r => exact absurd rfl hne
      | _ => rfl
  | zeros s t =>
    cases h' with
    | refl =>
      cases v with
      | zero r => exact absurd rfl hne
      | _ => rfl
    | zeros _ _ => exact absurd rfl hne

/-- A value that is not equal to itself is not-a-number. -/
theorem eq_notANumber {u : UnpackedFloat} (h : UnpackedFloat.compare u u ≠ some .eq) :
    u = .notANumber := by
  cases u with
  | notANumber => rfl
  | infinity s => cases s <;> exact absurd rfl h
  | zero s => exact absurd rfl h
  | finite s m e _ =>
    have hself : (compare e e).then (compare m m) = .eq := by simp
    cases s
    · exact absurd (congrArg some (Ordering.swap_eq_eq.mpr hself)) h
    · exact absurd (congrArg some hself) h

/-! ### Alike doubles -/

theorem beq_iff_compare {a b : Float} :
    (a == b) = true ↔ UnpackedFloat.compare a.toModel.unpack b.toModel.unpack = some .eq := by
  show (UnpackedFloat.compare _ _ == some Ordering.eq) = true ↔ _
  rw [beq_iff_eq]

theorem lt_iff_compare {a b : Float} :
    a < b ↔ UnpackedFloat.compare a.toModel.unpack b.toModel.unpack = some .lt := by
  show decide ((_ == _) = true) = true ↔ _
  rw [decide_eq_true_iff, beq_iff_eq]

theorem le_iff_compare {a b : Float} :
    a ≤ b ↔ (UnpackedFloat.compare a.toModel.unpack b.toModel.unpack).any (·.isLE) = true := by
  show decide (_ = true) = true ↔ _
  rw [decide_eq_true_iff]
  rfl

/-- Two doubles are the same number up to the sign of zero. -/
def Same (a b : Float) : Prop := Alike a.toModel.unpack b.toModel.unpack

namespace Same

variable {a a' b b' : Float}

theorem refl (a : Float) : Same a a := Alike.refl _

theorem symm (h : Same a b) : Same b a := Alike.symm h

theorem trans {c : Float} (h : Same a b) (h' : Same b c) : Same a c := Alike.trans h h'

theorem add (h : Same a a') (h' : Same b b') : Same (a + b) (a' + b') := (Alike.add h h').pack

theorem sub (h : Same a a') (h' : Same b b') : Same (a - b) (a' - b') := (Alike.sub h h').pack

theorem mul (h : Same a a') (h' : Same b b') : Same (a * b) (a' * b') := (Alike.mul h h').pack

theorem div (h : Same a a') (b : Float) : Same (a / b) (a' / b) := (Alike.div h).pack

theorem beq_eq (h : Same a a') (h' : Same b b') : (a == b) = (a' == b') :=
  congrArg (· == some Ordering.eq) (Alike.compare_eq h h')

theorem lt_iff (h : Same a a') (h' : Same b b') : a < b ↔ a' < b' := by
  rw [lt_iff_compare, lt_iff_compare, Alike.compare_eq h h']

theorem le_iff (h : Same a a') (h' : Same b b') : a ≤ b ↔ a' ≤ b' := by
  rw [le_iff_compare, le_iff_compare, Alike.compare_eq h h']

/-- The smaller of two numbers, up to the sign of zero. -/
theorem least (h : Same a a') (h' : Same b b') :
    Same (Airspace.least a b) (Airspace.least a' b') := by
  unfold Airspace.least
  simp only [h.lt_iff h', h'.beq_eq h']
  split
  · exact h
  · split
    · exact h'
    · exact h

/-- The larger of two numbers, up to the sign of zero. -/
theorem greatest (h : Same a a') (h' : Same b b') :
    Same (Airspace.greatest a b) (Airspace.greatest a' b') := by
  unfold Airspace.greatest
  simp only [h'.lt_iff h, h'.beq_eq h']
  split
  · exact h
  · split
    · exact h'
    · exact h

end Same

/-- Doubles that compare as equal are the same number. -/
theorem same_of_beq {a b : Float} (h : (a == b) = true) : Same a b :=
  alike_of_compare (beq_iff_compare.mp h)

theorem beq_symm {a b : Float} (h : (a == b) = true) : (b == a) = true := by
  have hsame := same_of_beq h
  rw [hsame.symm.beq_eq hsame]
  exact h

/-- Nothing is above not-a-number. -/
theorem not_nan_lt {a b : Float} (h : (a == a) = false) : ¬ a < b := by
  have hnan : a.toModel.unpack = .notANumber :=
    eq_notANumber fun heq => Bool.false_ne_true (h.symm.trans (beq_iff_compare.mpr heq))
  rw [lt_iff_compare, hnan]
  exact nofun

end Airspace.Double

/-! ### Crossings of alike edges -/

namespace Airspace.Point

open Double

variable {p a a' b b' : Position}

/-- Two places are the same up to the signs of zeros. -/
structure Same (a b : Position) : Prop where
  lat : Double.Same a.lat b.lat
  lon : Double.Same a.lon b.lon

theorem Same.refl (a : Position) : Same a a := ⟨.refl _, .refl _⟩

theorem Same.trans {c : Position} (h : Same a b) (h' : Same b c) : Same a c :=
  ⟨h.lat.trans h'.lat, h.lon.trans h'.lon⟩

/-- Places that compare as equal are the same. -/
theorem same_of_beq (h : (a == b) = true) : Same a b := by
  obtain ⟨hlat, hlon⟩ := Bool.and_eq_true_iff.mp h
  exact ⟨Double.same_of_beq hlat, Double.same_of_beq hlon⟩

theorem beq_symm (h : (a == b) = true) : (b == a) = true := by
  obtain ⟨hlat, hlon⟩ := Bool.and_eq_true_iff.mp h
  exact Bool.and_eq_true_iff.mpr ⟨Double.beq_symm hlat, Double.beq_symm hlon⟩

/-- The line through two places of different longitudes does not depend on the signs of
    their zeros. -/
theorem latitudeOn_same (h : Same a a') (h' : Same b b') (hne : (a.lon == b.lon) = false) :
    Double.Same (latitudeOn p a b) (latitudeOn p a' b') := by
  -- the divisor is the same to the last bit, as a quotient asks of it
  have hrun : b.lon - a.lon = b'.lon - a'.lon := by
    refine congrArg (fun u => Float.ofModel (Float.Model.pack u)) (Alike.sub_eq h'.lon h.lon ?_)
    intro heq
    have hbeq := Double.beq_symm (beq_iff_compare.mpr heq)
    rw [hne] at hbeq
    exact Bool.false_ne_true hbeq
  unfold latitudeOn
  rw [← hrun]
  exact ((((Double.Same.refl _).sub h.lon).mul (h'.lat.sub h.lat)).div _).add h.lat

/-- A ray meets an edge wherever the signs of the zeros in its ends stand. -/
theorem meets_same (h : Same a a') (h' : Same b b') : p.meets a b = p.meets a' b' := by
  unfold meets
  have hlow := (h.lon.least h'.lon).lt_iff (.refl p.lon)
  have hhigh := (Double.Same.refl p.lon).le_iff (h.lon.greatest h'.lon)
  have hahead := (Double.Same.refl p.lat).le_iff (h.lat.greatest h'.lat)
  have hlon := h.lon.beq_eq h'.lon
  have hlat := h.lat.beq_eq h'.lat
  cases hne : a.lon == b.lon with
  | true =>
    rw [hne] at hlon
    simp only [bne, hne, ← hlon, Bool.not_true, Bool.and_false, Bool.false_and]
  | false =>
    have hcross := (Double.Same.refl p.lat).le_iff (latitudeOn_same (p := p) h h' hne)
    simp only [bne, hlow, hhigh, hahead, hlon, hlat, hcross]

/-- A ray meets no edge between equal places. -/
theorem meets_of_beq (h : (a == b) = true) : p.meets a b = false := by
  have hlon := (Bool.and_eq_true_iff.mp h).2
  simp only [meets, bne, hlon, Bool.not_true, Bool.and_false, Bool.false_and]

/-- A ray meets no edge from a place to itself, not even where the place is not equal
    to itself. -/
theorem meets_self (p a : Position) : p.meets a a = false := by
  cases hself : a.lon == a.lon with
  | true => simp only [meets, bne, hself, Bool.not_true, Bool.and_false, Bool.false_and]
  | false =>
    -- a longitude that is not-a-number is below nothing
    have hleast : least a.lon a.lon = a.lon := by
      unfold least
      split
      · rfl
      · split <;> rfl
    have hlow : ¬ least a.lon a.lon < p.lon := by
      rw [hleast]
      exact not_nan_lt hself
    simp only [meets, decide_eq_false hlow, Bool.false_and]

/-- A ray meets no edge between places that are the same. -/
theorem meets_of_same (h : Same a b) : p.meets a b = false :=
  (meets_same h (.refl b)).trans (meets_self p b)

end Airspace.Point
